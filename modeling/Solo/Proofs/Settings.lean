import Solo.Proofs.OptionFree
import Solo.Proofs.Soundness

/-!
# Settings of a run

Two of the options are for runs: the switch that turns the folding of calls on, and the limit on
calls inside each other. Checking looks at neither of them. So a draft is checked in the same way
whatever they are, and has the same errors. Folding looks at the switch only.
-/

namespace Solo

def Options.running (o : Options) (on : Bool) (limit : Nat) : Options :=
  { o with foldSingletonCalls := on, maxCallDepth := limit }

def Context.running (cx : Context) (on : Bool) (limit : Nat) : Context :=
  { cx with options := cx.options.running on limit }

def Checked.running (q : Checked) (on : Bool) (limit : Nat) : Checked :=
  { q with context := q.context.running on limit }

namespace Resolver

def running (r : Resolver) (on : Bool) (limit : Nat) : Resolver :=
  { r with options := r.options.running on limit }

variable (r : Resolver) (on : Bool) (limit : Nat)

/-! ### Types -/

theorem typeOfNode_running (node : TyNode Mark) :
    (r.running on limit).typeOfNode node = r.typeOfNode node :=
  r.typeOfNode_under (r.options.running on limit) rfl node

theorem lub_running : (r.running on limit).lub = r.lub := r.lub_under _

theorem checkAssignable_running : (r.running on limit).checkAssignable = r.checkAssignable :=
  r.checkAssignable_under _

/-! ### Constants -/

theorem constant_running (n : Nat) : (r.running on limit).constant n = r.constant n :=
  (r.constants_under _ n).2

theorem inhabitantWithin_running : (r.running on limit).inhabitantWithin = r.inhabitantWithin :=
  r.inhabitantWithin_under _

theorem inhabitant_running : (r.running on limit).inhabitant = r.inhabitant := by
  funext t
  simp only [inhabitant, inhabitantWithin_running]
  rfl

/-! ### Calls -/

theorem selectOverload_running : (r.running on limit).selectOverload = r.selectOverload :=
  r.selectOverload_under _

/-! ### Trees -/

theorem typeOfInhabitant_running : (r.running on limit).typeOfInhabitant = r.typeOfInhabitant := by
  funext m node
  simp only [typeOfInhabitant, typeOfNode_running, inhabitant_running]

theorem checkPat_running : (r.running on limit).checkPat = r.checkPat :=
  r.checkPat_under (r.options.running on limit) rfl

theorem typeOfUnary_running : (r.running on limit).typeOfUnary = r.typeOfUnary :=
  r.typeOfUnary_under _

theorem typeOfBinary_running : (r.running on limit).typeOfBinary = r.typeOfBinary :=
  r.typeOfBinary_under _

mutual
theorem typeOfExpr_running : ∀ (e : Expr Mark) (expected : Option Ty),
    (r.running on limit).typeOfExpr e expected = r.typeOfExpr e expected
  | .lit _, _ => rfl
  | .name _, _ => rfl
  | .paren _ e, expected => by
    rw [typeOfExpr, typeOfExpr, typeOfExpr_running e]
  | .unary _ _ e, _ => by
    rw [typeOfExpr, typeOfExpr, typeOfExpr_running e, typeOfUnary_running]
  | .bin _ _ a b, _ => by
    rw [typeOfExpr, typeOfExpr, typeOfExpr_running a, typeOfExpr_running b, typeOfBinary_running]
  | .call _ _ args, _ => by
    simp only [typeOfExpr, typeOfArgs_running args, selectOverload_running]
    rfl
  | .block _ ss last, expected => by
    rw [typeOfExpr, typeOfExpr, checkStmts_running ss, typeOfTail_running last]
  | .assign _ _ e, _ => by
    simp only [typeOfExpr, typeOfExpr_running e, checkAssignable_running]
    rfl
  | .cases _ e arms, expected => by
    simp only [typeOfExpr, typeOfExpr_running e, typeOfArms_running _ _ _ _ arms]
  | .inhabitant _ _, _ => by
    rw [typeOfExpr, typeOfExpr, typeOfInhabitant_running]
  | .host _ _, _ => rfl

theorem typeOfArgs_running : ∀ (es : List (Expr Mark)) (expected : List Ty),
    (r.running on limit).typeOfArgs es expected = r.typeOfArgs es expected
  | [], _ => rfl
  | e :: es, expected => by
    rw [typeOfArgs, typeOfArgs, typeOfExpr_running e, typeOfArgs_running es]

theorem typeOfTail_running : ∀ (last : Option (Expr Mark)) (expected : Option Ty),
    (r.running on limit).typeOfTail last expected = r.typeOfTail last expected
  | none, _ => rfl
  | some e, expected => typeOfExpr_running e expected

theorem typeOfArms_running (t : Ty) (expected : Option Ty) : ∀ (closed : Bool) (above : Option Ty)
    (arms : List (Arm Mark)), (r.running on limit).typeOfArms t expected closed above arms =
      r.typeOfArms t expected closed above arms
  | _, _, [] => rfl
  | _, _, ⟨_, _, e⟩ :: arms => by
    simp only [typeOfArms, typeOfExpr_running e, checkPat_running, lub_running,
      typeOfArms_running t expected _ _ arms]

theorem checkStmt_running : ∀ t : Stmt Mark, (r.running on limit).checkStmt t = r.checkStmt t
  | .val ⟨_, _, _, _, e⟩ => by
    simp only [checkStmt, typeOfExpr_running e, checkAssignable_running]
    rfl
  | .typeAlias ⟨_, _, _⟩ => rfl
  | .fn ⟨_, _, _, _, e⟩ => by
    simp only [checkStmt, typeOfExpr_running e, checkAssignable_running]
    rfl
  | .expr _ e => by
    rw [checkStmt, checkStmt, typeOfExpr_running e]

theorem checkStmts_running : ∀ ss : List (Stmt Mark),
    (r.running on limit).checkStmts ss = r.checkStmts ss
  | [] => rfl
  | t :: ss => by
    rw [checkStmts, checkStmts, checkStmt_running t, checkStmts_running ss]
end

/-! ### Declarations -/

theorem typeOfVal_running (d : ValDecl Mark) :
    (r.running on limit).typeOfVal d = r.typeOfVal d := by
  simp only [typeOfVal, typeOfNode_running, typeOfExpr_running]
  rfl

theorem typeOfSymbol_running : (r.running on limit).typeOfSymbol = r.typeOfSymbol := by
  funext x
  simp only [typeOfSymbol, typeOfNode_running, typeOfVal_running]
  rfl

theorem targetOfAlias_running : (r.running on limit).targetOfAlias = r.targetOfAlias := by
  funext x span
  simp only [targetOfAlias, typeOfNode_running]
  rfl

theorem typeOfParam_running : (r.running on limit).typeOfParam = r.typeOfParam :=
  r.typeOfParam_under (r.options.running on limit) rfl

theorem signatureOf_running : (r.running on limit).signatureOf = r.signatureOf := by
  funext d
  simp only [signatureOf, typeOfParam_running, typeOfNode_running, typeOfExpr_running]
  rfl

theorem ofDepth_running (cx : Context) (n : Nat) :
    ofDepth (cx.running on limit) n = (ofDepth cx n).running on limit := by
  induction n with
  | zero => rfl
  | succ n ih =>
    simp only [ofDepth, ih, typeOfSymbol_running, targetOfAlias_running, signatureOf_running]
    rfl

/-! ### Purity -/

theorem isNonZeroConstant_running :
    (r.running on limit).isNonZeroConstant = r.isNonZeroConstant := by
  funext e
  simp only [isNonZeroConstant, constantAt, r.constant_running on limit]
  rfl

section
variable (callIsPure : FnDecl Mark → Check Bool) (owner : Option (FnDecl Mark))

mutual
theorem exprIsPure_running : ∀ e : Expr Mark,
    (r.running on limit).exprIsPure callIsPure owner e = r.exprIsPure callIsPure owner e
  | .lit _ => rfl
  | .inhabitant _ _ => rfl
  | .name _ => rfl
  | .paren _ e => exprIsPure_running e
  | .unary _ _ e => exprIsPure_running e
  | .bin _ _ a b => by
    rw [exprIsPure, exprIsPure, exprIsPure_running a, exprIsPure_running b,
      isNonZeroConstant_running]
  | .block _ ss last => by
    rw [exprIsPure, exprIsPure, stmtsArePure_running ss, tailIsPure_running last]
  | .cases _ e arms => by
    rw [exprIsPure, exprIsPure, exprIsPure_running e, armsArePure_running arms]
  | .call _ _ args => by
    simp only [exprIsPure, exprsArePure_running args]
    rfl
  | .assign _ _ _ => rfl
  | .host _ _ => rfl

theorem exprsArePure_running : ∀ es : List (Expr Mark),
    (r.running on limit).exprsArePure callIsPure owner es = r.exprsArePure callIsPure owner es
  | [] => rfl
  | e :: es => by
    rw [exprsArePure, exprsArePure, exprIsPure_running e, exprsArePure_running es]

theorem tailIsPure_running : ∀ last : Option (Expr Mark),
    (r.running on limit).tailIsPure callIsPure owner last = r.tailIsPure callIsPure owner last
  | none => rfl
  | some e => exprIsPure_running e

theorem armsArePure_running : ∀ arms : List (Arm Mark),
    (r.running on limit).armsArePure callIsPure owner arms = r.armsArePure callIsPure owner arms
  | [] => rfl
  | ⟨_, _, e⟩ :: arms => by
    rw [armsArePure, armsArePure, exprIsPure_running e, armsArePure_running arms]

theorem stmtIsPure_running : ∀ t : Stmt Mark,
    (r.running on limit).stmtIsPure callIsPure owner t = r.stmtIsPure callIsPure owner t
  | .val ⟨_, _, _, _, e⟩ => exprIsPure_running e
  | .typeAlias _ => rfl
  | .fn _ => rfl
  | .expr _ e => exprIsPure_running e

theorem stmtsArePure_running : ∀ ss : List (Stmt Mark),
    (r.running on limit).stmtsArePure callIsPure owner ss = r.stmtsArePure callIsPure owner ss
  | [] => rfl
  | t :: ss => by
    rw [stmtsArePure, stmtsArePure, stmtIsPure_running t, stmtsArePure_running ss]
end

end

theorem fnIsPureWithin_running : (r.running on limit).fnIsPureWithin = r.fnIsPureWithin := by
  funext n
  induction n with
  | zero => rfl
  | succ n ih =>
    funext d
    simp only [fnIsPureWithin, ih, exprIsPure_running]

theorem fnIsPure_running : (r.running on limit).fnIsPure = r.fnIsPure := by
  funext d
  rw [fnIsPure, fnIsPureWithin_running]
  rfl

theorem isPureWithin_running : (r.running on limit).isPureWithin = r.isPureWithin := by
  funext owner e
  simp only [isPureWithin, fnIsPure_running, exprIsPure_running]

end Resolver

/-! ### Checked drafts -/

theorem Context.resolver_running (cx : Context) (on : Bool) (limit : Nat) :
    (cx.running on limit).resolver = cx.resolver.running on limit :=
  Resolver.ofDepth_running on limit cx _

theorem Context.checked_running (cx : Context) (on : Bool) (limit : Nat) :
    (cx.running on limit).checked = cx.checked.map (·.running on limit) := by
  have same : (cx.running on limit).check = cx.check := by
    rw [check, check, resolver_running, Resolver.checkStmts_running]
    rfl
  have names : (cx.running on limit).names = cx.names := rfl
  rw [checked, checked, same, names]
  cases (do cx.check; Check.takeDiagnostics : Check (List Diagnostic)).run (.start cx.names) <;> rfl

/-- A draft passes with one setting if it passes with another. -/
theorem Draft.Passes.running {d : Draft} {o : Options} {q : Checked} (passes : d.Passes o q)
    (on : Bool) (limit : Nat) : d.Passes (o.running on limit) (q.running on limit) := by
  refine ⟨?_, passes.clean⟩
  have checked := (d.context o).checked_running on limit
  rw [passes.checked] at checked
  exact checked

/-! ### The switch for folding -/

def Options.switch (o : Options) (on : Bool) : Options := { o with foldSingletonCalls := on }

def Context.switch (cx : Context) (on : Bool) : Context :=
  { cx with options := cx.options.switch on }

def Checked.switch (q : Checked) (on : Bool) : Checked := { q with context := q.context.switch on }

theorem Draft.Passes.switch {d : Draft} {o : Options} {q : Checked} (passes : d.Passes o q)
    (on : Bool) : d.Passes (o.switch on) (q.switch on) := by
  have same : q.switch on = q.running on o.maxCallDepth := by
    rw [Checked.switch, Checked.running, passes.certified.1]
    rfl
  rw [same]
  exact passes.running on o.maxCallDepth

/-! ### The limit on calls -/

def Options.limited (o : Options) (limit : Nat) : Options := { o with maxCallDepth := limit }

def Context.limited (cx : Context) (limit : Nat) : Context :=
  { cx with options := cx.options.limited limit }

def Checked.limited (q : Checked) (limit : Nat) : Checked :=
  { q with context := q.context.limited limit }

theorem Draft.Passes.limited {d : Draft} {o : Options} {q : Checked} (passes : d.Passes o q)
    (limit : Nat) : d.Passes (o.limited limit) (q.limited limit) := by
  have same : q.limited limit = q.running o.foldSingletonCalls limit := by
    rw [Checked.limited, Checked.running, passes.certified.1]
    rfl
  rw [same]
  exact passes.running o.foldSingletonCalls limit

namespace Resolver

def limited (r : Resolver) (limit : Nat) : Resolver :=
  { r with options := r.options.limited limit }

variable (r : Resolver) (limit : Nat)

theorem callValue_limited : (r.limited limit).callValue = r.callValue := by
  funext owner call args sig
  have inhabitant : (r.limited limit).inhabitant = r.inhabitant := r.inhabitant_running _ limit
  have fnIsPure : (r.limited limit).fnIsPure = r.fnIsPure := r.fnIsPure_running _ limit
  have isPureWithin : (r.limited limit).isPureWithin = r.isPureWithin :=
    r.isPureWithin_running _ limit
  simp only [callValue, inhabitant, fnIsPure, isPureWithin]
  rfl

theorem foldCall_limited : (r.limited limit).foldCall = r.foldCall := by
  funext owner m f args
  simp only [foldCall, callValue_limited]

mutual
theorem foldExpr_limited (owner : Option (FnDecl Mark)) : ∀ e : Expr Mark,
    (r.limited limit).foldExpr owner e = r.foldExpr owner e
  | .lit _ => rfl
  | .name _ => rfl
  | .host _ _ => rfl
  | .paren _ e => foldExpr_limited owner e
  | .unary _ _ e => foldExpr_limited owner e
  | .bin _ _ a b => by
    rw [foldExpr, foldExpr, foldExpr_limited owner a, foldExpr_limited owner b]
  | .block _ ss last => by
    rw [foldExpr, foldExpr, foldStmts_limited owner ss, foldTail_limited owner last]
  | .assign _ _ e => foldExpr_limited owner e
  | .cases _ e arms => by
    rw [foldExpr, foldExpr, foldExpr_limited owner e, foldArms_limited owner arms]
  | .inhabitant _ _ => rfl
  | .call _ _ args => by
    rw [foldExpr, foldExpr, foldCall_limited, foldExprs_limited owner args]

theorem foldExprs_limited (owner : Option (FnDecl Mark)) : ∀ es : List (Expr Mark),
    (r.limited limit).foldExprs owner es = r.foldExprs owner es
  | [] => rfl
  | e :: es => by
    rw [foldExprs, foldExprs, foldExpr_limited owner e, foldExprs_limited owner es]

theorem foldTail_limited (owner : Option (FnDecl Mark)) : ∀ last : Option (Expr Mark),
    (r.limited limit).foldTail owner last = r.foldTail owner last
  | none => rfl
  | some e => foldExpr_limited owner e

theorem foldArms_limited (owner : Option (FnDecl Mark)) : ∀ arms : List (Arm Mark),
    (r.limited limit).foldArms owner arms = r.foldArms owner arms
  | [] => rfl
  | ⟨_, _, e⟩ :: arms => by
    rw [foldArms, foldArms, foldExpr_limited owner e, foldArms_limited owner arms]

theorem foldStmt_limited (owner : Option (FnDecl Mark)) : ∀ t : Stmt Mark,
    (r.limited limit).foldStmt owner t = r.foldStmt owner t
  | .val ⟨_, _, _, _, e⟩ => foldExpr_limited owner e
  | .fn ⟨m, name, params, result, e⟩ => foldExpr_limited (some ⟨m, name, params, result, e⟩) e
  | .expr _ e => foldExpr_limited owner e
  | .typeAlias _ => rfl

theorem foldStmts_limited (owner : Option (FnDecl Mark)) : ∀ ss : List (Stmt Mark),
    (r.limited limit).foldStmts owner ss = r.foldStmts owner ss
  | [] => rfl
  | t :: ss => by
    rw [foldStmts, foldStmts, foldStmt_limited owner t, foldStmts_limited owner ss]
end

end Resolver

theorem Context.resolver_limited (cx : Context) (limit : Nat) :
    (cx.limited limit).resolver = cx.resolver.limited limit := by
  have same : cx.resolver.toContext = cx := Resolver.toContext_ofDepth cx _
  have options : cx.resolver.options = cx.options := congrArg Context.options same
  have running := cx.resolver_running cx.options.foldSingletonCalls limit
  rw [← options] at running
  rw [limited, ← options]
  exact running

theorem Context.fold_limited (cx : Context) (limit : Nat) : (cx.limited limit).fold = cx.fold := by
  rw [fold, fold, resolver_limited, Resolver.foldStmts_limited]
  rfl

end Solo

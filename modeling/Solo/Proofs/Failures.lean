import Solo.Proofs.Runs

/-!
# Failures

A run fails where one of the evaluations inside it fails first. `Raises` lists what an evaluation
itself can fail at, once the evaluations it begins are done; `failure?_iff` traces every failure
back to such a place.
-/

namespace Solo

/-! ### Failures of actions -/

namespace Eval

variable {α β : Type}

def failure? (a : Eval α) (s : Machine) : Option EvalError :=
  match (a s).1 with
  | .ok _ => none
  | .error e => some e

theorem failure?_of_run {a : Eval α} {s s' : Machine} {e : EvalError} (run : a s = (.error e, s')) :
    a.failure? s = some e := by
  rw [failure?, run]

theorem failure?_ok {a : Eval α} {s s' : Machine} {x : α} (run : a s = (.ok x, s')) :
    a.failure? s = none := by
  rw [failure?, run]

/-- What is done in turn fails where one of its parts does. -/
theorem failure?_bind {a : Eval α} {f : α → Eval β} {s : Machine} {e : EvalError} :
    (a >>= f).failure? s = some e ↔
      a.failure? s = some e ∨ ∃ x s', a s = (.ok x, s') ∧ (f x).failure? s' = some e := by
  cases run : a s with
  | mk r s' =>
    cases r with
    | error e' =>
      rw [failure?, Eval.bind_error run, failure?_of_run run]
      exact ⟨.inl, fun either => either.elim id fun ⟨_, _, same, _⟩ => by cases same⟩
    | ok x =>
      rw [failure?, Eval.bind_ok run, failure?_ok run]
      refine ⟨fun fails => .inr ⟨x, s', rfl, fails⟩, ?_⟩
      rintro (impossible | ⟨_, _, same, fails⟩)
      · cases impossible
      · cases same
        exact fails

theorem failure?_first {a : Eval α} {f : α → Eval β} {s : Machine} {e : EvalError}
    (fails : a.failure? s = some e) : (a >>= f).failure? s = some e :=
  failure?_bind.mpr (.inl fails)

theorem failure?_next {a : Eval α} {f : α → Eval β} {s s' : Machine} {x : α} {e : EvalError}
    (run : a s = (.ok x, s')) (fails : (f x).failure? s' = some e) :
    (a >>= f).failure? s = some e :=
  failure?_bind.mpr (.inr ⟨x, s', run, fails⟩)

theorem failure?_throw {cause e : EvalError} {s : Machine} :
    (throw cause : Eval α).failure? s = some e ↔ e = cause := by
  change some cause = some e ↔ _
  simp [eq_comm]

theorem failure?_inFrame (frame : Frame) (a : Eval Literal) (s : Machine) :
    (inFrame frame a).failure? s = a.failure? { s with frames := frame :: s.frames } := rfl

theorem failure?_apply {symbol : String} {result : Except OpError Literal} {s : Machine}
    {e : EvalError} : (apply symbol result).failure? s = some e ↔
      (result = .error .divisionByZero ∧ e = .divisionByZero) ∨
        (result = .error .unsupported ∧ e = .invalidOperands symbol) := by
  cases result with
  | ok v => cases v <;> simp [failure?, apply] <;> nofun
  | error o =>
    cases o with
    | divisionByZero =>
      change some EvalError.divisionByZero = some e ↔ _
      simp [eq_comm]
    | unsupported =>
      change some (EvalError.invalidOperands symbol) = some e ↔ _
      simp [eq_comm]

end Eval

/-! ### Failures of names and patterns -/

namespace Plan

section
variable {p : Plan} {s : Machine} {e : EvalError}

theorem lookup_failure {x : SymbolId} (fails : (p.lookup x).failure? s = some e) :
    e = .uninitialized (p.nameOf x) := by
  rw [Eval.failure?, p.lookup_apply] at fails
  cases found : lookFrames x s.frames <;> rw [found] at fails <;> cases fails
  rfl

theorem read_failure {x : Ident Mark} (fails : (p.read x).failure? s = some e) :
    (p.symbolAt? x.mark.id = none ∧ e = .unresolved x.mark.span) ∨
      ∃ name, e = .uninitialized name := by
  unfold read at fails
  split at fails
  · exact .inr ⟨_, lookup_failure fails⟩
  · next missing => exact .inl ⟨missing, Eval.failure?_throw.mp fails⟩

theorem write_failure {x : Ident Mark} {v : Literal} (fails : (p.write x v).failure? s = some e) :
    (p.symbolAt? x.mark.id = none ∧ e = .unresolved x.mark.span) ∨
      ∃ name, e = .uninitialized name := by
  cases target : p.symbolAt? x.mark.id with
  | none =>
    rw [write, target] at fails
    exact .inl ⟨rfl, Eval.failure?_throw.mp fails⟩
  | some y =>
    rw [Eval.failure?, write_apply target] at fails
    cases written : writeFrames y v s.frames <;> rw [written] at fails <;> cases fails
    exact .inr ⟨_, rfl⟩

theorem isInstance_failure {v : Literal} {t : Ty} (fails : (p.isInstance v t).failure? s = some e) :
    ∃ name, e = .uninitialized name := by
  cases t with
  | literal w => cases fails
  | path x =>
    rcases Eval.failure?_bind.mp fails with missing | ⟨_, _, _, returns⟩
    · exact ⟨_, lookup_failure missing⟩
    · cases returns
  | intrinsic k => cases k <;> cases fails

theorem matchesPat_failure {v : Literal} {a : Pat Mark}
    (fails : (p.matchesPat v a).failure? s = some e) :
    (∃ m node, a = .typed m node ∧ p.checker.nodeTypes.find? m.id = none ∧
      e = .unresolved m.span) ∨ ∃ name, e = .uninitialized name := by
  cases a with
  | wildcard m => cases fails
  | lit m l => cases fails
  | typed m node =>
    rw [matchesPat] at fails
    split at fails
    · exact .inr (isInstance_failure fails)
    · next missing => exact .inl ⟨m, node, rfl, missing, Eval.failure?_throw.mp fails⟩

end

/-! ### Where evaluations fail -/

section
variable (p : Plan)

def failure? (c : Config) : Option EvalError :=
  match c.task with
  | .expr e => (p.evalExpr (p.call c.left) e).failure? c.machine
  | .exprs es => (p.evalExprs (p.call c.left) es).failure? c.machine
  | .tail e => (p.evalTail (p.call c.left) e).failure? c.machine
  | .arms v arms => (p.evalArms (p.call c.left) v arms).failure? c.machine
  | .stmt s => (p.evalStmt (p.call c.left) s).failure? c.machine
  | .stmts ss => (p.evalStmts (p.call c.left) ss).failure? c.machine

/-- An evaluation fails by itself, not inside one that it begins. -/
inductive Raises : Config → EvalError → Prop
  | read {n : Nat} {s : Machine} {x : Ident Mark} {e : EvalError}
      (kept : p.folds.find? x.mark.id = none) (fails : (p.read x).failure? s = some e) :
    Raises ⟨n, .expr (.name x), s⟩ e
  | unary {n : Nat} {s s' : Machine} {m : Mark} {op : UnaryOp} {a : Expr Mark} {v : Literal}
      {e : EvalError} (kept : p.folds.find? m.id = none)
      (operand : p.evalExpr (p.call n) a s = (.ok v, s'))
      (fails : (Eval.apply op.symbol (op.eval v)).failure? s' = some e) :
    Raises ⟨n, .expr (.unary m op a), s⟩ e
  | bin {n : Nat} {s s' s'' : Machine} {m : Mark} {op : BinOp} {a b : Expr Mark} {v w : Literal}
      {e : EvalError} (kept : p.folds.find? m.id = none)
      (left : p.evalExpr (p.call n) a s = (.ok v, s')) (both : ¬op.Short v)
      (right : p.evalExpr (p.call n) b s' = (.ok w, s''))
      (fails : (Eval.apply op.symbol (op.eval v w)).failure? s'' = some e) :
    Raises ⟨n, .expr (.bin m op a b), s⟩ e
  | callee {n : Nat} {s s' : Machine} {m : Mark} {f : Ident Mark} {args : List (Expr Mark)}
      {vs : List Literal} (kept : p.folds.find? m.id = none)
      (first : p.evalExprs (p.call n) args s = (.ok vs, s'))
      (own : (p.symbolAt? f.mark.id).any (fun x => (p.symbol x).role = .builtin) = false)
      (missing : p.checker.signatures.find? m.id = none) :
    Raises ⟨n, .expr (.call m f args), s⟩ (.unresolved m.span)
  | depth {s s' : Machine} {m : Mark} {f : Ident Mark} {args : List (Expr Mark)}
      {vs : List Literal} {sig : Signature} (kept : p.folds.find? m.id = none)
      (first : p.evalExprs (p.call 0) args s = (.ok vs, s'))
      (own : (p.symbolAt? f.mark.id).any (fun x => (p.symbol x).role = .builtin) = false)
      (found : p.checker.signatures.find? m.id = some sig) :
    Raises ⟨0, .expr (.call m f args), s⟩ (.callDepthExceeded p.options.maxCallDepth)
  | assign {n : Nat} {s s' : Machine} {m : Mark} {x : Ident Mark} {a : Expr Mark} {v : Literal}
      {e : EvalError} (kept : p.folds.find? m.id = none)
      (first : p.evalExpr (p.call n) a s = (.ok v, s'))
      (fails : (p.write x v).failure? s' = some e) :
    Raises ⟨n, .expr (.assign m x a), s⟩ e
  | inhabitant {n : Nat} {s : Machine} {m : Mark} {node : TyNode Mark}
      (kept : p.folds.find? m.id = none) (missing : p.checker.witnesses.find? m.id = none) :
    Raises ⟨n, .expr (.inhabitant m node), s⟩ (.unresolved m.span)
  | noCase {n : Nat} {s : Machine} {v : Literal} : Raises ⟨n, .arms v [], s⟩ (.noCaseMatches v)
  | pattern {n : Nat} {s : Machine} {v : Literal} {m : Mark} {a : Pat Mark} {b : Expr Mark}
      {arms : List (Arm Mark)} {e : EvalError}
      (fails : (p.matchesPat v a).failure? s = some e) :
    Raises ⟨n, .arms v (⟨m, a, b⟩ :: arms), s⟩ e

/-- Something inside an evaluation fails. -/
def Breaks (err : EvalError) (c : Config) : Prop :=
  ∃ c', Relation.ReflTransGen p.Enters c c' ∧ p.Raises c' err

/-- A node that was folded has its value without fail. -/
theorem unlessFolded_failure {node : NodeId} {find : Eval Literal} {s : Machine} {e : EvalError}
    (fails : (p.unlessFolded node find).failure? s = some e) :
    p.folds.find? node = none ∧ find.failure? s = some e := by
  unfold unlessFolded at fails
  split at fails
  · cases fails
  · next kept => exact ⟨kept, fails⟩

end

variable {p : Plan} {c c' : Config} {err : EvalError} {n : Nat}

theorem unlessFolded_kept {node : NodeId} (find : Eval Literal)
    (kept : p.folds.find? node = none) : p.unlessFolded node find = find := by
  rw [unlessFolded, kept]

theorem Breaks.enter (breaks : p.Breaks err c') (enters : p.Enters c c') : p.Breaks err c := by
  obtain ⟨c'', later, raises⟩ := breaks
  exact ⟨c'', .head enters later, raises⟩

theorem Raises.breaks (raises : p.Raises c err) : p.Breaks err c := ⟨c, .refl, raises⟩

/-! ### What fails inside makes the whole fail -/

theorem Enters.fails (enters : p.Enters c c') (fails : p.failure? c' = some err) :
    p.failure? c = some err := by
  cases enters with
  | paren kept =>
    dsimp only [failure?]
    rw [evalExpr, unlessFolded_kept _ kept]
    exact fails
  | unary kept | left kept | args kept | block kept | assign kept | scrutinee kept =>
    dsimp only [failure?]
    rw [evalExpr, unlessFolded_kept _ kept]
    exact Eval.failure?_first fails
  | right kept first both =>
    dsimp only [failure?]
    rw [evalExpr, unlessFolded_kept _ kept]
    refine Eval.failure?_next first ?_
    rw [BinOp.Short] at both
    rw [if_neg both]
    exact Eval.failure?_first fails
  | body kept first own found =>
    dsimp only [failure?]
    rw [evalExpr, unlessFolded_kept _ kept]
    refine Eval.failure?_next first ?_
    rw [applyCall, own, found]
    exact fails
  | tail kept first | arms kept first =>
    dsimp only [failure?]
    rw [evalExpr, unlessFolded_kept _ kept]
    exact Eval.failure?_next first fails
  | arg =>
    dsimp only [failure?]
    rw [evalExprs]
    exact Eval.failure?_first fails
  | nextArgs first =>
    dsimp only [failure?]
    rw [evalExprs]
    exact Eval.failure?_next first (Eval.failure?_first fails)
  | last => exact fails
  | arm first | nextArms first =>
    dsimp only [failure?]
    rw [evalArms]
    exact Eval.failure?_next first fails
  | @init n s d =>
    obtain ⟨m, kind, x, ty, e⟩ := d
    dsimp only [failure?]
    rw [evalStmt]
    exact Eval.failure?_first fails
  | effect =>
    dsimp only [failure?]
    rw [evalStmt]
    exact Eval.failure?_first fails
  | stmt =>
    dsimp only [failure?]
    rw [evalStmts]
    exact Eval.failure?_first fails
  | nextStmts first =>
    dsimp only [failure?]
    rw [evalStmts]
    exact Eval.failure?_next first fails

theorem Raises.fails (raises : p.Raises c err) : p.failure? c = some err := by
  cases raises with
  | read kept fails =>
    dsimp only [failure?]
    rw [evalExpr, unlessFolded_kept _ kept]
    exact fails
  | unary kept operand fails =>
    dsimp only [failure?]
    rw [evalExpr, unlessFolded_kept _ kept]
    exact Eval.failure?_next operand fails
  | bin kept left both right fails =>
    dsimp only [failure?]
    rw [evalExpr, unlessFolded_kept _ kept]
    refine Eval.failure?_next left ?_
    rw [BinOp.Short] at both
    rw [if_neg both]
    exact Eval.failure?_next right fails
  | callee kept first own missing =>
    dsimp only [failure?]
    rw [evalExpr, unlessFolded_kept _ kept]
    refine Eval.failure?_next first ?_
    rw [applyCall, own, missing]
    exact Eval.failure?_throw.mpr rfl
  | depth kept first own found =>
    dsimp only [failure?]
    rw [evalExpr, unlessFolded_kept _ kept]
    refine Eval.failure?_next first ?_
    rw [applyCall, own, found]
    exact Eval.failure?_throw.mpr rfl
  | assign kept first fails =>
    dsimp only [failure?]
    rw [evalExpr, unlessFolded_kept _ kept]
    exact Eval.failure?_next first (Eval.failure?_first fails)
  | inhabitant kept missing =>
    dsimp only [failure?]
    rw [evalExpr, unlessFolded_kept _ kept, missing]
    exact Eval.failure?_throw.mpr rfl
  | noCase =>
    dsimp only [failure?]
    rw [evalArms]
    exact Eval.failure?_throw.mpr rfl
  | pattern fails =>
    dsimp only [failure?]
    rw [evalArms]
    exact Eval.failure?_first fails

theorem Breaks.fails (breaks : p.Breaks err c) : p.failure? c = some err := by
  obtain ⟨c', inside, raises⟩ := breaks
  induction inside using Relation.ReflTransGen.head_induction_on with
  | refl => exact raises.fails
  | head enters _ ih => exact enters.fails ih

/-! ### Failures come from inside -/

section
variable (bodies : ∀ d vs s, (p.call n d vs).failure? s = some err →
  (n = 0 ∧ err = .callDepthExceeded p.options.maxCallDepth) ∨ ∃ k, n = k + 1 ∧
    p.Breaks err ⟨k, .expr d.body, { s with frames := p.frameOf d vs :: s.frames }⟩)
include bodies

theorem applyCall_breaks {m : Mark} {f : Ident Mark} {args : List (Expr Mark)} {vs : List Literal}
    {s s' : Machine} (kept : p.folds.find? m.id = none)
    (first : p.evalExprs (p.call n) args s = (.ok vs, s'))
    (fails : (p.applyCall (p.call n) m f vs).failure? s' = some err) :
    p.Breaks err ⟨n, .expr (.call m f args), s⟩ := by
  unfold applyCall at fails
  split at fails
  · rcases Eval.failure?_bind.mp fails with prints | ⟨_, _, _, returns⟩
    · cases prints
    · cases returns
  · next own =>
    have own := (Bool.not_eq_true _).mp own
    split at fails
    · next sig found =>
      rcases bodies sig.decl vs s' fails with ⟨rfl, rfl⟩ | ⟨k, rfl, breaks⟩
      · exact (Raises.depth kept first own found).breaks
      · exact breaks.enter (.body kept first own found)
    · next missing =>
      obtain rfl := Eval.failure?_throw.mp fails
      exact (Raises.callee kept first own missing).breaks

set_option linter.unusedSectionVars false

mutual
theorem evalExpr_breaks : ∀ (e : Expr Mark) (s : Machine),
    (p.evalExpr (p.call n) e).failure? s = some err → p.Breaks err ⟨n, .expr e, s⟩
  | .lit l, s, fails => by
    rw [evalExpr] at fails
    cases (p.unlessFolded_failure fails).2
  | .name x, s, fails => by
    rw [evalExpr] at fails
    obtain ⟨kept, fails⟩ := p.unlessFolded_failure fails
    exact (Raises.read kept fails).breaks
  | .paren m e, s, fails => by
    rw [evalExpr] at fails
    obtain ⟨kept, fails⟩ := p.unlessFolded_failure fails
    exact (evalExpr_breaks e s fails).enter (.paren kept)
  | .unary m op e, s, fails => by
    rw [evalExpr] at fails
    obtain ⟨kept, fails⟩ := p.unlessFolded_failure fails
    rcases Eval.failure?_bind.mp fails with operand | ⟨v, s', operand, applied⟩
    · exact (evalExpr_breaks e s operand).enter (.unary kept)
    · exact (Raises.unary kept operand applied).breaks
  | .bin m op a b, s, fails => by
    rw [evalExpr] at fails
    obtain ⟨kept, fails⟩ := p.unlessFolded_failure fails
    rcases Eval.failure?_bind.mp fails with left | ⟨v, s', left, fails⟩
    · exact (evalExpr_breaks a s left).enter (.left kept)
    · split at fails
      · cases fails
      · next both =>
        rcases Eval.failure?_bind.mp fails with right | ⟨w, s'', right, applied⟩
        · exact (evalExpr_breaks b s' right).enter (.right kept left both)
        · exact (Raises.bin kept left both right applied).breaks
  | .call m f args, s, fails => by
    rw [evalExpr] at fails
    obtain ⟨kept, fails⟩ := p.unlessFolded_failure fails
    rcases Eval.failure?_bind.mp fails with first | ⟨vs, s', first, called⟩
    · exact (evalExprs_breaks args s first).enter (.args kept)
    · exact applyCall_breaks bodies kept first called
  | .block m ss tail, s, fails => by
    rw [evalExpr] at fails
    obtain ⟨kept, fails⟩ := p.unlessFolded_failure fails
    rcases Eval.failure?_bind.mp fails with first | ⟨_, s', first, last⟩
    · exact (evalStmts_breaks ss s first).enter (.block kept)
    · exact (evalTail_breaks tail s' last).enter (.tail kept first)
  | .assign m x e, s, fails => by
    rw [evalExpr] at fails
    obtain ⟨kept, fails⟩ := p.unlessFolded_failure fails
    rcases Eval.failure?_bind.mp fails with first | ⟨v, s', first, stored⟩
    · exact (evalExpr_breaks e s first).enter (.assign kept)
    · rcases Eval.failure?_bind.mp stored with written | ⟨_, _, _, returns⟩
      · exact (Raises.assign kept first written).breaks
      · cases returns
  | .cases m e arms, s, fails => by
    rw [evalExpr] at fails
    obtain ⟨kept, fails⟩ := p.unlessFolded_failure fails
    rcases Eval.failure?_bind.mp fails with first | ⟨v, s', first, rest⟩
    · exact (evalExpr_breaks e s first).enter (.scrutinee kept)
    · exact (evalArms_breaks v arms s' rest).enter (.arms kept first)
  | .inhabitant m node, s, fails => by
    rw [evalExpr] at fails
    obtain ⟨kept, fails⟩ := p.unlessFolded_failure fails
    split at fails
    · cases fails
    · next missing =>
      obtain rfl := Eval.failure?_throw.mp fails
      exact (Raises.inhabitant kept missing).breaks
  | .host m desc, s, fails => by
    rw [evalExpr] at fails
    cases (p.unlessFolded_failure fails).2

theorem evalExprs_breaks : ∀ (es : List (Expr Mark)) (s : Machine),
    (p.evalExprs (p.call n) es).failure? s = some err → p.Breaks err ⟨n, .exprs es, s⟩
  | [], s, fails => by
    rw [evalExprs] at fails
    cases fails
  | e :: es, s, fails => by
    rw [evalExprs] at fails
    rcases Eval.failure?_bind.mp fails with first | ⟨v, s', first, rest⟩
    · exact (evalExpr_breaks e s first).enter .arg
    · rcases Eval.failure?_bind.mp rest with later | ⟨_, _, _, returns⟩
      · exact (evalExprs_breaks es s' later).enter (.nextArgs first)
      · cases returns

theorem evalTail_breaks : ∀ (tail : Option (Expr Mark)) (s : Machine),
    (p.evalTail (p.call n) tail).failure? s = some err → p.Breaks err ⟨n, .tail tail, s⟩
  | none, s, fails => by
    rw [evalTail] at fails
    cases fails
  | some e, s, fails => by
    rw [evalTail] at fails
    exact (evalExpr_breaks e s fails).enter .last

theorem evalArms_breaks : ∀ (v : Literal) (arms : List (Arm Mark)) (s : Machine),
    (p.evalArms (p.call n) v arms).failure? s = some err → p.Breaks err ⟨n, .arms v arms, s⟩
  | v, [], s, fails => by
    rw [evalArms] at fails
    obtain rfl := Eval.failure?_throw.mp fails
    exact Raises.noCase.breaks
  | v, ⟨m, a, e⟩ :: arms, s, fails => by
    rw [evalArms] at fails
    rcases Eval.failure?_bind.mp fails with first | ⟨hit, s', first, rest⟩
    · exact (Raises.pattern first).breaks
    · cases hit with
      | true => exact (evalExpr_breaks e s' rest).enter (.arm first)
      | false => exact (evalArms_breaks v arms s' rest).enter (.nextArms first)

theorem evalStmt_breaks : ∀ (t : Stmt Mark) (s : Machine),
    (p.evalStmt (p.call n) t).failure? s = some err → p.Breaks err ⟨n, .stmt t, s⟩
  | .val ⟨m, kind, x, ty, e⟩, s, fails => by
    rw [evalStmt] at fails
    rcases Eval.failure?_bind.mp fails with first | ⟨v, s', _, declared⟩
    · exact (evalExpr_breaks e s first).enter .init
    · split at declared <;> cases declared
  | .expr m e, s, fails => by
    rw [evalStmt] at fails
    rcases Eval.failure?_bind.mp fails with first | ⟨v, s', _, returns⟩
    · exact (evalExpr_breaks e s first).enter .effect
    · cases returns
  | .typeAlias d, s, fails => by
    rw [evalStmt] at fails
    cases fails
  | .fn d, s, fails => by
    rw [evalStmt] at fails
    cases fails

theorem evalStmts_breaks : ∀ (ss : List (Stmt Mark)) (s : Machine),
    (p.evalStmts (p.call n) ss).failure? s = some err → p.Breaks err ⟨n, .stmts ss, s⟩
  | [], s, fails => by
    rw [evalStmts] at fails
    cases fails
  | t :: ss, s, fails => by
    rw [evalStmts] at fails
    rcases Eval.failure?_bind.mp fails with first | ⟨_, s', first, rest⟩
    · exact (evalStmt_breaks t s first).enter .stmt
    · exact (evalStmts_breaks ss s' rest).enter (.nextStmts first)
end

end

theorem call_breaks (n : Nat) (d : FnDecl Mark) (vs : List Literal) (s : Machine)
    (fails : (p.call n d vs).failure? s = some err) :
    (n = 0 ∧ err = .callDepthExceeded p.options.maxCallDepth) ∨ ∃ k, n = k + 1 ∧
      p.Breaks err ⟨k, .expr d.body, { s with frames := p.frameOf d vs :: s.frames }⟩ := by
  induction n generalizing d vs s with
  | zero => exact .inl ⟨rfl, Eval.failure?_throw.mp fails⟩
  | succ n ih =>
    rw [call, Eval.failure?_inFrame] at fails
    exact .inr ⟨n, rfl, evalExpr_breaks (fun d vs s => ih d vs s) d.body _ fails⟩

/-- An evaluation fails exactly if something inside it does. -/
theorem failure?_iff : p.failure? c = some err ↔ p.Breaks err c := by
  refine ⟨fun fails => ?_, Breaks.fails⟩
  obtain ⟨n, task, s⟩ := c
  cases task with
  | expr e => exact evalExpr_breaks (call_breaks n) e s fails
  | exprs es => exact evalExprs_breaks (call_breaks n) es s fails
  | tail tail => exact evalTail_breaks (call_breaks n) tail s fails
  | arms v arms => exact evalArms_breaks (call_breaks n) v arms s fails
  | stmt t => exact evalStmt_breaks (call_breaks n) t s fails
  | stmts ss => exact evalStmts_breaks (call_breaks n) ss s fails

theorem outcome_error (p : Plan) : p.outcome.error = p.run.failure? p.begin.machine := by
  have run : p.run.run ⟨[.empty], [], p.checker.names⟩ = p.run p.begin.machine := rfl
  rw [Plan.outcome, run, Eval.failure?]
  rcases p.run p.begin.machine with ⟨_ | _, s⟩ <;> rfl

/-- A run fails exactly if something inside it does. -/
theorem outcome_error_iff (p : Plan) : p.outcome.error = some err ↔ p.Breaks err p.begin := by
  rw [p.outcome_error]
  exact failure?_iff (c := p.begin)

end Plan

end Solo

import Solo.Proofs.Completion
import Solo.Proofs.Steps
import Solo.Session

/-!
# Sessions

A unit is asked for numbers of texts, literals and singletons, for answers to questions, and for a
run, in any order. Whatever it is asked, its checker stays coherent, what is entered stays, and
every type that is answered is entered.
-/

namespace Solo

/-! ### Purity and folding -/

/-- An action with a state of its own keeps a checker coherent. -/
def Context.Sustains (cx : Context) {σ α : Type} (a : StateT σ Check α) : Prop :=
  ∀ s c, cx.Coherent c → cx.Upholds c (a.run s) fun _ _ => True

/-- An action before one with a state of its own. -/
theorem Context.Upholds.lifted {cx : Context} {c : Checker} {σ α β : Type} {a : Check α}
    {f : α → StateT σ Check β} {s : σ} {Q : α → Checker → Prop} {R : β × σ → Checker → Prop}
    (first : cx.Upholds c a Q)
    (rest : ∀ x c₁, cx.Coherent c₁ → cx.Onward c c₁ → Q x c₁ → cx.Upholds c₁ ((f x).run s) R) :
    cx.Upholds c ((liftM a >>= f).run s) R := by
  have kept : cx.Upholds c (a >>= fun x => Pure.pure (x, s)) fun y c' => Q y.1 c' ∧ y.2 = s :=
    first.bind fun x c₁ coherent₁ _ holds => .pure coherent₁ ⟨holds, rfl⟩
  refine kept.bind (f := fun y => (f y.1).run y.2)
    fun ⟨x, s'⟩ c₁ coherent₁ onward ⟨holds, same⟩ => ?_
  cases same
  exact rest x c₁ coherent₁ onward holds

namespace Context.Sustains

variable {cx : Context} {σ α β : Type} {a : StateT σ Check α} {f : α → StateT σ Check β}

theorem pure (x : α) : cx.Sustains (Pure.pure x : StateT σ Check α) :=
  fun _ _ coherent => .pure coherent trivial

theorem bind (first : cx.Sustains a) (rest : ∀ x, cx.Sustains (f x)) : cx.Sustains (a >>= f) :=
  fun s c coherent => (first s c coherent).bind fun x c₁ coherent₁ _ _ => rest x.1 x.2 c₁ coherent₁

/-- An action that does not touch the state of its own. -/
theorem lift {a : Check α} (upholds : ∀ c, cx.Coherent c → cx.Upholds c a fun _ _ => True) :
    cx.Sustains (liftM a : StateT σ Check α) :=
  fun s c coherent => (upholds c coherent).bind (f := fun x => Pure.pure (x, s))
    fun _ _ coherent₁ _ _ => .pure coherent₁ trivial

theorem look {f : Checker → StateT σ Check α}
    (rest : ∀ s c, cx.Coherent c → cx.Upholds c ((f c).run s) fun _ _ => True) :
    cx.Sustains (getThe Checker >>= f) := rest

/-- An action that does not touch the checker. -/
theorem still {a : StateT σ Check α} (same : ∀ s c, ∃ y, a.run s c = .ok (y, c)) :
    cx.Sustains a := by
  intro s c coherent y c' run
  obtain ⟨y', run'⟩ := same s c
  cases run.symm.trans run'
  exact ⟨coherent, .refl coherent.orderly, trivial⟩

theorem allM {g : α → StateT σ Check Bool} (each : ∀ x, cx.Sustains (g x)) :
    ∀ xs : List α, cx.Sustains (xs.allM g)
  | [] => pure true
  | x :: xs => by
    refine (each x).bind fun good => ?_
    cases good with
    | true => exact allM each xs
    | false => exact pure false

theorem andThen {a b : Judge Bool} (first : cx.Sustains a) (second : cx.Sustains b) :
    cx.Sustains (Judge.andThen a b) := by
  refine first.bind fun good => ?_
  cases good with
  | true => exact second
  | false => exact .pure false

end Context.Sustains

namespace Keeper

open Context (Sustains)
open Context.Upholds (get ite)

variable {cx : Context} {o : Oracle} {c : Checker} (keeper : Keeper cx o) (ground : cx.Grounded)
  (spelled : cx.Spelled)

theorem readIsPure (owner : Option (FnDecl Mark)) (x : SymbolId) (place : Span) :
    cx.Sustains ((cx.asking o).readIsPure owner x place) := by
  rw [Resolver.readIsPure]
  split
  · dsimp only
    split
    · exact .pure _
    · refine .bind (.still fun _ _ => ⟨_, rfl⟩) fun reads => ?_
      cases reads with
      | none => exact .pure false
      | some reads =>
        dsimp only
        split
        · exact .bind (.still fun _ _ => ⟨_, rfl⟩) fun _ => .pure true
        · exact .pure true
  · exact .pure false

omit cx o in
theorem outerReads {cx : Context} (d : FnDecl Mark) (coherent : cx.Coherent c) :
    cx.Upholds c (Check.outerReads d) fun _ _ => True := by
  refine get ?_
  split <;> exact .pure coherent trivial

set_option linter.unusedSectionVars false

include keeper ground spelled

theorem isNonZeroConstant (e : Expr Mark) (coherent : cx.Coherent c) :
    cx.Upholds c ((cx.asking o).isNonZeroConstant e) fun _ _ => True :=
  ((keeper.constants ground spelled _).2 e coherent).bind fun _ _ coherent₁ _ _ =>
    .pure coherent₁ trivial

section
variable {judge : FnDecl Mark → Check Bool} (owner : Option (FnDecl Mark))
  (judges : ∀ d c, cx.Coherent c → cx.Upholds c (judge d) fun _ _ => True)
include judges

mutual
theorem exprIsPure : ∀ e : Expr Mark, cx.Sustains ((cx.asking o).exprIsPure judge owner e)
  | .lit _ | .inhabitant _ _ => .pure true
  | .name x => by
    rw [Resolver.exprIsPure]
    cases (cx.asking o).symbolAt? x.mark.id with
    | none => exact .pure false
    | some s => exact readIsPure owner s x.mark.span
  | .paren _ e | .unary _ _ e => exprIsPure e
  | .bin _ op a b => by
    refine .andThen (exprIsPure a) (.andThen (exprIsPure b) ?_)
    cases op.divides with
    | true => exact .lift fun c coherent => keeper.isNonZeroConstant ground spelled b coherent
    | false => exact .pure true
  | .block _ ss tail => .andThen (stmtsArePure ss) (tailIsPure tail)
  | .cases _ e arms => by
    rw [Resolver.exprIsPure]
    split
    · exact .andThen (exprIsPure e) (armsArePure arms)
    · exact .pure false
  | .call m _ args => by
    rw [Resolver.exprIsPure]
    refine .bind (.lift fun c coherent => .pure coherent trivial) fun c => ?_
    cases c.signatures.find? m.id with
    | none => exact .pure false
    | some sig =>
      refine .andThen (exprsArePure args) (.bind (.lift (judges sig.decl)) fun good => ?_)
      cases good with
      | false => exact .pure false
      | true =>
        exact .bind (.lift fun c coherent => outerReads sig.decl coherent) fun reads =>
          .allM (fun x => readIsPure owner x m.span) reads
  | .assign _ _ _ | .host _ _ => .pure false
termination_by structural e => e

theorem exprsArePure :
    ∀ es : List (Expr Mark), cx.Sustains ((cx.asking o).exprsArePure judge owner es)
  | [] => .pure true
  | e :: es => .andThen (exprIsPure e) (exprsArePure es)
termination_by structural es => es

theorem tailIsPure :
    ∀ tail : Option (Expr Mark), cx.Sustains ((cx.asking o).tailIsPure judge owner tail)
  | none => .pure true
  | some e => exprIsPure e
termination_by structural tail => tail

theorem armsArePure :
    ∀ arms : List (Arm Mark), cx.Sustains ((cx.asking o).armsArePure judge owner arms)
  | [] => .pure true
  | ⟨_, _, e⟩ :: arms => .andThen (exprIsPure e) (armsArePure arms)
termination_by structural arms => arms

theorem stmtIsPure : ∀ s : Stmt Mark, cx.Sustains ((cx.asking o).stmtIsPure judge owner s)
  | .val ⟨_, _, _, _, e⟩ | .expr _ e => exprIsPure e
  | .typeAlias _ | .fn _ => .pure true
termination_by structural s => s

theorem stmtsArePure :
    ∀ ss : List (Stmt Mark), cx.Sustains ((cx.asking o).stmtsArePure judge owner ss)
  | [] => .pure true
  | s :: ss => .andThen (stmtIsPure s) (stmtsArePure ss)
termination_by structural ss => ss
end

end

/-- A judgement of a function is put aside twice: as begun and as done. -/
theorem fnIsPureWithin (n : Nat) (d : FnDecl Mark) (coherent : cx.Coherent c) :
    cx.Upholds c ((cx.asking o).fnIsPureWithin n d) fun _ _ => True := by
  induction n generalizing d c with
  | zero => exact .throw _
  | succ n ih =>
    refine get ?_
    split
    · exact .pure coherent trivial
    · exact .pure coherent trivial
    · refine (Context.Upholds.aside ground coherent rfl).bind fun _ c₁ coherent₁ _ _ => ?_
      refine (keeper.exprIsPure ground spelled (some d) (fun d c coherent => ih d coherent) d.body
        (some []) c₁ coherent₁).bind fun judged c₂ coherent₂ _ _ => ?_
      exact (Context.Upholds.aside ground coherent₂ rfl).bind fun _ _ coherent₃ _ _ =>
        .pure coherent₃ trivial

theorem fnIsPure (d : FnDecl Mark) (coherent : cx.Coherent c) :
    cx.Upholds c ((cx.asking o).fnIsPure d) fun _ _ => True :=
  keeper.fnIsPureWithin ground spelled _ d coherent

theorem isPureWithin (owner : Option (FnDecl Mark)) (e : Expr Mark) (coherent : cx.Coherent c) :
    cx.Upholds c ((cx.asking o).isPureWithin owner e) fun _ _ => True :=
  (keeper.exprIsPure ground spelled owner
    (fun d _ coherent => keeper.fnIsPure ground spelled d coherent) e none c coherent).bind
    fun _ _ coherent₁ _ _ => .pure coherent₁ trivial

theorem callValue (owner : Option (FnDecl Mark)) (call : Expr Mark) (args : List (Expr Mark))
    {sig : Signature} (coherent : cx.Coherent c) (own : sig.result.Filed c) :
    cx.Upholds c ((cx.asking o).callValue owner call args sig) fun _ _ => True := by
  refine ite (fun _ => .pure coherent trivial) fun _ => ?_
  refine (keeper.inhabitant ground spelled coherent own).bind fun found c₁ coherent₁ _ _ => ?_
  cases found with
  | error _ => exact .pure coherent₁ trivial
  | ok w =>
    refine (Context.Upholds.allM coherent₁ fun e _ coherent =>
      keeper.isPureWithin ground spelled owner e coherent).bind fun _ c₂ coherent₂ _ _ => ?_
    refine ite (fun _ => .pure coherent₂ trivial) fun _ => ?_
    refine (keeper.fnIsPure ground spelled sig.decl coherent₂).bind fun _ c₃ coherent₃ _ _ => ?_
    refine ite (fun _ => .pure coherent₃ trivial) fun _ => ?_
    refine (keeper.isPureWithin ground spelled owner call coherent₃).bind
      fun _ c₄ coherent₄ _ _ => ?_
    exact ite (fun _ => .pure coherent₄ trivial) fun _ => .pure coherent₄ trivial

theorem foldCall (owner : Option (FnDecl Mark)) (m : Mark) (f : Ident Mark)
    (args : List (Expr Mark)) : cx.Sustains ((cx.asking o).foldCall owner m f args) := by
  refine .look fun folding c coherent => ?_
  cases found : c.signatures.find? m.id with
  | none => exact .pure coherent trivial
  | some sig =>
    dsimp only
    split
    · exact .pure coherent trivial
    · refine (keeper.callValue ground spelled owner (.call m f args) args coherent
        (coherent.filed.signatures _ sig found).result).lifted fun value c₁ coherent₁ _ _ => ?_
      cases value <;> exact .pure coherent₁ trivial

mutual
theorem foldExpr (owner : Option (FnDecl Mark)) :
    ∀ e : Expr Mark, cx.Sustains ((cx.asking o).foldExpr owner e)
  | .lit _ | .name _ | .host _ _ => .pure ()
  | .paren _ e | .unary _ _ e | .assign _ _ e => foldExpr owner e
  | .bin _ _ a b => .bind (foldExpr owner a) fun _ => foldExpr owner b
  | .block _ ss tail => .bind (foldStmts owner ss) fun _ => foldTail owner tail
  | .cases _ e arms => .bind (foldExpr owner e) fun _ => foldArms owner arms
  | .inhabitant m _ => by
    refine .look fun folding c coherent => ?_
    cases c.witnesses.find? m.id <;> exact .pure coherent trivial
  | .call m f args => by
    refine .bind (keeper.foldCall ground spelled owner m f args) fun folded => ?_
    cases folded with
    | true => exact .pure ()
    | false => exact foldExprs owner args
termination_by structural e => e

theorem foldExprs (owner : Option (FnDecl Mark)) :
    ∀ es : List (Expr Mark), cx.Sustains ((cx.asking o).foldExprs owner es)
  | [] => .pure ()
  | e :: es => .bind (foldExpr owner e) fun _ => foldExprs owner es
termination_by structural es => es

theorem foldTail (owner : Option (FnDecl Mark)) :
    ∀ tail : Option (Expr Mark), cx.Sustains ((cx.asking o).foldTail owner tail)
  | none => .pure ()
  | some e => foldExpr owner e
termination_by structural tail => tail

theorem foldArms (owner : Option (FnDecl Mark)) :
    ∀ arms : List (Arm Mark), cx.Sustains ((cx.asking o).foldArms owner arms)
  | [] => .pure ()
  | ⟨_, _, e⟩ :: arms => .bind (foldExpr owner e) fun _ => foldArms owner arms
termination_by structural arms => arms

theorem foldStmt (owner : Option (FnDecl Mark)) :
    ∀ s : Stmt Mark, cx.Sustains ((cx.asking o).foldStmt owner s)
  | .val ⟨_, _, _, _, e⟩ | .expr _ e => foldExpr owner e
  | .fn ⟨m, name, params, result, e⟩ => foldExpr (some ⟨m, name, params, result, e⟩) e
  | .typeAlias _ => .pure ()
termination_by structural s => s

theorem foldStmts (owner : Option (FnDecl Mark)) :
    ∀ ss : List (Stmt Mark), cx.Sustains ((cx.asking o).foldStmts owner ss)
  | [] => .pure ()
  | s :: ss => .bind (foldStmt owner s) fun _ => foldStmts owner ss
termination_by structural ss => ss
end

end Keeper

theorem Context.fold_upholds {cx : Context} {c : Checker} (ground : cx.Grounded)
    (spelled : cx.Spelled) (coherent : cx.Coherent c) :
    cx.Upholds c cx.fold fun _ _ => True := by
  rw [fold, resolver_eq]
  exact ((cx.keeper ground spelled).foldStmts ground spelled none cx.program.stmts {} c
    coherent).bind fun _ _ coherent₁ _ _ => .pure coherent₁ trivial

/-! ### Runs -/

namespace Plan

variable {p : Plan}

theorem apply_names (symbol : String) (result : Except OpError Literal) (s : Machine) :
    s.names.Extends (Eval.apply symbol result s).2.names := by
  cases result with
  | error e => cases e <;> exact .refl _
  | ok v =>
    cases v with
    | str text => exact Roster.extends_insert _ _
    | _ => exact .refl _

theorem write_names (x : Ident Mark) (v : Literal) (s : Machine) :
    (p.write x v s).2.names = s.names := by
  cases target : p.symbolAt? x.mark.id with
  | none =>
    unfold write
    rw [target]
    rfl
  | some y =>
    rw [p.write_apply target v s]
    cases writeFrames y v s.frames <;> rfl

/-- Only the result of an operator is entered. -/
theorem stepValue_names (waits : List Wait) (s : Machine) (v : Literal) (w : Wait) :
    s.names.Extends (p.stepValue waits s v w).machine.names := by
  have same : ∀ {m : Moment}, m.machine.names = s.names → s.names.Extends m.machine.names :=
    fun same => same ▸ .refl _
  cases w with
  | unary op => exact apply_names _ _ s
  | right op u => exact apply_names _ _ s
  | left op b =>
    rw [stepValue]
    split <;> exact .refl _
  | init m ss tail =>
    rw [stepValue]
    split
    · refine same ?_
      obtain ⟨frames, printed, names⟩ := s
      cases frames <;> rfl
    · exact .refl _
  | assign y =>
    refine same ?_
    have written := p.write_names y v s
    rw [stepValue, Eval.over, Eval.bind_apply]
    cases run : p.write y v s with
    | mk result s' =>
      rw [run] at written
      cases result <;> exact written
  | _ => exact .refl _

theorem step_names {m m' : Moment} (step : p.step m = some m') :
    m.machine.names.Extends m'.machine.names := by
  unfold Plan.step at step
  split at step
  · cases step
  · cases step
    exact stepValue_names _ _ _ _
  · next e w waits s =>
    cases step
    cases w <;> exact .refl _
  · next e waits s =>
    split at step
    · cases step
      exact .refl _
    · cases step
      cases e with
      | name x =>
        have same : (p.read x s).2 = s := p.read_state x s
        rw [stepExpr, Eval.over, same]
        exact .refl _
      | inhabitant m t =>
        rw [stepExpr]
        split <;> exact .refl _
      | _ => exact .refl _
  · cases step
    unfold stepCall
    split
    · exact .refl _
    · split
      · exact .refl _
      · split <;> exact .refl _
  · cases step
    exact .refl _
  · next v arms waits s =>
    cases step
    unfold stepArms
    split
    · exact .refl _
    · split <;> exact .refl _
  · next ss tail waits s =>
    cases step
    unfold stepStmts
    split
    · split <;> exact .refl _
    all_goals exact .refl _

/-- A run only adds to the roster of names. -/
theorem outcome_names (p : Plan) : p.checker.names.Extends p.outcome.names := by
  have grown : ∀ m, p.Steps p.start m → p.checker.names.Extends m.machine.names := by
    intro m steps
    induction steps with
    | refl => exact .refl _
    | tail _ step ih => exact ih.trans (step_names step)
  rw [p.outcome_eq]
  exact grown _ p.start_walks.steps

end Plan

/-! ### Questions -/

namespace Context

/-- A coherent checker in a session whose answers are entered. -/
structure Hosts (cx : Context) (ts : Array Ty) (c : Checker) : Prop where
  coherent : cx.Coherent c
  kept : ∀ t ∈ ts, t.Filed c

/-- A later state, in which entries and promises are kept. -/
structure Later (cx : Context) (c c' : Checker) : Prop extends c.Extends c' where
  follows : cx.Follows c c'

/-- A part of a session that keeps entries and promises; its result satisfies `Q`. -/
def Conducts (cx : Context) {α : Type} (ts : Array Ty) (c : Checker) (a : Session α)
    (Q : α → Checker → Prop) : Prop :=
  ∀ x ts' c', a.run ts c = .ok ((x, ts'), c') → cx.Hosts ts' c' ∧ cx.Later c c' ∧ Q x c'

variable {cx : Context} {α β : Type} {ts : Array Ty} {c c₁ c₂ : Checker} {t : Ty}

theorem Later.trans (first : cx.Later c c₁) (second : cx.Later c₁ c₂) : cx.Later c c₂ :=
  ⟨first.toExtends.trans second.toExtends, first.follows.trans second.follows⟩

theorem Onward.later (onward : cx.Onward c c₁) : cx.Later c c₁ :=
  ⟨onward.toExtends, onward.follows⟩

namespace Hosts

theorem start (cx : Context) : cx.Hosts #[] (.start cx.names) := ⟨.start cx, by simp⟩

theorem later (hosts : cx.Hosts ts c) (coherent : cx.Coherent c₁) (later : cx.Later c c₁) :
    cx.Hosts ts c₁ :=
  ⟨coherent, fun t member => (hosts.kept t member).mono later.toExtends⟩

theorem refl (hosts : cx.Hosts ts c) : cx.Later c c := ⟨.refl c, .refl hosts.coherent.orderly⟩

theorem push (hosts : cx.Hosts ts c) (own : t.Filed c) : cx.Hosts (ts.push t) c := by
  refine ⟨hosts.coherent, fun u member => ?_⟩
  rcases Array.mem_push.mp member with old | rfl
  · exact hosts.kept u old
  · exact own

/-- Where there is no earlier type, the error type stands in for it. -/
theorem earlier (hosts : cx.Hosts ts c) (i : Nat) : (ts.getD i .error).Filed c := by
  by_cases inside : i < ts.size
  · rw [Array.getD_eq_getD_getElem?, Array.getElem?_eq_getElem inside]
    exact hosts.kept _ (Array.getElem_mem inside)
  · rw [Array.getD_eq_getD_getElem?, Array.getElem?_eq_none (Nat.not_lt.mp inside)]
    exact hosts.coherent.filed.kinds _

/-- The singleton of a binding is entered and kept. -/
theorem path (ground : cx.Grounded) (hosts : cx.Hosts ts c) (x : SymbolId) :
    cx.Hosts (ts.push (.path x)) { c with interns := (c.interns.pathType x).2 } ∧
      cx.Later c { c with interns := (c.interns.pathType x).2 } := by
  have frame : cx.Frame c { c with interns := (c.interns.pathType x).2 } :=
    ⟨rfl, rfl, rfl, fun _ _ => rfl⟩
  have later : cx.Later c { c with interns := (c.interns.pathType x).2 } :=
    ⟨⟨.refl _, c.interns.pathType_extends x⟩, frame.follows ground hosts.coherent.orderly⟩
  have entered := hosts.coherent.entered ground (.refl _) (hosts.coherent.filed.pathType x)
  have own : (Ty.path x).Filed { c with interns := (c.interns.pathType x).2 } :=
    Ty.filed_iff.mpr ⟨_, hosts.coherent.filed.interns.pathType_entry x⟩
  exact ⟨(hosts.later entered later).push own, later⟩

end Hosts

namespace Conducts

variable {P : α → Checker → Prop} {Q : β → Checker → Prop}

theorem pure {x : α} (hosts : cx.Hosts ts c) (holds : P x c) :
    cx.Conducts ts c (Pure.pure x) P := by
  intro y ts' c' run
  cases run
  exact ⟨hosts, hosts.refl, holds⟩

theorem bind {a : Session α} {f : α → Session β} (first : cx.Conducts ts c a P)
    (rest : ∀ x ts₁ c₁, cx.Hosts ts₁ c₁ → P x c₁ → cx.Conducts ts₁ c₁ (f x) Q) :
    cx.Conducts ts c (a >>= f) Q := by
  intro y ts' c' run
  obtain ⟨⟨x, ts₁⟩, c₁, run₁, run₂⟩ :=
    Check.bind_ok (a := a.run ts) (f := fun x => (f x.1).run x.2) run
  obtain ⟨hosts₁, later, own⟩ := first x ts₁ c₁ run₁
  obtain ⟨hosts₂, later', holds⟩ := rest x ts₁ c₁ hosts₁ own y ts' c' run₂
  exact ⟨hosts₂, later.trans later', holds⟩

theorem weaken {a : Session α} {P' : α → Checker → Prop} (conducts : cx.Conducts ts c a P)
    (gives : ∀ x c', cx.Later c c' → P x c' → P' x c') : cx.Conducts ts c a P' := by
  intro x ts' c' run
  obtain ⟨hosts, later, holds⟩ := conducts x ts' c' run
  exact ⟨hosts, later, gives x c' later holds⟩

theorem ask {a : Check α} {f : α → Session β} (hosts : cx.Hosts ts c)
    (upholds : cx.Upholds c a P)
    (rest : ∀ x c₁, cx.Hosts ts c₁ → P x c₁ → cx.Conducts ts c₁ (f x) Q) :
    cx.Conducts ts c (liftM a >>= f) Q := by
  intro y ts' c' run
  obtain ⟨⟨x, ts₁⟩, c₁, lifted, run⟩ := Check.bind_ok (a := (liftM a : Session α).run ts)
    (f := fun x => (f x.1).run x.2) run
  obtain ⟨x', c₂, asked, same⟩ := Check.bind_ok (f := fun x => Pure.pure (x, ts)) lifted
  cases same
  obtain ⟨coherent₁, onward, own⟩ := upholds x c₁ asked
  obtain ⟨hosts', later, holds⟩ := rest x c₁ (hosts.later coherent₁ onward.later) own y ts' c' run
  exact ⟨hosts', onward.later.trans later, holds⟩

/-- A type from an earlier answer is looked up. -/
theorem earlier {f : Ty → Session α} {i : Nat} (rest : cx.Conducts ts c (f (ts.getD i .error)) P) :
    cx.Conducts ts c (Session.earlier i >>= f) P := rest

theorem look {f : Checker → Session α} (rest : cx.Conducts ts c (f c) P) :
    cx.Conducts ts c (getThe Checker >>= f) P := rest

theorem answer (hosts : cx.Hosts ts c) (own : t.Filed c) :
    cx.Conducts ts c (Session.answer t) fun _ _ => True := by
  intro y ts' c' run
  cases run
  exact ⟨hosts.push own, hosts.refl, trivial⟩

theorem answerWithout (hosts : cx.Hosts ts c) (a : Answer) :
    cx.Conducts ts c (Session.answerWithout a) fun _ _ => True := by
  intro y ts' c' run
  cases run
  exact ⟨hosts.push (hosts.coherent.filed.kinds _), hosts.refl, trivial⟩

/-- A question about a node is one about a node of the program. -/
theorem withNode {label : String} {action : Node Mark → Session Answer} (hosts : cx.Hosts ts c)
    (o : Oracle)
    (acts : ∀ n ∈ cx.program.nodes, cx.Conducts ts c (action n) fun _ _ => True) :
    cx.Conducts ts c ((cx.asking o).withNode label action) fun _ _ => True := by
  rw [Resolver.withNode]
  cases found : (cx.asking o).program.labelled? label with
  | none => exact pure hosts trivial
  | some n => exact acts n (List.mem_reverse.mp (List.mem_of_find?_eq_some found))

theorem withExpr {label : String} {action : Expr Mark → Session Answer} (hosts : cx.Hosts ts c)
    (o : Oracle)
    (acts : ∀ e, .expr e ∈ cx.program.nodes → cx.Conducts ts c (action e) fun _ _ => True) :
    cx.Conducts ts c ((cx.asking o).withExpr label action) fun _ _ => True := by
  refine withNode hosts o fun n member => ?_
  cases n with
  | expr e => exact acts e member
  | _ => exact pure hosts trivial

theorem withFn {label : String} {action : FnDecl Mark → Session Answer} (hosts : cx.Hosts ts c)
    (o : Oracle)
    (acts : ∀ d, .stmt (.fn d) ∈ cx.program.nodes → cx.Conducts ts c (action d) fun _ _ => True) :
    cx.Conducts ts c ((cx.asking o).withFn label action) fun _ _ => True := by
  refine withNode hosts o fun n member => ?_
  cases n with
  | stmt s =>
    cases s with
    | fn d => exact acts d member
    | _ => exact pure hosts trivial
  | _ => exact pure hosts trivial

end Conducts

end Context

namespace Keeper

open Context (Conducts)
open Context.Conducts (ask answer withNode withExpr withFn)

variable {cx : Context} {o : Oracle} {ts : Array Ty} {c : Checker} (keeper : Keeper cx o)
  (ground : cx.Grounded) (spelled : cx.Spelled)
include keeper ground spelled

/-- Whatever a checker is asked, it stays coherent, and the types that it answers are entered. -/
theorem respond (hosts : cx.Hosts ts c) (q : Question) :
    cx.Conducts ts c ((cx.asking o).respond q) fun _ _ => True := by
  have coherent := hosts.coherent
  cases q with
  | check =>
    exact ask hosts (keeper.checkStmts ground spelled cx.program.stmts coherent
      (List.subset_append_left _ _)) fun _ _ hosts₁ _ => .pure hosts₁ trivial
  | literal v =>
    refine ask hosts (.enterText ground coherent v) fun _ c₁ hosts₁ own => ?_
    exact ask hosts₁ (.enterType ground hosts₁.coherent own) fun _ _ hosts₂ filed =>
      answer hosts₂ filed
  | intrinsic k => exact answer hosts (coherent.filed.kinds k)
  | path label =>
    refine withNode hosts o fun n _ => ?_
    cases (cx.asking o).symbolAt? n.mark.id with
    | none => exact .answerWithout hosts _
    | some x =>
      cases stable : (cx.asking o).stablePath x with
      | error problem =>
        simp only [stable]
        exact .answerWithout hosts _
      | ok t =>
        cases Context.stablePath_ok stable
        simp only [stable]
        intro y ts' c' run
        cases run
        obtain ⟨hosts', later⟩ := hosts.path ground x
        exact ⟨hosts', later, trivial⟩
  | symbolType label =>
    refine withNode hosts o fun n _ => ?_
    exact ask hosts (keeper.typeOf _ coherent) fun _ _ hosts₁ own => answer hosts₁ own.1
  | typeNode label =>
    refine withNode hosts o fun n member => ?_
    cases n with
    | ty t =>
      exact ask hosts (keeper.typeOfNode ground spelled coherent member) fun _ _ hosts₁ own =>
        answer hosts₁ own
    | _ => exact .pure hosts trivial
  | exprType label expected =>
    refine withExpr hosts o fun e member => ?_
    have inside : e.nodes ⊆ cx.program.nodes := fun _ below => Program.mem_below member below
    cases expected with
    | none =>
      exact ask hosts (keeper.typeOfExpr ground spelled e none coherent inside (by rintro _ ⟨⟩))
        fun _ _ hosts₁ own => answer hosts₁ own
    | some i =>
      refine ask hosts (keeper.typeOfExpr ground spelled e (some (ts.getD i .error)) coherent inside
        fun t same => ?_) fun _ _ hosts₁ own => answer hosts₁ own
      cases same
      exact hosts.earlier i
  | nodeType label =>
    refine withNode hosts o fun n _ => .look ?_
    cases found : c.nodeTypes.find? n.mark.id with
    | none => exact .answerWithout hosts _
    | some t => exact answer hosts (coherent.filed.nodeTypes _ t found)
  | widen i =>
    exact ask hosts (keeper.widen (ts.getD i .error) coherent) fun _ _ hosts₁ own =>
      answer hosts₁ own.1
  | lub i j =>
    exact ask hosts (keeper.lub ground coherent (hosts.earlier i) (hosts.earlier j))
      fun _ _ hosts₁ own => answer hosts₁ own
  | relation i j =>
    refine .earlier (.earlier ?_)
    refine ask hosts (keeper.isSubtype ground _ _ coherent) fun _ _ hosts₁ _ => ?_
    exact ask hosts₁ (keeper.isSubtype ground _ _ hosts₁.coherent) fun _ _ hosts₂ _ =>
      .pure hosts₂ trivial
  | inhabitant i =>
    exact ask hosts (keeper.inhabitant ground spelled coherent (hosts.earlier i))
      fun _ _ hosts₁ _ => .pure hosts₁ trivial
  | inspect i => exact .pure hosts trivial
  | signature label =>
    refine withFn hosts o fun d member => ?_
    exact ask hosts (keeper.meets (.signature d) member c coherent) fun _ _ hosts₁ _ =>
      .pure hosts₁ trivial
  | callee label =>
    refine withNode hosts o fun n _ => .look ?_
    cases c.signatures.find? n.mark.id <;> exact .pure hosts trivial
  | witness label =>
    refine withNode hosts o fun n _ => .look ?_
    cases c.witnesses.find? n.mark.id <;> exact .pure hosts trivial
  | constant label depth =>
    refine withExpr hosts o fun e _ => ?_
    refine ask hosts ((keeper.constants ground spelled _).2 e coherent) fun found _ hosts₁ _ => ?_
    cases found <;> exact .pure hosts₁ trivial
  | exprPurity label owner =>
    cases owner with
    | none =>
      refine withExpr hosts o fun e _ => ?_
      exact ask hosts (keeper.isPureWithin ground spelled none e coherent) fun _ _ hosts₁ _ =>
        .pure hosts₁ trivial
    | some owner =>
      refine withExpr hosts o fun e _ => withFn hosts o fun d _ => ?_
      exact ask hosts (keeper.isPureWithin ground spelled (some d) e coherent)
        fun _ _ hosts₁ _ => .pure hosts₁ trivial
  | fnPurity label =>
    refine withFn hosts o fun d _ => ?_
    exact ask hosts (keeper.fnIsPure ground spelled d coherent) fun _ _ hosts₁ _ =>
      .pure hosts₁ trivial
  | symbol label =>
    refine withNode hosts o fun n _ => ?_
    cases (cx.asking o).symbolAt? n.mark.id <;> exact .pure hosts trivial
  | counts => exact .pure hosts trivial

end Keeper

end Solo

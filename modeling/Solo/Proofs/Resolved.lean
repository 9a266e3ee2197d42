import Solo.Proofs.Failures
import Solo.Proofs.Soundness

/-!
# Resolved runs

A run asks the checker what a name stands for, whom a call goes to, which type a pattern tests and
which value a type has. In a program that was checked without an error it has all these answers
wherever a run gets to, so no run ends for want of one.
-/

namespace Solo

/-- The checker has the answers that an evaluation asks for by itself. -/
def Task.Answered (p : Plan) : Task → Prop
  | .expr (.name x) => ∃ s, p.symbolAt? x.mark.id = some s
  | .expr (.assign _ x _) => ∃ s, p.symbolAt? x.mark.id = some s
  | .expr (.call m f _) =>
    ∃ s, p.symbolAt? f.mark.id = some s ∧
      ((p.symbol s).role = .builtin ∨ ∃ sig, p.checker.signatures.find? m.id = some sig)
  | .expr (.inhabitant m _) => ∃ w, p.checker.witnesses.find? m.id = some w
  | .arms _ (⟨_, .typed m _, _⟩ :: _) => ∃ t, p.checker.nodeTypes.find? m.id = some t
  | _ => True

theorem Task.Answered.raises {p : Plan} {c : Config} {err : EvalError}
    (answered : c.task.Answered p) (raises : p.Raises c err) (span : Span) :
    err ≠ .unresolved span := by
  rintro rfl
  cases raises with
  | read kept fails =>
    obtain ⟨missing, _⟩ | ⟨_, other⟩ := Plan.read_failure fails
    · obtain ⟨s, found⟩ := answered
      cases missing.symm.trans found
    · cases other
  | unary kept operand fails | bin kept left both right fails =>
    obtain ⟨_, other⟩ | ⟨_, other⟩ := Eval.failure?_apply.mp fails <;> cases other
  | callee kept first own missing =>
    obtain ⟨s, target, role | ⟨sig, found⟩⟩ := answered
    · rw [target] at own
      simp [role] at own
    · cases missing.symm.trans found
  | assign kept first fails =>
    obtain ⟨missing, _⟩ | ⟨_, other⟩ := Plan.write_failure fails
    · obtain ⟨s, found⟩ := answered
      cases missing.symm.trans found
    · cases other
  | inhabitant kept missing =>
    obtain ⟨w, found⟩ := answered
    cases missing.symm.trans found
  | pattern fails =>
    obtain ⟨m, node, rfl, missing, _⟩ | ⟨_, other⟩ := Plan.matchesPat_failure fails
    · obtain ⟨t, found⟩ := answered
      cases missing.symm.trans found
    · cases other

/-- The types of a task rest on the answers that its evaluation asks for. -/
theorem Ready.answered {q : Plan} {F : Checker} {P : Table NodeId Purity} {c : Config}
    (ready : Ready q F P) (fine : c.Fine q F) : c.task.Answered q := by
  obtain ⟨n, task, s⟩ := c
  obtain ⟨typed, -⟩ := fine
  cases task with
  | expr e =>
    obtain ⟨_, t, typed⟩ := typed
    cases e with
    | name x =>
      obtain ⟨_, s, _, target, _⟩ := typed
      exact ⟨s, target⟩
    | assign m x e =>
      obtain ⟨_, _, s, _, _, target, _⟩ := typed
      exact ⟨s, target⟩
    | call m f args =>
      obtain ⟨_, s, _, target, _, ⟨role, _⟩ | ⟨_, sig, found, _⟩⟩ := typed
      · exact ⟨s, target, .inl role⟩
      · exact ⟨s, target, .inr ⟨sig, ready.like.signatures ▸ found⟩⟩
    | inhabitant m node =>
      obtain ⟨_, _, w, found, _⟩ := typed
      exact ⟨w, ready.like.witnesses ▸ found⟩
    | _ => trivial
  | arms v arms =>
    obtain ⟨_, t, typed⟩ := typed
    match arms, typed with
    | [], _ => trivial
    | ⟨_, .wildcard _, _⟩ :: _, _ => trivial
    | ⟨_, .lit _ _, _⟩ :: _, _ => trivial
    | ⟨_, .typed m _, _⟩ :: _, ⟨⟨t, found, _⟩, _⟩ => exact ⟨t, ready.like.nodeTypes ▸ found⟩
  | _ => trivial

/-- In every run of a draft that was checked without an error, each evaluation that the run begins
has the checker's answers that it asks for, and neither it nor the run as a whole fails for want of
one. -/
theorem run_resolves (d : Draft) (o : Options) (q : Checked) (plan : Plan) (passes : d.Passes o q)
    (plans : q.Plans plan) :
    (∀ c, plan.Reached c →
      c.task.Answered plan ∧ ∀ span, plan.failure? c ≠ some (.unresolved span)) ∧
    ∀ span, plan.outcome.error ≠ some (.unresolved span) := by
  obtain ⟨_, ready⟩ := plans.ready passes
  have answered : ∀ c, plan.Reached c → c.task.Answered plan := fun c reached =>
    ready.answered (ready.reached reached)
  have inside : ∀ c, plan.Reached c → ∀ span, ¬plan.Breaks (.unresolved span) c := by
    rintro c reached span ⟨c', later, raises⟩
    exact (answered c' (reached.trans later)).raises raises span rfl
  refine ⟨fun c reached => ⟨answered c reached, fun span fails => ?_⟩, fun span fails => ?_⟩
  · exact inside c reached span (Plan.failure?_iff.mp fails)
  · exact inside plan.begin .refl span (plan.outcome_error_iff.mp fails)

/-- A draft whose run gets through a nested function and an arm with a typed pattern to a function,
a binding and a witness that stand further down. -/
def Draft.forward : Draft where
  text := "final val k = 2 def f(n: Int): Int = { def g(m: Int): Int = m match { case _: k.type => 0 case _: Int => h(m) } g(n) } var x: Int = f(k + 1) def h(n: Int): Int = n + inhabitant[j.type] final val j = 4 x = f(x) println(x)"
  stmts :=
    [.val ⟨[], .finalVal, ⟨[], "k"⟩, none, .lit ⟨[], .int 2⟩⟩,
      .fn ⟨[], ⟨[], "f"⟩, [⟨[], ⟨[], "n"⟩, .refer [] ⟨[], "Int"⟩⟩], some (.refer [] ⟨[], "Int"⟩),
        .block []
          [.fn ⟨[], ⟨[], "g"⟩, [⟨[], ⟨[], "m"⟩, .refer [] ⟨[], "Int"⟩⟩],
            some (.refer [] ⟨[], "Int"⟩),
            .cases [] (.name ⟨[], "m"⟩)
              [⟨[], .typed [] (.singleton [] (.name ⟨[], "k"⟩)), .lit ⟨[], .int 0⟩⟩,
                ⟨[], .typed [] (.refer [] ⟨[], "Int"⟩), .call [] ⟨[], "h"⟩ [.name ⟨[], "m"⟩]⟩]⟩]
          (some (.call [] ⟨[], "g"⟩ [.name ⟨[], "n"⟩]))⟩,
      .val ⟨[], .var, ⟨[], "x"⟩, some (.refer [] ⟨[], "Int"⟩),
        .call [] ⟨[], "f"⟩ [.bin [] (.arith .add) (.name ⟨[], "k"⟩) (.lit ⟨[], .int 1⟩)]⟩,
      .fn ⟨[], ⟨[], "h"⟩, [⟨[], ⟨[], "n"⟩, .refer [] ⟨[], "Int"⟩⟩], some (.refer [] ⟨[], "Int"⟩),
        .bin [] (.arith .add) (.name ⟨[], "n"⟩)
          (.inhabitant [] (.singleton [] (.name ⟨[], "j"⟩)))⟩,
      .val ⟨[], .finalVal, ⟨[], "j"⟩, none, .lit ⟨[], .int 4⟩⟩,
      .expr [] (.assign [] ⟨[], "x"⟩ (.call [] ⟨[], "f"⟩ [.name ⟨[], "x"⟩])),
      .expr [] (.call [] ⟨[], "println"⟩ [.name ⟨[], "x"⟩])]

theorem run_resolves_forward : ∃ q plan, Draft.forward.Passes default q ∧ q.Plans plan ∧
    plan.outcome.output = ["11"] ∧
    (∀ c, plan.Reached c →
      c.task.Answered plan ∧ ∀ span, plan.failure? c ≠ some (.unresolved span)) ∧
    ∀ span, plan.outcome.error ≠ some (.unresolved span) := by
  obtain ⟨q, plan, passes, plans, output⟩ := Draft.plan?_any .forward default
    (fun (_, plan) => plan.outcome.output == ["11"]) (by decide +kernel)
  exact ⟨q, plan, passes, plans, eq_of_beq output,
    run_resolves .forward default q plan passes plans⟩

end Solo

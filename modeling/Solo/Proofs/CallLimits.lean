import Solo.Proofs.Failures
import Solo.Proofs.Growth
import Solo.Proofs.Settings

/-!
# Limits on calls

A run with a higher limit on calls inside each other goes as one with a lower limit does, and goes
on where that one went too deep. So the limit is seen at the calls that go too deep and nowhere
else: not in the frames, not in what is folded, and not in what is printed before.
-/

namespace Solo

/-! ### Evaluations that go further -/

/-- An evaluation goes as another one does, and may go further where that one goes too many calls
deep. It takes back nothing that was printed. -/
def Eval.Extends {α : Type} (a b : Eval α) : Prop := ∀ s,
  s.printed <:+ (b s).2.printed ∧
    (b s = a s ∨
      ∃ k, (a s).1 = .error (.callDepthExceeded k) ∧ (a s).2.printed <:+ (b s).2.printed)

namespace Eval.Extends

variable {α β : Type}

theorem same {a : Eval α} (prints : ∀ s, s.printed <:+ (a s).2.printed) : a.Extends a :=
  fun s => ⟨prints s, .inl rfl⟩

theorem silent {a : Eval α} (still : ∀ s, (a s).2.printed = s.printed) : a.Extends a :=
  same fun s => still s ▸ List.suffix_rfl

theorem pure (x : α) : Eval.Extends (Pure.pure x) (Pure.pure x) := silent fun _ => rfl

theorem throw (e : EvalError) : Eval.Extends (MonadExcept.throw e : Eval α) (MonadExcept.throw e) :=
  silent fun _ => rfl

theorem bind {a b : Eval α} {f g : α → Eval β} (first : a.Extends b)
    (rest : ∀ x, (f x).Extends (g x)) : (a >>= f).Extends (b >>= g) := by
  intro s
  -- The second part prints after the first one, if it is reached.
  have prints : (b s).2.printed <:+ ((b >>= g) s).2.printed := by
    rw [Eval.bind_apply]
    split
    · next x s' run =>
      rw [run]
      exact (rest x s').1
    · next e s' run =>
      have same : (b s).2 = s' := congrArg Prod.snd run
      exact same ▸ List.suffix_rfl
  obtain ⟨began, alike | ⟨k, deep, shown⟩⟩ := first s
  · refine ⟨began.trans prints, ?_⟩
    rw [Eval.bind_apply, Eval.bind_apply, alike]
    split
    · next x s' _ => exact (rest x s').2
    · exact .inl rfl
  · have stops : (a >>= f) s = (.error (.callDepthExceeded k), (a s).2) :=
      Eval.bind_error (Prod.ext deep rfl)
    rw [stops]
    exact ⟨began.trans prints, .inr ⟨k, rfl, shown.trans prints⟩⟩

theorem apply (symbol : String) (result : Except OpError Literal) :
    (Eval.apply symbol result).Extends (Eval.apply symbol result) := by
  cases result with
  | error e => cases e <;> exact throw _
  | ok v => cases v <;> exact silent fun _ => rfl

theorem declare (x : SymbolId) (v : Literal) :
    (Eval.declare x v).Extends (Eval.declare x v) := by
  refine silent ?_
  rintro ⟨frames, printed, names⟩
  cases frames <;> rfl

theorem inFrame {a b : Eval Literal} (extends_ : a.Extends b) (frame : Frame) :
    (Eval.inFrame frame a).Extends (Eval.inFrame frame b) := by
  intro s
  obtain ⟨began, alike | ⟨k, deep, shown⟩⟩ := extends_ { s with frames := frame :: s.frames }
  · refine ⟨began, .inl ?_⟩
    unfold Eval.inFrame
    rw [alike]
  · exact ⟨began, .inr ⟨k, deep, shown⟩⟩

end Eval.Extends

namespace Plan

def limited (p : Plan) (limit : Nat) : Plan := { p with options := p.options.limited limit }

variable (p : Plan) (limit : Nat)

theorem write_printed (x : Ident Mark) (v : Literal) (s : Machine) :
    (p.write x v s).2.printed = s.printed := by
  cases target : p.symbolAt? x.mark.id with
  | none =>
    unfold write
    rw [target]
    rfl
  | some y =>
    rw [write_apply target]
    cases writeFrames y v s.frames <;> rfl

theorem unlessFolded_extends {node : NodeId} {find find' : Eval Literal}
    (further : find.Extends find') :
    (p.unlessFolded node find).Extends ((p.limited limit).unlessFolded node find') := by
  have same : (p.limited limit).unlessFolded node find' = p.unlessFolded node find' := rfl
  rw [same]
  unfold unlessFolded
  split
  · exact .pure _
  · exact further

section
variable {body body' : FnDecl Mark → List Literal → Eval Literal}
  (bodies : ∀ d vs, (body d vs).Extends (body' d vs))
include bodies

theorem applyCall_extends (m : Mark) (f : Ident Mark) (vs : List Literal) :
    (p.applyCall body m f vs).Extends ((p.limited limit).applyCall body' m f vs) := by
  have same : (p.limited limit).applyCall body' m f vs = p.applyCall body' m f vs := rfl
  rw [same]
  unfold applyCall
  split
  · exact .bind (.same fun _ => List.suffix_cons _ _) fun _ => .pure _
  · split
    · exact bodies _ _
    · exact .throw _

set_option linter.unusedSectionVars false

mutual
theorem evalExpr_extends : ∀ e : Expr Mark,
    (p.evalExpr body e).Extends ((p.limited limit).evalExpr body' e)
  | .lit _ => p.unlessFolded_extends limit (.pure _)
  | .name x =>
    p.unlessFolded_extends limit (.silent fun s => congrArg Machine.printed (p.read_state x s))
  | .paren _ e => p.unlessFolded_extends limit (evalExpr_extends e)
  | .unary _ _ e =>
    p.unlessFolded_extends limit (.bind (evalExpr_extends e) fun _ => .apply _ _)
  | .bin _ _ a b => by
    refine p.unlessFolded_extends limit (.bind (evalExpr_extends a) fun v => ?_)
    split
    · exact .pure _
    · exact .bind (evalExpr_extends b) fun _ => .apply _ _
  | .call m f args =>
    p.unlessFolded_extends limit
      (.bind (evalExprs_extends args) fun vs => applyCall_extends p limit bodies m f vs)
  | .block _ ss last =>
    p.unlessFolded_extends limit (.bind (evalStmts_extends ss) fun _ => evalTail_extends last)
  | .assign _ x e =>
    p.unlessFolded_extends limit (.bind (evalExpr_extends e) fun v =>
      .bind (.silent (p.write_printed x v)) fun _ => .pure _)
  | .cases _ e arms =>
    p.unlessFolded_extends limit (.bind (evalExpr_extends e) fun v => evalArms_extends v arms)
  | .inhabitant m _ => by
    refine p.unlessFolded_extends limit ?_
    change Eval.Extends (match p.checker.witnesses.find? m.id with | some w => _ | none => _)
      (match p.checker.witnesses.find? m.id with | some w => _ | none => _)
    split
    · exact .pure _
    · exact .throw _
  | .host _ _ => p.unlessFolded_extends limit (.pure _)

theorem evalExprs_extends : ∀ es : List (Expr Mark),
    (p.evalExprs body es).Extends ((p.limited limit).evalExprs body' es)
  | [] => .pure _
  | e :: es => .bind (evalExpr_extends e) fun _ => .bind (evalExprs_extends es) fun _ => .pure _

theorem evalTail_extends : ∀ last : Option (Expr Mark),
    (p.evalTail body last).Extends ((p.limited limit).evalTail body' last)
  | none => .pure _
  | some e => evalExpr_extends e

theorem evalArms_extends (v : Literal) : ∀ arms : List (Arm Mark),
    (p.evalArms body v arms).Extends ((p.limited limit).evalArms body' v arms)
  | [] => .throw _
  | ⟨_, a, e⟩ :: arms => by
    refine .bind (.silent fun s => congrArg Machine.printed (p.matchesPat_state v a s)) fun hit => ?_
    split
    · exact evalExpr_extends e
    · exact evalArms_extends v arms

theorem evalStmt_extends : ∀ t : Stmt Mark,
    (p.evalStmt body t).Extends ((p.limited limit).evalStmt body' t)
  | .val ⟨m, _, _, _, e⟩ => by
    refine .bind (evalExpr_extends e) fun v => ?_
    change Eval.Extends (match p.symbolAt? m.id with | some x => _ | none => _)
      (match p.symbolAt? m.id with | some x => _ | none => _)
    split
    · exact .declare _ _
    · exact .pure _
  | .expr _ e => .bind (evalExpr_extends e) fun _ => .pure _
  | .typeAlias _ => .pure _
  | .fn _ => .pure _

theorem evalStmts_extends : ∀ ss : List (Stmt Mark),
    (p.evalStmts body ss).Extends ((p.limited limit).evalStmts body' ss)
  | [] => .pure _
  | t :: ss => .bind (evalStmt_extends t) fun _ => evalStmts_extends ss
end

end

theorem call_prints (n : Nat) (d : FnDecl Mark) (vs : List Literal) (s : Machine) :
    s.printed <:+ (p.call n d vs s).2.printed := by
  induction n generalizing d vs s with
  | zero => exact List.suffix_rfl
  | succ n ih =>
    have body := p.evalExpr_extends p.options.maxCallDepth (fun d vs => .same (ih d vs)) d.body
    exact (body.inFrame (p.frameOf d vs) s).1

/-- The run of a function's body with more calls left. -/
theorem call_extends {n n' : Nat} (le : n ≤ n') (d : FnDecl Mark) (vs : List Literal) :
    (p.call n d vs).Extends ((p.limited limit).call n' d vs) := by
  induction n generalizing n' d vs with
  | zero =>
    intro s
    have prints := (p.limited limit).call_prints n' d vs s
    exact ⟨prints, .inr ⟨_, rfl, prints⟩⟩
  | succ n ih =>
    obtain ⟨n', rfl⟩ := Nat.exists_eq_succ_of_ne_zero (Nat.ne_zero_of_lt le)
    have body := p.evalExpr_extends limit (fun d vs => ih (Nat.le_of_succ_le_succ le) d vs) d.body
    exact body.inFrame (p.frameOf d vs)

theorem run_extends (le : p.options.maxCallDepth ≤ limit) : p.run.Extends (p.limited limit).run :=
  p.evalStmts_extends limit (p.call_extends limit le) p.program.stmts

/-- With a higher limit a run has the same outcome, unless it went too deep. -/
theorem outcome_limited (le : p.options.maxCallDepth ≤ limit) :
    (p.limited limit).outcome = p.outcome ∨
      ∃ k, p.outcome.error = some (.callDepthExceeded k) ∧
        p.outcome.output <+: (p.limited limit).outcome.output := by
  obtain ⟨_, alike | ⟨k, deep, shown⟩⟩ := p.run_extends limit le ⟨[.empty], [], p.checker.names⟩
  · have run : (p.limited limit).run.run ⟨[.empty], [], p.checker.names⟩ =
        p.run.run ⟨[.empty], [], p.checker.names⟩ := alike
    have names : (p.limited limit).checker.names = p.checker.names := rfl
    exact .inl (by rw [outcome, outcome, names, run])
  · refine .inr ⟨k, ?_, List.reverse_prefix.mpr shown⟩
    have fails := Eval.failure?_of_run (Prod.ext deep rfl)
    rw [p.outcome_error]
    exact fails

end Plan

/-! ### Runs of checked drafts -/

/-- What is reported of a program that was checked, folded and run. -/
def Checked.compilation (q : Checked) (folding : Folding) (c : Checker) (outcome : Outcome) :
    Compilation :=
  ⟨q.allDiagnostics.map (·.report q.context.nameOf), outcome.output, outcome.error, folding.stats,
    c.interns.types.size⟩

theorem Draft.Passes.compile {d : Draft} {o : Options} {q : Checked} {folding : Folding}
    {c : Checker} (passes : d.Passes o q)
    (folded : q.context.fold.run q.checker = .ok (folding, c)) :
    d.compile o =
      .ok (q.compilation folding c (Plan.outcome ⟨q.context, c, folding.values⟩)) := by
  rw [Draft.compile, passes.checked]
  change (if q.hasErrors then _ else q.evaluate >>= _) = _
  rw [passes.clean, Checked.evaluate, folded]
  rfl

/-- A draft that was checked without an error compiles with every limit on calls inside each other.
If its run with one limit does not go too deep then all that is reported is the same with every
higher limit; and if it does then the higher limit changes nothing but the run, which prints the
same lines first. -/
theorem higher_limit_extends_run (d : Draft) (o : Options) (low high : Nat) (le : low ≤ high)
    (q : Checked) (passes : d.Passes (o.limited low) q) :
    ∃ r r', d.compile (o.limited low) = .ok r ∧ d.compile (o.limited high) = .ok r' ∧
      ((∀ k, r.error ≠ some (.callDepthExceeded k)) → r' = r) ∧
      ∀ k, r.error = some (.callDepthExceeded k) →
        r.output <+: r'.output ∧ r' = { r with output := r'.output, error := r'.error } := by
  obtain ⟨plan, _, folding, folded, _⟩ := passes.plans
  have passes' : d.Passes (o.limited high) (q.limited high) := passes.limited high
  have folded' : (q.limited high).context.fold.run q.checker = .ok (folding, plan.checker) :=
    (congrArg (·.run q.checker) (q.context.fold_limited high)).trans folded
  have limit : q.context.options.maxCallDepth = low := by
    rw [passes.certified.1]
    rfl
  refine ⟨_, _, passes.compile folded, passes'.compile folded', ?_⟩
  rcases Plan.outcome_limited ⟨q.context, plan.checker, folding.values⟩ high (limit ▸ le) with
    same | ⟨k, deep, shown⟩
  · have alike := congrArg (q.compilation folding plan.checker) same
    refine ⟨fun _ => alike, fun k _ => ⟨?_, rfl⟩⟩
    exact (congrArg Compilation.output alike).symm ▸ List.prefix_rfl
  · exact ⟨fun shallow => absurd deep (shallow k), fun _ _ => ⟨shown, rfl⟩⟩

/-- A draft that counts down, one call deeper for each number. -/
def Draft.countdown : Draft where
  text := "def f(n: Int): Int = { println(n) n match { case 0 => 7 case _ => f(n - 1) } } println(f(2))"
  stmts :=
    [.fn ⟨[], ⟨[], "f"⟩, [⟨[], ⟨[], "n"⟩, .refer [] ⟨[], "Int"⟩⟩], some (.refer [] ⟨[], "Int"⟩),
        .block [] [.expr [] (.call [] ⟨[], "println"⟩ [.name ⟨[], "n"⟩])]
          (some (.cases [] (.name ⟨[], "n"⟩)
            [⟨[], .lit [] ⟨[], .int 0⟩, .lit ⟨[], .int 7⟩⟩,
              ⟨[], .wildcard [], .call [] ⟨[], "f"⟩
                [.bin [] (.arith .sub) (.name ⟨[], "n"⟩) (.lit ⟨[], .int 1⟩)]⟩]))⟩,
      .expr [] (.call [] ⟨[], "println"⟩ [.call [] ⟨[], "f"⟩ [.lit ⟨[], .int 2⟩]])]

theorem higher_limit_extends_run_countdown : ∃ q r r',
    Draft.countdown.Passes ((default : Options).limited 2) q ∧
    Draft.countdown.compile ((default : Options).limited 2) = .ok r ∧
    r.output = ["2", "1"] ∧ r.error = some (.callDepthExceeded 2) ∧
    Draft.countdown.compile ((default : Options).limited 3) = .ok r' ∧
    r'.output = ["2", "1", "0", "7"] ∧ r.output <+: r'.output := by
  obtain ⟨q, plan, passes, _, _⟩ := Draft.plan?_any .countdown ((default : Options).limited 2)
    (fun _ => true) (by decide +kernel)
  obtain ⟨r, r', low, high, _, deep⟩ :=
    higher_limit_extends_run .countdown default 2 3 (by decide) q passes
  have stops : (Draft.countdown.compile ((default : Options).limited 2)).toOption.map
      (fun r => (r.output, r.error)) = some (["2", "1"], some (.callDepthExceeded 2)) := by
    decide +kernel
  have ends : (Draft.countdown.compile ((default : Options).limited 3)).toOption.map
      Compilation.output = some ["2", "1", "0", "7"] := by decide +kernel
  rw [low] at stops
  rw [high] at ends
  obtain ⟨output, error⟩ := Prod.mk.inj (Option.some.inj stops)
  exact ⟨q, r, r', passes, low, output, error, high, Option.some.inj ends, (deep 2 error).1⟩

end Solo

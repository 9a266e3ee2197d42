import Solo.Proofs.Preservation

/-!
# Values of whole runs

What every evaluation keeps holds of all evaluations that a run begins. So in a run of a program
that was checked without an error, all values have the recorded types, and a value that was found
before the run is the one that the run finds.
-/

namespace Solo

section
variable (q : Plan) (F : Checker)

/-- A task that is part of a program and has types. -/
def Task.Typed : Task → Prop
  | .expr e => e.nodes ⊆ q.program.nodes ∧ ∃ t, e.Typed q.toBoundProgram F t
  | .exprs es => exprsNodes es ⊆ q.program.nodes ∧ ∃ ts, exprsTyped q.toBoundProgram F es ts
  | .tail last => tailNodes last ⊆ q.program.nodes ∧ ∃ t, tailTyped q.toBoundProgram F last t
  | .arms _ rest => armsNodes rest ⊆ q.program.nodes ∧ ∃ t, armsTyped q.toBoundProgram F rest t
  | .stmt s => s.nodes ⊆ q.program.nodes ∧ s.Typed q.toBoundProgram F
  | .stmts ss => stmtsNodes ss ⊆ q.program.nodes ∧ stmtsTyped q.toBoundProgram F ss

/-- An evaluation of a typed task in a state whose frames hold what they may hold. -/
structure Config.Fine (c : Config) : Prop where
  typed : c.task.Typed q F
  fit : FramesFit q.toBoundProgram F c.machine.frames

end

namespace Ready

variable {q : Plan} {F : Checker} {P : Table NodeId Purity} {c c' : Config}

/-- The state after an evaluation is as good as before. -/
theorem after (ready : Ready q F P) (fine : c.Fine q F) :
    FramesFit q.toBoundProgram F (q.after c).frames := by
  obtain ⟨n, task, s⟩ := c
  obtain ⟨typed, fit⟩ := fine
  have bodies := ready.bodies n
  cases task with
  | expr e =>
    obtain ⟨inside, t, typed⟩ := typed
    exact (ready.evalExpr bodies e inside typed s fit).1
  | exprs es =>
    obtain ⟨inside, ts, typed⟩ := typed
    exact (ready.evalExprs bodies es inside typed s fit).1
  | tail tail =>
    obtain ⟨inside, t, typed⟩ := typed
    exact (ready.evalTail bodies tail inside typed s fit).1
  | arms v arms =>
    obtain ⟨inside, t, typed⟩ := typed
    exact (ready.evalArms bodies v arms inside typed s fit).1
  | stmt t => exact (ready.evalStmt bodies t typed.1 typed.2 s fit).1
  | stmts ss => exact (ready.evalStmts bodies ss typed.1 typed.2 s fit).1

theorem enters (ready : Ready q F P) (fine : c.Fine q F) (enters : q.Enters c c') :
    c'.Fine q F := by
  obtain ⟨typed, fit⟩ := fine
  cases enters with
  | paren =>
    obtain ⟨inside, t, typed⟩ := typed
    exact ⟨⟨Answers.below_left inside, t, typed.2⟩, fit⟩
  | unary =>
    obtain ⟨inside, _, _, s, _, _, inner, _⟩ := typed
    exact ⟨⟨Answers.below_left inside, s, inner⟩, fit⟩
  | left =>
    obtain ⟨inside, _, _, s, _, _, _, _, left, _⟩ := typed
    exact ⟨⟨Answers.below_left (Answers.below_left inside), s, left⟩, fit⟩
  | @right n s _ m op a b v kept first both =>
    obtain ⟨inside, _, _, s₁, s₂, _, _, _, left, right, _⟩ := typed
    have inside := Answers.below_left inside
    have keeps := ready.evalExpr (ready.bodies n) a (Answers.below_left inside) left s fit
    rw [first] at keeps
    exact ⟨⟨Answers.below_right inside, s₂, right⟩, keeps.1⟩
  | args =>
    obtain ⟨inside, _, _, _, types, _, args, _⟩ := typed
    exact ⟨⟨(List.cons_subset.mp (Answers.below_left inside)).2, types, args⟩, fit⟩
  | @body n s _ m f args vs sig kept first own found =>
    obtain ⟨inside, _, _, x, types, target, typed, resolved⟩ := typed
    have node := inside (Expr.mem_nodes (.call m f args))
    have keeps := ready.evalExprs (ready.bodies (n + 1)) args
      (List.cons_subset.mp (Answers.below_left inside)).2 typed s fit
    rw [first] at keeps
    rw [ready.like.signatures] at found
    have fn := (ready.cert.callee node found).2
    rcases resolved with ⟨role, _⟩ | ⟨_, sig', found', offers, below, _⟩
    · rw [target] at own
      simp [role] at own
    · cases found.symm.trans found'
      obtain ⟨sig', s, known, decl, params, body, _⟩ := ready.cert.fn fn
      cases known.symm.trans offers.known
      refine ⟨⟨?_, s, body⟩, .cons (frameOf ready.cert fn params ?_) keeps.1⟩
      · exact Program.body_of_fn fn
      · exact forall₂_below (keeps.2 vs rfl) below
  | block =>
    obtain ⟨inside, _, _, stmts, _⟩ := typed
    exact ⟨⟨Answers.below_left (Answers.below_left inside), stmts⟩, fit⟩
  | @tail n s _ m ss tail kept first =>
    obtain ⟨inside, t, _, stmts, last⟩ := typed
    have inside := Answers.below_left inside
    have keeps := ready.evalStmts (ready.bodies n) ss (Answers.below_left inside) stmts s fit
    rw [first] at keeps
    exact ⟨⟨Answers.below_right inside, t, last⟩, keeps.1⟩
  | assign =>
    obtain ⟨inside, _, _, _, _, _, r, _, _, _, inner, _⟩ := typed
    exact ⟨⟨(List.cons_subset.mp (Answers.below_left inside)).2, r, inner⟩, fit⟩
  | scrutinee =>
    obtain ⟨inside, _, _, inner, _⟩ := typed
    exact ⟨⟨Answers.below_left (Answers.below_left inside), inner⟩, fit⟩
  | @arms n s _ m e arms v kept first =>
    obtain ⟨inside, t, _, ⟨u, inner⟩, rest⟩ := typed
    have inside := Answers.below_left inside
    have keeps := ready.evalExpr (ready.bodies n) e (Answers.below_left inside) inner s fit
    rw [first] at keeps
    exact ⟨⟨Answers.below_right inside, t, rest⟩, keeps.1⟩
  | arg =>
    obtain ⟨inside, _, t, _, _, first, _⟩ := typed
    exact ⟨⟨Answers.below_left inside, t, first⟩, fit⟩
  | @nextArgs n s _ e es v first =>
    obtain ⟨inside, _, t, ts, _, typed, rest⟩ := typed
    have keeps := ready.evalExpr (ready.bodies n) e (Answers.below_left inside) typed s fit
    rw [first] at keeps
    exact ⟨⟨Answers.below_right inside, ts, rest⟩, keeps.1⟩
  | last => exact ⟨typed, fit⟩
  | @arm n s _ m a e arms v first =>
    obtain ⟨inside, _, _, ⟨u, body, _⟩, _⟩ := typed
    have keeps := matchesPat (q := q) (F := F) v a s fit
    rw [first] at keeps
    exact ⟨⟨Answers.below_right (Answers.below_left (Answers.below_left inside)), u, body⟩, keeps.1⟩
  | @nextArms n s _ m a e arms v first =>
    obtain ⟨inside, t, _, _, rest⟩ := typed
    have keeps := matchesPat (q := q) (F := F) v a s fit
    rw [first] at keeps
    exact ⟨⟨Answers.below_right inside, t, rest⟩, keeps.1⟩
  | @init n s d =>
    obtain ⟨m, k, x, ty, e⟩ := d
    obtain ⟨inside, _, _, _, r, _, _, inner, _⟩ := typed
    exact ⟨⟨Answers.below_right (Answers.below_left inside), r, inner⟩, fit⟩
  | effect =>
    obtain ⟨inside, t, inner⟩ := typed
    exact ⟨⟨Answers.below_left inside, t, inner⟩, fit⟩
  | stmt =>
    obtain ⟨inside, first, _⟩ := typed
    exact ⟨⟨Answers.below_left inside, first⟩, fit⟩
  | @nextStmts n s _ t ss first =>
    obtain ⟨inside, typed, rest⟩ := typed
    have keeps := ready.evalStmt (ready.bodies n) t (Answers.below_left inside) typed s fit
    rw [first] at keeps
    exact ⟨⟨Answers.below_right inside, rest⟩, keeps.1⟩

theorem reached (ready : Ready q F P) (reached : q.Reached c) : c.Fine q F := by
  induction reached with
  | refl =>
    refine ⟨⟨List.subset_append_left _ _, ready.cert.stmts⟩, ?_⟩
    exact .cons nofun .nil
  | tail _ step ih => exact ready.enters ih step

end Ready

/-! ### Runs of checked drafts -/

/-- A plan to run a checked program: what was folded, and the checker afterwards. -/
structure Checked.Plans (q : Checked) (plan : Plan) : Prop where
  context : plan.toContext = q.context
  folded : ∃ folding, q.context.fold.run q.checker = .ok (folding, plan.checker) ∧
    plan.folds = folding.values

section
variable {d : Draft} {o : Options} {q : Checked} {plan : Plan}

theorem Checked.Plans.ready (plans : q.Plans plan) (passes : d.Passes o q) :
    plan.toContext = d.context o ∧ Ready plan q.checker plan.checker.purities := by
  obtain ⟨same, cert⟩ := passes.certified
  obtain ⟨context, folding, folded, values⟩ := plans
  rw [same] at context folded
  obtain ⟨folding', c, run, like, _, right⟩ := Context.fold_right cert (d.sized o)
  cases folded.symm.trans run
  refine ⟨context, ?_⟩
  obtain ⟨cx, checker, folds⟩ := plan
  cases context
  cases values
  exact ⟨cert, like, right⟩

theorem Checked.Plans.verdicts (plans : q.Plans plan) (passes : d.Passes o q) :
    PuritiesRight plan.toBoundProgram q.checker plan.checker.purities plan.checker := by
  obtain ⟨same, cert⟩ := passes.certified
  obtain ⟨context, folding, folded, _⟩ := plans
  rw [same] at context folded
  obtain ⟨folding', c, run, _, right, _⟩ := Context.fold_right cert (d.sized o)
  cases folded.symm.trans run
  rw [context]
  exact right

theorem Draft.Passes.plans (passes : d.Passes o q) : ∃ plan, q.Plans plan := by
  obtain ⟨same, cert⟩ := passes.certified
  obtain ⟨folding, c, run, _⟩ := Context.fold_right cert (d.sized o)
  exact ⟨⟨q.context, c, folding.values⟩, rfl, folding, same ▸ run, rfl⟩

end

def Draft.plan? (d : Draft) (o : Options) : Option (Checked × Plan) :=
  match (d.context o).checked with
  | .error _ => none
  | .ok q =>
    if q.hasErrors then none
    else
      match q.context.fold.run q.checker with
      | .error _ => none
      | .ok (folding, checker) => some (q, ⟨q.context, checker, folding.values⟩)

private theorem ok_of_toOption {ε α : Type} {x : Except ε α} {a : α} (some : x.toOption = some a) :
    x = .ok a := by
  cases x <;> cases some
  rfl

theorem Draft.plan?_any (d : Draft) (o : Options) (test : Checked × Plan → Bool)
    (found : (d.plan? o).any test = true) :
    ∃ q plan, d.Passes o q ∧ q.Plans plan ∧ test (q, plan) = true := by
  obtain ⟨⟨q, plan⟩, planned, holds⟩ := (Option.any_eq_true _ _).mp found
  refine ⟨q, plan, ?_⟩
  unfold Draft.plan? at planned
  split at planned
  · cases planned
  · next q' checked =>
    split at planned
    · cases planned
    · next clean =>
      split at planned
      · cases planned
      · next folding checker folded =>
        cases planned
        exact ⟨⟨checked, (Bool.not_eq_true _).mp clean⟩, ⟨rfl, folding, folded, rfl⟩, holds⟩

/-- All frames hold values of the declared types of their bindings. -/
def Machine.Inhabits (c : Checker) (s : Machine) : Prop :=
  ∀ f ∈ s.frames, ∀ x v, f.find? x = some v →
    ∃ t, c.symbolTypes.find? x = some t ∧ Solo.Inhabits c v t

theorem FramesFit.inhabits {p : BoundProgram} {F : Checker} {s : Machine}
    (fit : FramesFit p F s.frames) : s.Inhabits F := by
  intro f member x v found
  obtain ⟨t, declared, fits⟩ := (fit f member x v found).fits
  exact ⟨t, declared, fits.1⟩

/-- In every run of a draft that was checked without an error, each evaluation begins and ends with
frames that hold values of the declared types, and the value of an expression is one of the type
recorded for it. -/
theorem run_inhabits_types (d : Draft) (o : Options) (q : Checked) (plan : Plan)
    (passes : d.Passes o q) (plans : q.Plans plan) (c : Config) (reached : plan.Reached c) :
    c.machine.Inhabits q.checker ∧ (plan.after c).Inhabits q.checker ∧
      ∀ e v s, c.task = .expr e → plan.evalExpr (plan.call c.left) e c.machine = (.ok v, s) →
        ∃ t, q.checker.nodeTypes.find? e.id = some t ∧ Inhabits q.checker v t := by
  obtain ⟨_, ready⟩ := plans.ready passes
  have fine := ready.reached reached
  refine ⟨fine.fit.inhabits, (ready.after fine).inhabits, ?_⟩
  obtain ⟨n, task, m⟩ := c
  rintro e v s rfl run
  obtain ⟨inside, t, typed⟩ := fine.typed
  have node := inside (Expr.mem_nodes e)
  obtain ⟨u, recorded⟩ := Option.isSome_iff_exists.mp typed.noted
  have keeps := ready.evalExpr (ready.bodies n) e inside
    (ready.cert.sound.exprs e node u recorded).1 m fine.fit
  rw [run] at keeps
  exact ⟨u, recorded, (keeps.2 v rfl).1.1⟩

/-- A draft whose second binding has the singleton of the first one as its type. -/
def Draft.singletons : Draft where
  text := "final val k = 2 val y: k.type = k def f(n: Int): Int = n + y println(f(1 + k))"
  stmts :=
    [.val ⟨[], .finalVal, ⟨[], "k"⟩, none, .lit ⟨[], .int 2⟩⟩,
      .val ⟨[], .val, ⟨[], "y"⟩, some (.singleton [] (.name ⟨[], "k"⟩)), .name ⟨[], "k"⟩⟩,
      .fn ⟨[], ⟨[], "f"⟩, [⟨[], ⟨[], "n"⟩, .refer [] ⟨[], "Int"⟩⟩], some (.refer [] ⟨[], "Int"⟩),
        .bin [] (.arith .add) (.name ⟨[], "n"⟩) (.name ⟨[], "y"⟩)⟩,
      .expr [] (.call [] ⟨[], "println"⟩
        [.call [] ⟨[], "f"⟩ [.bin [] (.arith .add) (.lit ⟨[], .int 1⟩) (.name ⟨[], "k"⟩)]])]

/-- The way from the begin of its run to the use of `y` in the body of `f`. -/
def Draft.singletonsPath : List Bool := [true, true, true, false, false, false, false, true, true]

/-- Inside the call of `f`, its parameter is bound in one frame and `k` and `y` in the other one; the
use of `y` has the value 2 and the singleton of `k` as its type, and it is the constant 2. -/
theorem Draft.singletons_inside : ∃ q plan c e v s w r r',
    Draft.singletons.Passes default q ∧ q.Plans plan ∧ plan.Reached c ∧ c.task = .expr e ∧
    c.machine.frames.map Table.entries = [[(5, .int 3)], [(2, .int 2), (3, .int 2)]] ∧
    plan.evalExpr (plan.call c.left) e c.machine = (.ok v, s) ∧ v = .int 2 ∧
    q.checker.nodeTypes.find? e.id = some (.path 2) ∧
    (q.context.resolver.constantAt 0 e).run q.checker = .ok (some (.int 2), r) ∧
    (q.context.symbol 3).role.isStable = true ∧
    (q.context.resolver.inhabitant (.path 3)).run q.checker = .ok (.ok w, r') := by
  obtain ⟨q, plan, passes, plans, found⟩ := Draft.plan?_any .singletons default
    (fun r => (singletonsPath.foldlM r.2.enter? r.2.begin).any fun c => c.task.expr?.any fun e =>
      c.machine.frames.map Table.entries == [[(5, .int 3)], [(2, .int 2), (3, .int 2)]] &&
        (r.1.checker.nodeTypes.find? e.id == some (.path 2) &&
        ((r.1.context.symbol 3).role.isStable &&
        ((r.2.evalExpr (r.2.call c.left) e c.machine).1.toOption == some (.int 2) &&
        (((r.1.context.resolver.constantAt 0 e).run r.1.checker).toOption.any
          (·.1 == some (.int 2)) &&
        ((r.1.context.resolver.inhabitant (.path 3)).run r.1.checker).toOption.any
          (·.1.toOption.isSome))))))
    (by decide +kernel)
  simp only [Option.any_eq_true, Bool.and_eq_true, beq_iff_eq] at found
  obtain ⟨c, leads, e, task, frames, type, stable, value, ⟨⟨_, r⟩, constant, rfl⟩,
    ⟨⟨answer, r'⟩, inhabitant, known⟩⟩ := found
  obtain ⟨w, known⟩ := Option.isSome_iff_exists.mp known
  cases ok_of_toOption known
  have run : plan.evalExpr (plan.call c.left) e c.machine =
      (.ok (.int 2), (plan.evalExpr (plan.call c.left) e c.machine).2) :=
    Prod.ext (ok_of_toOption value) rfl
  exact ⟨q, plan, c, e, _, _, w, r, r', passes, plans, .path .refl leads, Task.expr?_eq_some task,
    frames, run, rfl, type, ok_of_toOption constant, stable, ok_of_toOption inhabitant⟩

theorem run_inhabits_types_singletons : ∃ q plan c e v s t, Draft.singletons.Passes default q ∧
    q.Plans plan ∧ plan.Reached c ∧ c.task = .expr e ∧
    c.machine.frames.map Table.entries = [[(5, .int 3)], [(2, .int 2), (3, .int 2)]] ∧
    c.machine.Inhabits q.checker ∧ (plan.after c).Inhabits q.checker ∧
    plan.evalExpr (plan.call c.left) e c.machine = (.ok v, s) ∧ v = .int 2 ∧
    q.checker.nodeTypes.find? e.id = some t ∧ t = .path 2 ∧ Inhabits q.checker v t := by
  obtain ⟨q, plan, c, e, v, s, _, _, _, passes, plans, reached, task, frames, run, value, type, _⟩ :=
    Draft.singletons_inside
  obtain ⟨before, after, own⟩ :=
    run_inhabits_types Draft.singletons default q plan passes plans c reached
  obtain ⟨t, found, inhabits⟩ := own e v s task run
  exact ⟨q, plan, c, e, v, s, t, passes, plans, reached, task, frames, before, after, run, value,
    found, Option.some.inj (found.symm.trans type), inhabits⟩

/-- In every run of a draft that was checked without an error, an expression that is a constant has
no other value than the constant, and a stable binding whose singleton has a known inhabitant
holds that value in every frame. -/
theorem run_agrees_with_constants (d : Draft) (o : Options) (q : Checked) (plan : Plan)
    (passes : d.Passes o q) (plans : q.Plans plan) (c : Config) (reached : plan.Reached c) :
    (∀ e v c', (q.context.resolver.constantAt 0 e).run q.checker = .ok (some v, c') →
      ∀ w s, c.task = .expr e → plan.evalExpr (plan.call c.left) e c.machine = (.ok w, s) →
        w = v) ∧
    ∀ x w c', (q.context.symbol x).role.isStable = true →
      (q.context.resolver.inhabitant (.path x)).run q.checker = .ok (.ok w, c') →
        ∀ f, f ∈ c.machine.frames ∨ f ∈ (plan.after c).frames →
          ∀ v, f.find? x = some v → v = w.value := by
  obtain ⟨context, ready⟩ := plans.ready passes
  obtain ⟨same, cert⟩ := passes.certified
  have fine := ready.reached reached
  have after := ready.after fine
  rw [same]
  obtain ⟨cx, checker, folds⟩ := plan
  obtain rfl : cx = d.context o := context
  constructor
  · intro e v c' found w s task run
    obtain ⟨r, c₁, run', _, _, right⟩ := cert.constantAt 0 e q.checker (.refl _)
    cases found.symm.trans run'
    obtain ⟨n, _, m⟩ := c
    cases task
    obtain ⟨inside, t, typed⟩ := fine.typed
    have keeps := ready.evalExpr (ready.bodies n) e inside typed m fine.fit
    rw [run] at keeps
    exact (keeps.2 w rfl).2 v (right v rfl)
  · intro x w c' stable found f member v held
    have sane : Sane (d.context o).toBoundProgram (.path x) := by
      refine ⟨nofun, ?_⟩
      rintro y ⟨⟩
      exact stable
    obtain ⟨r, c₁, run', _, _, right⟩ := cert.inhabitant sane q.checker (.refl _)
    cases found.symm.trans run'
    have slot : Slot (d.context o).toBoundProgram q.checker x v := by
      rcases member with before | later
      · exact fine.fit f before x v held
      · exact after f later x v held
    rcases right with same | ⟨same, _⟩ | ⟨same, _⟩ | ⟨y, same, holds⟩
    · cases same
    · cases same
    · cases same
    · cases same
      exact slot.known _ holds

theorem run_agrees_with_constants_singletons : ∃ q plan c e v s f w,
    Draft.singletons.Passes default q ∧ q.Plans plan ∧ plan.Reached c ∧ c.task = .expr e ∧
    (∃ r, (q.context.resolver.constantAt 0 e).run q.checker = .ok (some (.int 2), r)) ∧
    plan.evalExpr (plan.call c.left) e c.machine = (.ok v, s) ∧ v = .int 2 ∧
    (q.context.symbol 3).role.isStable = true ∧
    (∃ r, (q.context.resolver.inhabitant (.path 3)).run q.checker = .ok (.ok w, r)) ∧
    f ∈ c.machine.frames ∧ f.find? 3 = some (.int 2) ∧ w.value = .int 2 := by
  obtain ⟨q, plan, c, e, v, s, w, r, r', passes, plans, reached, task, frames, run, _, _, constant,
    stable, inhabitant⟩ := Draft.singletons_inside
  obtain ⟨constants, slots⟩ :=
    run_agrees_with_constants Draft.singletons default q plan passes plans c reached
  obtain ⟨f, member, entries⟩ : ∃ f ∈ c.machine.frames, f.entries = [(2, .int 2), (3, .int 2)] := by
    rw [← List.mem_map, frames]
    exact .tail _ (.head _)
  have held : f.find? 3 = some (.int 2) := by
    rw [Table.find?, entries]
    rfl
  exact ⟨q, plan, c, e, v, s, f, w, passes, plans, reached, task, ⟨r, constant⟩, run,
    constants e _ r constant v s task run, stable, ⟨r', inhabitant⟩, member, held,
    (slots 3 w r' stable inhabitant f (.inl member) _ held).symm⟩

end Solo

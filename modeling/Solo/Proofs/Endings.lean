import Solo.Proofs.Depths
import Solo.Proofs.WriteOnce

/-!
# Questions that are answered

In whatever state a check is, the checker is tidy, and so no question comes upon an entry that is
there already; and there is depth enough for every goal that is not in progress. So each question
about entered types is answered, unless a circle of bindings is found on the way.
-/

namespace Solo

/-! ### Demands in tidy states -/

theorem Context.Fair.poses {cx : Context} {A : List (Expr Mark)} {c : Checker} {q : Demand}
    (fair : cx.Fair A c q) : cx.Poses q := by
  cases q with
  | signature d =>
    obtain ⟨L, opened⟩ := fair
    exact opened.place.node
  | _ => trivial

namespace Careful

open Context (Safe)

variable {cx : Context} {o : Oracle} {A : List (Expr Mark)} {W : List Entry} {c s : Checker}
  {q : Demand} {α : Type} {act : Oracle → Check α}

/-- An oracle is still careful if it fails a demand where the demand is not fair. -/
theorem failing (careful : Careful cx o) (unfair : ∀ A W, cx.Tidy A W s → ¬cx.Fair A s q)
    (e : Fault) :
    ∃ o' : Oracle, (∀ p t, ¬(p = q ∧ t = s) → o' p t = o p t) ∧ o' q s = .error e ∧
      Careful cx o' := by
  classical
  refine ⟨fun p t => if p = q ∧ t = s then .error e else o p t, fun p t apart => if_neg apart,
    if_pos ⟨rfl, rfl⟩, fun p A W t tidy fair => ?_, fun x span t u t' run => ?_,
    fun x p head t u t' run => ?_⟩
  · have other : ¬(p = q ∧ t = s) := by
      rintro ⟨rfl, rfl⟩
      exact unfair A W tidy fair
    exact (careful.meets p tidy fair).congr (if_neg other)
  · change (if _ then _ else _ : Except _ _) = _ at run
    split at run
    · cases run
    · exact careful.spares.aliasTarget x span t u t' run
  · change (if _ then _ else _ : Except _ _) = _ at run
    split at run
    · cases run
    · exact careful.spares.typeOf x p head t u t' run

/-- What goes safely with every careful oracle makes fair demands only, in tidy states: an oracle
might fail the others, and the action with it. -/
theorem asked {Q : α → Checker → Prop} (careful : Careful cx o)
    (safe : ∀ o', Careful cx o' → cx.Safe A W c (act o') Q)
    (heeds : ∀ q s, Asks act o c q s → Heeds act o c q s) (asks : Asks act o c q s) :
    ∃ B V, cx.Tidy B V s ∧ cx.Fair B s q := by
  by_contra none
  have unfair : ∀ B V, cx.Tidy B V s → ¬cx.Fair B s q :=
    fun B V tidy fair => none ⟨B, V, tidy, fair⟩
  obtain ⟨o', agrees, fault, careful'⟩ := careful.failing unfair (.rewritten 0)
  have ends := safe o' careful'
  rw [Safe, heeds q s asks o' agrees _ fault] at ends
  cases ends

variable (nested : cx.WellNested)
include nested

theorem meet (careful : Careful cx o) (q : Demand) (tidy : cx.Tidy A W c) (fair : cx.Fair A c q) :
    cx.Safe A W c (cx.meet q o) fun a c' => cx.Fit A c' q a := by
  have once := careful.meetOnce nested q tidy fair
  rcases Context.meetOnce_asserts nested.toGrounded (fun _ _ => .refl _) q fair.poses c with
    same | ⟨i, fault⟩
  · exact once.congr same.symm
  · rw [Safe, fault] at once
    cases once

theorem oracle (n : Nat) : Careful cx (cx.oracle n) := by
  have spares := SparesTypes.ofDepth cx n
  rw [Resolver.ofDepth_eq] at spares
  refine ⟨?_, spares⟩
  induction n with
  | zero => exact fun _ _ _ _ _ _ => .endless
  | succ n ih =>
    have below := SparesTypes.ofDepth cx n
    rw [Resolver.ofDepth_eq] at below
    exact fun q _ _ _ => (Careful.mk (ih below) below).meet nested q

omit nested in
theorem climb (careful : Careful cx o) (k : Nat) {t : Ty} (tidy : cx.Tidy A W c)
    (live : cx.Lives A t c) : cx.Safe A W c ((cx.asking o).climb k t) fun _ _ => True := by
  induction k generalizing t c with
  | zero => exact .pure tidy trivial
  | succ k ih => exact (careful.widen tidy live).bind fun _ _ tidy₁ _ up => ih tidy₁ up

omit nested in
theorem visit (nested : cx.WellNested) (careful : Careful cx o) :
    cx.Safe [] [] (.start cx.names) (cx.visit [] [] o) fun _ _ => True := by
  refine (careful.checkStmts nested cx.program.stmts (L := [.program cx.program])
    (.start cx cx.names) nofun fun s member => ⟨?_, ?_⟩).bind fun _ _ tidy _ _ => .pure tidy trivial
  · exact Under.here.part (List.mem_map_of_mem member)
  · rintro n inside e rfl
    cases inside with
    | tail _ rest => cases rest

end Careful

section
variable {cx : Context} {A : List (Expr Mark)} {W : List Entry} {α : Type}
  {act : Oracle → Check α} {n m : Nat} {c s : Checker} {q : Demand}

theorem Context.Moment.tidy (nested : cx.WellNested) (moment : cx.Moment act n c m q s)
    (safe : ∀ o, Careful cx o → cx.Safe A W c (act o) fun _ _ => True)
    (heeds : ∀ q s, Asks act (cx.oracle n) c q s → Heeds act (cx.oracle n) c q s) :
    ∃ B V, cx.Tidy B V s ∧ cx.Fair B s q := by
  induction moment generalizing A W with
  | made asks => exact (Careful.oracle nested _).asked safe heeds asks
  | @inside _ _ n _ _ _ _ q _ asks _ ih =>
    obtain ⟨B, V, tidy, fair⟩ := (Careful.oracle nested _).asked safe heeds asks
    have ground := nested.toGrounded
    have meeting := (Faithful.oracle ground n).meet_nested ground fair.poses tidy.orderly
    exact ih (fun o careful => (careful.meet nested q tidy fair).weaken
      fun _ _ _ _ _ => trivial) meeting.heeds

/-- The singletons of bindings that are entered are live. -/
theorem Context.Tidy.lives (tidy : cx.Tidy A W c) {t : Ty} (entered : t ∈ c.types) :
    cx.Lives A t c := by
  rintro x rfl
  exact tidy.live.paths x entered

end

/-! ### The states of a check -/

/-- The states of a checker that is asked about the program: those in which a demand is made or is
answered, and the last one. -/
inductive Context.Reaches (cx : Context) (early late : List Demand) : Checker → Prop
  | asked {n : Nat} {q : Demand} {c : Checker} (occurs : cx.Occurs early late n q c) :
    Reaches cx early late c
  | answered {n : Nat} {q : Demand} {c c' : Checker} {a : q.Answer}
      (occurs : cx.Occurs early late n q c) (met : cx.oracle n q c = .ok (a, c')) :
    Reaches cx early late c'
  | done {c : Checker}
      (visited : cx.visit early late (cx.oracle cx.questionBound) (.start cx.names) = .ok ((), c)) :
    Reaches cx early late c

/-- In a check of the program alone the checker is always tidy. -/
theorem Context.Reaches.tidy {cx : Context} (nested : cx.WellNested) {c : Checker}
    (reaches : cx.Reaches [] [] c) : ∃ A W, cx.Tidy A W c := by
  have ground := nested.toGrounded
  have candid : Candid (cx.oracle cx.questionBound) (cx.visit [] []) :=
    (Candid.thorough cx _).visit ground nofun
  have fair : ∀ {n q s}, cx.Occurs [] [] n q s → ∃ A W, cx.Tidy A W s ∧ cx.Fair A s q :=
    fun occurs => occurs.tidy nested (fun _ careful => careful.visit nested) (candid _)
  cases reaches with
  | asked occurs =>
    obtain ⟨A, W, tidy, _⟩ := fair occurs
    exact ⟨A, W, tidy⟩
  | @answered n q s _ a occurs met =>
    obtain ⟨A, W, tidy, own⟩ := fair occurs
    have safe := (Careful.oracle nested n).meets q tidy own
    rw [Context.Safe, met] at safe
    exact ⟨A, W, safe.1⟩
  | done visited =>
    have safe := (Careful.oracle nested cx.questionBound).visit nested
    rw [Context.Safe, visited] at safe
    exact ⟨[], [], safe.1⟩

section
variable {d : Draft} {options : Options} {early late : List Demand} {c : Checker} {n : Nat}
  {α : Type} {act : Oracle → Check α}

/-- No goals are in progress but those of the program's declarations. -/
theorem Draft.reaches_goals (posed : ∀ q ∈ early ++ late, (d.context options).Poses q)
    (reaches : (d.context options).Reaches early late c) :
    (d.context options).Orderly c ∧ c.pursuits.map (·.goal) ⊆ (d.context options).goals := by
  have ground := d.grounded options
  have tame := ((Faithful.oracle ground (d.context options).questionBound).thorough ground).visit
    ground posed _ (.start _ (d.context options).names)
  cases reaches with
  | asked occurs =>
    have room := occurs.room ground fun q s => Draft.room posed
    exact ⟨room.orderly, room.goals⟩
  | answered occurs met =>
    obtain ⟨follows, marks, _⟩ := occurs.met ground tame met
    have room := occurs.room ground fun q s => Draft.room posed
    exact ⟨follows.orderly, marks.goals ▸ room.goals⟩
  | done visited =>
    obtain ⟨follows, marks, _⟩ := tame.run () c visited
    have none : c.pursuits = [] := List.forall₂_nil_left_iff.mp marks
    exact ⟨follows.orderly, by simp [none]⟩

/-- There is depth enough for what is asked in any state of a check: it is endless only if a circle
of bindings is found on the way. -/
theorem Draft.question_ends (posed : ∀ q ∈ early ++ late, (d.context options).Poses q)
    (reaches : (d.context options).Reaches early late c)
    (enough : (d.context options).questionBound ≤ n)
    (ending : Ending (d.context options) ((d.context options).oracle n) act)
    (fails : act ((d.context options).oracle n) c = .error .endless) :
    ∃ m q s a s', (d.context options).Moment act n c m q s ∧
      (d.context options).oracle m q s = .ok (a, s') ∧ s'.Circular := by
  obtain ⟨orderly, goals⟩ := Draft.reaches_goals posed reaches
  refine (ending.ends c orderly fails).moment (d.grounded options) fun q s asks => ?_
  obtain ⟨own, follows⟩ := (ending.tame c orderly).ask q s asks
  have marks := ending.level c orderly q s asks
  refine ⟨own, follows.orderly, marks.goals ▸ goals, ?_⟩
  have small := q.isSignature.toNat_le
  have most := List.length_filterMap_le (d.context options).goalAt?
    (d.context options).program.nodes
  have nodes := d.sized options
  rw [Context.questionBound] at enough
  rw [Context.goals]
  omega

end

/-- An action answers at a depth, or a circle of bindings is found on the way. -/
def Context.Answers (cx : Context) {α : Type} (act : Oracle → Check α) (n : Nat) (c : Checker) :
    Prop :=
  (∃ x c', act (cx.oracle n) c = .ok (x, c')) ∨
    ∃ m q s a s', cx.Moment act n c m q s ∧ cx.oracle m q s = .ok (a, s') ∧ s'.Circular

/-- What the questions about two types `s` and `t` come to at a depth, in some state. -/
structure Context.Settles (cx : Context) (n : Nat) (c : Checker) (s t : Ty) : Prop where
  climb : ∀ k, cx.Answers (fun o => (cx.asking o).climb k t) n c
  /-- One step more than there are symbols leads to no singleton, unless it leads into a circle. -/
  steps : ∀ k u c', cx.symbols.size + 1 ≤ k →
    (cx.asking (cx.oracle n)).climb k t c = .ok (u, c') → u.isSingleton = false ∨ c'.Spins t
  /-- A circle is never left. -/
  spins : c.Spins t →
    ∀ k, ∃ u, (cx.asking (cx.oracle n)).climb k t c = .ok (u, c) ∧ u.isSingleton = true
  base : cx.Answers (fun o => (cx.asking o).baseWithin (cx.symbols.size + 1) t) n c
  /-- The base is what widening leads to, in the steps that there are. -/
  widened : ∀ u c', (cx.asking (cx.oracle n)).baseWithin (cx.symbols.size + 1) t c = .ok (u, c') →
    (∃ k ≤ cx.symbols.size + 1, (cx.asking (cx.oracle n)).climb k t c = .ok (u, c') ∧
      u.isSingleton = false) ∨ c'.Spins t
  isSubtype : cx.Answers (fun o => (cx.asking o).isSubtype s t) n c
  lub : cx.Answers (fun o => (cx.asking o).lub s t) n c

theorem Ending.climb {cx : Context} {o : Oracle} (thorough : Thorough cx (Ending cx o)) (k : Nat)
    (t : Ty) : Ending cx o fun o => (cx.asking o).climb k t := by
  induction k generalizing t with
  | zero => exact thorough.pure t
  | succ k ih => exact thorough.bind (thorough.widen t) ih

theorem Draft.visit_ends (d : Draft) (options : Options) :
    let cx := d.context options
    cx.Answers (cx.visit [] []) cx.questionBound (.start cx.names) := by
  intro cx
  have ground := d.grounded options
  have nested := d.wellNested options
  have none : ∀ q ∈ ([] ++ [] : List Demand), cx.Poses q := nofun
  have ending := ((Faithful.oracle ground cx.questionBound).ending ground).visit ground none
  rcases ((Careful.oracle nested cx.questionBound).visit nested).cases with
    ⟨x, c', run, _⟩ | endless
  · exact .inl ⟨x, c', run⟩
  · exact .inr ((ending.ends _ (.start cx cx.names) endless).moment ground
      fun q s => Draft.room none)

/-- In every state that a check comes to, and for all types that are entered there, widening,
subtyping, least upper bounds and bases are answered to every sufficient depth, unless a circle of
bindings is found on the way; and so is the whole check. A type is widened to one that is no
singleton in one step more than there are symbols, unless the declared types lead round in a
circle, and then it never is. -/
theorem Draft.widening_ends (d : Draft) (options : Options) :
    let cx := d.context options
    (∀ c, cx.Reaches [] [] c → ∀ n, cx.questionBound ≤ n → ∀ s ∈ c.types, ∀ t ∈ c.types,
      cx.Settles n c s t) ∧
    cx.Answers (cx.visit [] []) cx.questionBound (.start cx.names) := by
  intro cx
  have ground := d.grounded options
  have nested := d.wellNested options
  have none : ∀ q ∈ ([] ++ [] : List Demand), cx.Poses q := nofun
  -- what is safe is refused only for want of depth, and there is enough
  have answers : ∀ {α : Type} {act : Oracle → Check α} {A W c n}, cx.Reaches [] [] c →
      cx.questionBound ≤ n → Ending cx (cx.oracle n) act →
      cx.Safe A W c (act (cx.oracle n)) (fun _ _ => True) → cx.Answers act n c := by
    intro α act A W c n reaches enough ending safe
    rcases safe.cases with ⟨x, c', run, _⟩ | endless
    · exact .inl ⟨x, c', run⟩
    · exact .inr (Draft.question_ends none reaches enough ending endless)
  refine ⟨fun c reaches n enough s left t right => ?_, d.visit_ends options⟩
  obtain ⟨A, W, tidy⟩ := reaches.tidy nested
  have careful := Careful.oracle nested n
  have faithful := Faithful.oracle ground n
  have ending := faithful.ending ground
  have orderly := tidy.orderly
  have live := tidy.lives right
  obtain ⟨m, rfl⟩ : ∃ m, n = m + 1 :=
    Nat.exists_eq_succ_of_ne_zero (Nat.ne_of_gt (Nat.lt_of_lt_of_le (Nat.succ_pos _) enough))
  exact {
    climb := fun k => answers reaches enough (.climb ending k t) (careful.climb k tidy live)
    steps := fun k u c' many run => faithful.climb_ends orderly run many
    spins := fun circle k => circle.climb m k
    base := answers reaches enough (ending.anywhere.baseWithin _ t) (careful.baseWithin _ tidy live)
    widened := fun u c' run => faithful.base_ends orderly run
    isSubtype := answers reaches enough (ending.isSubtype s t)
      (careful.isSubtype t tidy (tidy.lives left))
    lub := answers reaches enough (ending.lub s t)
      ((careful.lub tidy (tidy.lives left) live).weaken fun _ _ _ _ _ => trivial) }

/-- A draft with singletons of bindings that have such types themselves. -/
def Draft.chained : Draft where
  text := "val x: Int = 1 val y: x.type = x val z: y.type = y"
  stmts :=
    [.val ⟨[], .val, ⟨[], "x"⟩, some (.refer [] ⟨[], "Int"⟩), .lit ⟨[], .int 1⟩⟩,
      .val ⟨[], .val, ⟨[], "y"⟩, some (.singleton [] (.name ⟨[], "x"⟩)), .name ⟨[], "x"⟩⟩,
      .val ⟨[], .val, ⟨[], "z"⟩, some (.singleton [] (.name ⟨[], "y"⟩)), .name ⟨[], "y"⟩⟩]

/-- The singleton of `y` is widened through that of `x`. -/
theorem Draft.widening_ends_chained : ∃ c u c',
    (chained.context default).Reaches [] [] c ∧ .path 3 ∈ c.types ∧
    (chained.context default).resolver.climb ((chained.context default).symbols.size + 1)
      (.path 3) c = .ok (u, c') ∧ u = .intrinsic .int ∧
    (chained.context default).Settles (chained.context default).questionBound c (.path 3)
      (.path 3) := by
  have checked : (match (chained.context default).check (.start (chained.context default).names) with
    | .error _ => false
    | .ok (_, c) => c.types.contains (.path 3) &&
      match (chained.context default).resolver.climb ((chained.context default).symbols.size + 1)
        (.path 3) c with
      | .error _ => false
      | .ok (u, _) => u == .intrinsic .int) = true := by decide +kernel
  split at checked
  · cases checked
  next c visited =>
  rw [Bool.and_eq_true] at checked
  obtain ⟨entered, checked⟩ := checked
  split at checked
  · cases checked
  next u c' climbs =>
  rw [Context.check_eq] at visited
  have reaches : (chained.context default).Reaches [] [] c := .done visited
  have member : .path 3 ∈ c.types := Array.contains_iff_mem.mp entered
  exact ⟨c, u, c', reaches, member, climbs, eq_of_beq checked,
    (Draft.widening_ends chained default).1 c reaches _ (Nat.le_refl _) _ member _ member⟩

/-- A draft with two parameters each of which has the singleton of the other one as its type. -/
def Draft.mutualSingletons : Draft where
  text := "def f(p: q.type, q: p.type): Unit = ()"
  stmts :=
    [.fn ⟨[], ⟨[], "f"⟩,
      [⟨[], ⟨[], "p"⟩, .singleton [] (.name ⟨[], "q"⟩)⟩,
        ⟨[], ⟨[], "q"⟩, .singleton [] (.name ⟨[], "p"⟩)⟩],
      some (.refer [] ⟨[], "Unit"⟩), .lit ⟨[], .unit⟩⟩]

/-- It is accepted, though the singleton of `p` is never widened to anything else, and the question
whether it is a subtype of a kind is endless. -/
theorem mutual_singletons_accepted : ∃ q, Draft.mutualSingletons.Passes default q ∧
    q.allDiagnostics.length = 0 ∧ q.checker.Circular ∧
    (∀ k, ∃ u, q.context.resolver.climb k (.path 3) q.checker = .ok (u, q.checker) ∧
      u.isSingleton = true) ∧
    q.context.resolver.isSubtype (.path 3) (.intrinsic .int) q.checker = .error .endless := by
  have accepted : ((Draft.mutualSingletons.context default).checked.toOption.any fun q =>
    !q.hasErrors && (q.allDiagnostics.length == 0 &&
      (q.checker.symbolTypes.find? 3 == some (.path 4) &&
        (q.checker.symbolTypes.find? 4 == some (.path 3) &&
          match q.context.resolver.isSubtype (.path 3) (.intrinsic .int) q.checker with
          | .error .endless => true
          | _ => false)))) = true := by decide +kernel
  cases checked : (Draft.mutualSingletons.context default).checked with
  | error e =>
    rw [checked] at accepted
    cases accepted
  | ok q =>
    simp only [checked, Except.toOption, Option.any_some, Bool.and_eq_true, beq_iff_eq,
      Bool.not_eq_true'] at accepted
    obtain ⟨clean, none, first, second, endless⟩ := accepted
    have circle : Relation.TransGen q.checker.Links 3 3 := .tail (.single first) second
    have spins : q.checker.Spins (.path 3) := ⟨3, 3, rfl, .refl, circle⟩
    refine ⟨q, ⟨checked, clean⟩, none, ?_, fun k => ?_, ?_⟩
    · exact ⟨3, .tail (.single ⟨first, by decide⟩) ⟨second, by decide⟩⟩
    · rw [Context.resolver, Resolver.ofDepth_eq]
      exact spins.climb _ k
    · split at endless
      · next fails => exact fails
      · cases endless

end Solo

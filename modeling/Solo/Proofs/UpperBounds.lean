import Solo.Proofs.Strictness

/-!
# Upper bounds

Two types are widened in step until one is a subtype of the other. What is found lies below every
type that both are subtypes of. But it need not lie above both: if it is a singleton that the two
come to in step, only what they widen to is below it. So it is a least upper bound just if one of
the two was a subtype of the other to begin with, or if it is a kind.
-/

namespace Solo

/-- The checker says that a type is a subtype of another one. -/
def Resolver.Affirms (r : Resolver) (c : Checker) (s t : Ty) : Prop :=
  ∃ c', r.isSubtype s t c = .ok (true, c')

/-- Only `Any` and the error type are above two kinds of which neither is below the other. -/
theorem Kind.any_isSubkind_of_apart {j k l : Kind} (apart : ¬j.isSubkind k = true)
    (apart' : ¬k.isSubkind j = true) (left : j.isSubkind l = true) (right : k.isSubkind l = true) :
    Kind.any.isSubkind l = true := by
  rw [isSubkind_iff] at *
  grind

namespace Context

variable {cx : Context} {c : Checker} {s t a b u : Ty} {j k : Kind} {n : Nat}

/-! ### What is said of subtypes -/

theorem Compares.apart (orderly : cx.Orderly c) (no : cx.Compares c s t false) :
    ¬cx.Compares c s t true :=
  fun yes => Bool.false_ne_true (no.unique orderly yes)

/-- Where widening ends, the checker affirms what the closed form says. -/
theorem Traced.affirms_iff {K : Ty → Prop} (traced : cx.Traced c K) (ground : cx.Grounded)
    (spelled : cx.Spelled) (coherent : cx.Coherent c) (m : Nat) (own : K s) (calm : ¬c.Spins s) :
    (Resolver.ofDepth cx (m + 1)).Affirms c s t ↔ cx.Compares c s t true := by
  obtain ⟨b, c₁, answered, _, _, compares⟩ := traced.answer ground spelled coherent m own calm t
  constructor
  · rintro ⟨c₂, affirmed⟩
    cases answered.symm.trans affirmed
    exact compares
  · intro yes
    cases compares.unique coherent.orderly yes
    exact ⟨c₁, answered⟩

/-- Two types with a singleton above both are comparable. -/
theorem Compares.comparable (single : u.isSingleton = true) (left : cx.Compares c a u true)
    (right : cx.Compares c b u true) : cx.Compares c a b true ∨ cx.Compares c b a true := by
  have low : ∀ {s t : Ty}, s = .error ∨ s = .intrinsic .nothing → cx.Compares c s t true := by
    rintro s t (rfl | rfl)
    · exact .plain cx c (by simp [Ty.isError])
    · exact .plain cx c (by simp [Ty.isNothing])
  have first := Ty.isBelowSingleton_iff.mp (left.of_singleton single).symm
  have second := Ty.isBelowSingleton_iff.mp (right.of_singleton single).symm
  rcases first with rfl | least
  · exact .inr right
  · exact .inl (low least)

/-! ### The search -/

/-- What two types whose widening ends at `j` and `k` come to. It is below every kind above both,
and if it is a kind, it is above both. -/
structure Joins (cx : Context) (c : Checker) (j k : Kind) (u : Ty) : Prop where
  least : ∃ n i, Steps (cx.Rises c) n u (.intrinsic i) ∧
    ∀ l, j.isSubkind l = true → k.isSubkind l = true → i.isSubkind l = true
  above : ∀ i, u = .intrinsic i → j.isSubkind i = true ∧ k.isSubkind i = true

theorem Joins.right (orderly : cx.Orderly c) (left : Steps (cx.Rises c) n a (.intrinsic j))
    (right : Steps (cx.Rises c) n b (.intrinsic k)) (below : cx.Compares c a b true) :
    cx.Joins c j k b := by
  refine ⟨⟨n, k, right, fun _ _ above => above⟩, ?_⟩
  rintro i rfl
  cases right.stands orderly rfl
  exact ⟨(below.of_base orderly left).symm, k.isSubkind_self⟩

theorem Joins.symm (joins : cx.Joins c j k u) : cx.Joins c k j u := by
  obtain ⟨⟨n, i, steps, least⟩, above⟩ := joins
  exact ⟨⟨n, i, steps, fun l left right => least l right left⟩, fun i same => (above i same).symm⟩

/-- Where neither of two kinds is below the other, they come to `Any`. -/
theorem Joins.any (orderly : cx.Orderly c)
    (apart : cx.Compares c (.intrinsic j) (.intrinsic k) false)
    (apart' : cx.Compares c (.intrinsic k) (.intrinsic j) false) :
    cx.Joins c j k (.intrinsic .any) := by
  have first := apart.of_base orderly (.none _)
  have second := apart'.of_base orderly (.none _)
  refine ⟨⟨0, .any, .none _, fun l left right => ?_⟩, ?_⟩
  · exact Kind.any_isSubkind_of_apart (by simp [← first]) (by simp [← second]) left right
  · rintro i same
    cases same
    exact ⟨j.isSubkind_any, k.isSubkind_any⟩

/-- Where both types stay as they are, they are kinds. -/
theorem Joins.still {r : Resolver} {n' : Nat} {c₁ : Checker} (orderly : cx.Orderly c)
    (left : Steps (cx.Rises c) n a (.intrinsic j)) (right : Steps (cx.Rises c) n b (.intrinsic k))
    (stands : cx.Rises c a a) (stands' : cx.Rises c b b) (apart : cx.Compares c a b false)
    (apart' : cx.Compares c b a false) :
    ∃ u c₂, r.lubAfter n' a b a b c₁ = .ok (u, c₂) ∧ cx.Joins c j k u := by
  cases left.stands orderly stands
  cases right.stands orderly stands'
  exact ⟨_, c₁, by rw [Resolver.lubAfter, if_pos ⟨rfl, rfl⟩]; rfl, .any orderly apart apart'⟩

/-- The answer of a search. It is the greater one of the two types if they are comparable. -/
structure Found (cx : Context) (c : Checker) (a b : Ty) (j k : Kind) (u : Ty) : Prop
    extends cx.Joins c j k u where
  below : cx.Compares c a b true → u = b
  beyond : cx.Compares c a b false → cx.Compares c b a true → u = a

section
variable (traced : cx.Traced c fun _ => True) (ground : cx.Grounded) (spelled : cx.Spelled)
include traced ground spelled

/-- One round: one of the types is below the other, or both go a step up. -/
theorem Traced.lubRound (coherent : cx.Coherent c) (m : Nat)
    (left : Steps (cx.Rises c) n a (.intrinsic j)) (right : Steps (cx.Rises c) n b (.intrinsic k))
    (later : ∀ a' b' c₁, c.Recalls c₁ → cx.Coherent c₁ → cx.Rises c a a' → cx.Rises c b b' →
      cx.Compares c a b false → cx.Compares c b a false → ∃ u c₂,
        (Resolver.ofDepth cx (m + 1)).lubAfter n a b a' b' c₁ = .ok (u, c₂) ∧ cx.Joins c j k u) :
    ∃ u c₁, (Resolver.ofDepth cx (m + 1)).lubWithin (n + 1) a b c = .ok (u, c₁) ∧
      cx.Found c a b j k u := by
  have orderly := coherent.orderly
  obtain ⟨below, c₁, asks, recalls, coherent₁, compares⟩ :=
    traced.answer ground spelled coherent m trivial (left.not_spins orderly) b
  have first : (Resolver.ofDepth cx (m + 1)).lubWithin (n + 1) a b c =
      (if below then return b
        else (Resolver.ofDepth cx (m + 1)).lubTurned n a b : Check Ty) c₁ := Check.bind_eq asks
  cases below with
  | true =>
    exact ⟨b, c₁, first, .right orderly left right compares, fun _ => rfl,
      fun no => absurd compares (no.apart orderly)⟩
  | false =>
    have calm : ¬c₁.Spins b := recalls.spins ▸ right.not_spins orderly
    obtain ⟨beyond, c₂, asks', recalls', coherent₂, compares'⟩ :=
      (traced.kept recalls).answer ground spelled coherent₁ m trivial calm a
    replace compares' := recalls.compares compares'
    have second := first.trans (Check.bind_eq (f := fun beyond : Bool => (if beyond then return a
      else (Resolver.ofDepth cx (m + 1)).lubClimb n a b : Check Ty)) asks')
    cases beyond with
    | true =>
      exact ⟨a, c₂, second, (Joins.right orderly right left compares').symm,
        fun yes => absurd yes (compares.apart orderly), fun _ _ => rfl⟩
    | false =>
      have both := recalls.trans recalls'
      obtain ⟨a', widens, _, rises⟩ := (traced.kept both).widen m (t := a) trivial
      obtain ⟨b', widens', _, rises'⟩ := (traced.kept both).widen m (t := b) trivial
      rw [both.rises] at rises rises'
      obtain ⟨u, c₃, climbed, joins⟩ :=
        later a' b' c₂ both coherent₂ rises rises' compares compares'
      refine ⟨u, c₃, second.trans ?_, joins, fun yes => absurd yes (compares.apart orderly),
        fun _ yes => absurd yes (compares'.apart orderly)⟩
      exact ((Check.bind_eq widens).trans (Check.bind_eq widens')).trans climbed

/-- The search ends: after as many steps as lead to kinds, both types are kinds, and then one is
below the other or `Any` is the answer. -/
theorem Traced.lubWithin (coherent : cx.Coherent c) (m : Nat)
    (left : Steps (cx.Rises c) n a (.intrinsic j)) (right : Steps (cx.Rises c) n b (.intrinsic k)) :
    ∃ u c₁, (Resolver.ofDepth cx (m + 1)).lubWithin (n + 1) a b c = .ok (u, c₁) ∧
      cx.Found c a b j k u := by
  induction n generalizing a b c with
  | zero =>
    refine traced.lubRound ground spelled coherent m left right
      fun a' b' c₁ _ _ rises rises' apart apart' => ?_
    cases left
    cases right
    cases rises
    cases rises'
    exact Joins.still coherent.orderly (.none _) (.none _) rfl rfl apart apart'
  | succ n ih =>
    refine traced.lubRound ground spelled coherent m left right
      fun a' b' c₁ recalls coherent₁ rises rises' apart apart' => ?_
    by_cases still : a' = a ∧ b' = b
    · obtain ⟨rfl, rfl⟩ := still
      exact Joins.still coherent.orderly left right rises rises' apart apart'
    · rw [Resolver.lubAfter, if_neg still]
      cases left with
      | step up rest =>
      cases right with
      | step up' rest' =>
      cases up.unique coherent.orderly rises
      cases up'.unique coherent.orderly rises'
      rw [← recalls.rises] at rest rest'
      obtain ⟨u, c₂, climbed, found⟩ := ih (traced.kept recalls) coherent₁ rest rest'
      exact ⟨u, c₂, climbed, found.least.imp fun _ => Exists.imp fun _ => And.imp_left
        (recalls.rises cx ▸ ·), found.above⟩

end

theorem Compares.exists (left : Steps (cx.Rises c) n a (.intrinsic j)) (t : Ty) :
    ∃ x, cx.Compares c a t x := by
  cases t with
  | intrinsic k => exact ⟨_, .base left k⟩
  | _ => exact ⟨_, .singleton rfl⟩

namespace Found

variable (found : cx.Found c a b j k u) (orderly : cx.Orderly c)
  (left : Steps (cx.Rises c) n a (.intrinsic j)) (right : Steps (cx.Rises c) n b (.intrinsic k))
include found orderly left right

/-- One of the types is below the other, or neither is. -/
theorem comparable :
    (cx.Compares c a b true ∧ u = b) ∨ (cx.Compares c b a true ∧ u = a) ∨
      (¬cx.Compares c a b true ∧ ¬cx.Compares c b a true) := by
  obtain ⟨x, below⟩ := Compares.exists left b
  obtain ⟨y, beyond⟩ := Compares.exists right a
  cases x with
  | true => exact .inl ⟨below, found.below below⟩
  | false =>
    cases y with
    | true => exact .inr (.inl ⟨beyond, found.beyond below beyond⟩)
    | false => exact .inr (.inr ⟨below.apart orderly, beyond.apart orderly⟩)

theorem below_common {t : Ty} (first : cx.Compares c a t true) (second : cx.Compares c b t true) :
    cx.Compares c u t true := by
  rcases found.comparable orderly left right with ⟨_, rfl⟩ | ⟨_, rfl⟩ | ⟨apart, apart'⟩
  · exact second
  · exact first
  · cases single : t.isSingleton with
    | true => exact absurd (first.comparable single second) (not_or.mpr ⟨apart, apart'⟩)
    | false =>
      obtain ⟨l, rfl⟩ := Ty.exists_kind single
      obtain ⟨_, i, base, least⟩ := found.least
      have least := least l (first.of_base orderly left).symm (second.of_base orderly right).symm
      exact least ▸ .base base l

/-- What is found is above both types, unless they are not comparable and it is a singleton. -/
theorem above_iff :
    (cx.Compares c a u true ∧ cx.Compares c b u true) ↔
      (cx.Compares c a b true ∨ cx.Compares c b a true ∨ u.isSingleton = false) := by
  rcases found.comparable orderly left right with ⟨below, rfl⟩ | ⟨beyond, rfl⟩ | ⟨apart, apart'⟩
  · exact ⟨fun _ => .inl below, fun _ => ⟨below, .refl cx c u⟩⟩
  · exact ⟨fun _ => .inr (.inl beyond), fun _ => ⟨.refl cx c u, beyond⟩⟩
  · constructor
    · rintro ⟨first, second⟩
      cases single : u.isSingleton with
      | true => exact absurd (first.comparable single second) (not_or.mpr ⟨apart, apart'⟩)
      | false => exact .inr (.inr rfl)
    · rintro (below | beyond | kind)
      · exact absurd below apart
      · exact absurd beyond apart'
      · obtain ⟨i, rfl⟩ := Ty.exists_kind kind
        obtain ⟨above, above'⟩ := found.above i rfl
        exact ⟨above ▸ .base left i, above' ▸ .base right i⟩

end Found

/-- Where widening ends, the search answers, with what is below every common supertype. It is above
both types if they are comparable, or if it is a kind. -/
theorem Traced.lub (traced : cx.Traced c fun _ => True) (ground : cx.Grounded)
    (spelled : cx.Spelled) (coherent : cx.Coherent c) (m : Nat)
    (left : ∃ n, Steps (cx.Rises c) n a (.intrinsic j))
    (right : ∃ n, Steps (cx.Rises c) n b (.intrinsic k)) :
    let r := Resolver.ofDepth cx (m + 1)
    ∃ u c₁, r.lub a b c = .ok (u, c₁) ∧
      (∀ t, r.Affirms c a t → r.Affirms c b t → r.Affirms c u t) ∧
      (r.Affirms c a u ∧ r.Affirms c b u ↔
        r.Affirms c a b ∨ r.Affirms c b a ∨ u.isSingleton = false) := by
  intro r
  have orderly := coherent.orderly
  have many : cx.symbols.size < cx.symbols.size + 2 := Nat.lt_add_of_pos_right Nat.two_pos
  obtain ⟨_, left⟩ := left
  obtain ⟨_, right⟩ := right
  replace left := traced.ends orderly trivial left many
  replace right := traced.ends orderly trivial right many
  obtain ⟨u, c₁, run, found⟩ := traced.lubWithin ground spelled coherent m left right
  obtain ⟨_, i, base, _⟩ := found.least
  have closed : ∀ {s t : Ty} {n l}, Steps (cx.Rises c) n s (.intrinsic l) →
      (r.Affirms c s t ↔ cx.Compares c s t true) := fun steps =>
    traced.affirms_iff ground spelled coherent m trivial (steps.not_spins orderly)
  have asked : r.lub a b c = .ok (u, c₁) := by
    rw [Resolver.lub, Resolver.chainBound, Resolver.toContext_ofDepth]
    exact run
  refine ⟨u, c₁, asked, fun t first second => ?_, ?_⟩
  · rw [closed base]
    exact found.below_common orderly left right ((closed left).mp first) ((closed right).mp second)
  · rw [closed left, closed right, closed left, closed right]
    exact found.above_iff orderly left right

end Context

/-! ### Programs without errors -/

/-- After a check without an error and whatever else is asked, two types whose widening ends have an
upper bound found. It is below every type that both are subtypes of, and both are subtypes of it if
and only if one of them is a subtype of the other or it is no singleton. -/
theorem Draft.upper_bound_least (d : Draft) (options : Options) (q : Checked)
    (passes : d.Passes options q) (rs : List Request) {log : List (Request × Option Nat)}
    {ts : Array Ty} {c : Checker}
    (run : ((d.context options).serveAll rs).run #[] q.checker = .ok ((log, ts), c)) (a b : Ty)
    {j k : Kind} (left : (d.context options).Based c a j)
    (right : (d.context options).Based c b k) :
    let r := (d.context options).resolver
    ∃ u c₁, r.lub a b c = .ok (u, c₁) ∧
      (∀ t, r.Affirms c a t → r.Affirms c b t → r.Affirms c u t) ∧
      (r.Affirms c a u ∧ r.Affirms c b u ↔
        r.Affirms c a b ∨ r.Affirms c b a ∨ u.isSingleton = false) := by
  have ground := d.grounded options
  have spelled := d.spelled options
  obtain ⟨hosts, later, _⟩ :=
    Context.serveAll_enters ground spelled rs passes.hosts log ts c run
  have traced := passes.traced later
  exact traced.lub ground spelled hosts.coherent _ (left.steps traced trivial)
    (right.steps traced trivial)

/-- `y.type` and `x.type`, which widen to `x.type` and 5, have `Int` as their least upper bound. -/
theorem Draft.upper_bound_least_tower : ∃ q log ts c u c₁, tower.Passes default q ∧
    ((tower.context default).serveAll [.pathType 4, .evaluate]).run #[] q.checker =
      .ok ((log, ts), c) ∧
    (tower.context default).Based c (.path 3) .int ∧
    (tower.context default).Based c (.path 2) .int ∧
    (tower.context default).resolver.lub (.path 3) (.path 2) c = .ok (u, c₁) ∧
    (tower.context default).resolver.Affirms c (.path 3) u ∧
    (tower.context default).resolver.Affirms c (.path 2) u := by
  have served : ((tower.context default).checked.toOption.any fun q => !q.hasErrors &&
      match ((tower.context default).serveAll [.pathType 4, .evaluate]).run #[] q.checker with
      | .error _ => false
      | .ok (_, c) =>
        (match (tower.context default).resolver.climb 3 (.path 3) c with
          | .error _ => false
          | .ok (u, _) => u == .intrinsic .int) &&
        (match (tower.context default).resolver.climb 2 (.path 2) c with
          | .error _ => false
          | .ok (u, _) => u == .intrinsic .int) &&
        match (tower.context default).resolver.lub (.path 3) (.path 2) c with
          | .error _ => false
          | .ok (u, _) => !u.isSingleton) = true := by decide +kernel
  cases checked : (tower.context default).checked with
  | error e =>
    rw [checked] at served
    cases served
  | ok q =>
    simp only [checked, Except.toOption, Option.any_some, Bool.and_eq_true,
      Bool.not_eq_true'] at served
    obtain ⟨clean, served⟩ := served
    have passes : tower.Passes default q := ⟨checked, clean⟩
    split at served
    · cases served
    next ends c run =>
    obtain ⟨log, ts⟩ := ends
    simp only [Bool.and_eq_true] at served
    obtain ⟨⟨left, right⟩, kind⟩ := served
    split at left
    · cases left
    next up c' climbs =>
    cases eq_of_beq left
    split at right
    · cases right
    next up' c₁ climbs' =>
    cases eq_of_beq right
    have based : (tower.context default).Based c (.path 3) .int := ⟨_, _, climbs⟩
    have based' : (tower.context default).Based c (.path 2) .int := ⟨_, _, climbs'⟩
    obtain ⟨u, c₂, found, _, above⟩ :=
      upper_bound_least tower default q passes _ run (.path 3) (.path 2) based based'
    rw [found] at kind
    exact ⟨q, log, ts, c, u, c₂, passes, run, based, based', found,
      above.mpr (.inr (.inr (by simpa using kind)))⟩

/-- A draft with two bindings of one singleton type, whose own singletons are the results of
functions. -/
def Draft.siblings : Draft where
  text := "val y: 5 = 5 val z: 5 = 5 def f(): y.type = y def g(): z.type = z"
  stmts :=
    [.val ⟨[], .val, ⟨[], "y"⟩, some (.lit [] ⟨[], .int 5⟩ false), .lit ⟨[], .int 5⟩⟩,
      .val ⟨[], .val, ⟨[], "z"⟩, some (.lit [] ⟨[], .int 5⟩ false), .lit ⟨[], .int 5⟩⟩,
      .fn ⟨[], ⟨[], "f"⟩, [], some (.singleton [] (.name ⟨[], "y"⟩)), .name ⟨[], "y"⟩⟩,
      .fn ⟨[], ⟨[], "g"⟩, [], some (.singleton [] (.name ⟨[], "z"⟩)), .name ⟨[], "z"⟩⟩]

/-- The bound of `y.type` and `z.type` that the check leads to is not above `y.type`. -/
theorem Draft.siblings_join :
    ((siblings.context default).checked.toOption.any fun q => !q.hasErrors &&
      (q.checker.types.contains (.path 2) && q.checker.types.contains (.path 3) &&
        (match (siblings.context default).resolver.climb 2 (.path 2) q.checker with
          | .error _ => false
          | .ok (t, _) => t == .intrinsic .int) &&
        (match (siblings.context default).resolver.climb 2 (.path 3) q.checker with
          | .error _ => false
          | .ok (t, _) => t == .intrinsic .int) &&
        match (siblings.context default).resolver.lub (.path 2) (.path 3) q.checker with
        | .error _ => false
        | .ok (u, _) =>
          match (siblings.context default).resolver.isSubtype (.path 2) u q.checker with
          | .error _ => false
          | .ok (b, _) => !b)) = true := by
  decide +kernel

/-- For `y.type` and `z.type`, which both widen to 5, the singleton of 5 is found, but neither is a
subtype of it. -/
theorem Draft.upper_bound_not_above :
    ¬∀ (d : Draft) (options : Options) (q : Checked), d.Passes options q →
      ∀ a ∈ q.checker.types, ∀ b ∈ q.checker.types, a ≠ .error → b ≠ .error →
      ∀ j k, (d.context options).Based q.checker a j → (d.context options).Based q.checker b k →
      ∀ u c, (d.context options).resolver.lub a b q.checker = .ok (u, c) →
        (d.context options).resolver.Affirms q.checker a u ∧
        (d.context options).resolver.Affirms q.checker b u := by
  have refuted := siblings_join
  intro always
  cases checked : (siblings.context default).checked with
  | error e =>
    rw [checked] at refuted
    cases refuted
  | ok q =>
    simp only [checked, Except.toOption, Option.any_some, Bool.and_eq_true,
      Bool.not_eq_true'] at refuted
    obtain ⟨clean, ⟨⟨⟨entered, entered'⟩, left⟩, right⟩, refuted⟩ := refuted
    split at left
    · cases left
    next up c climbs =>
    cases eq_of_beq left
    split at right
    · cases right
    next up' c' climbs' =>
    cases eq_of_beq right
    split at refuted
    · cases refuted
    next u c₁ found =>
    obtain ⟨⟨c₂, below⟩, _⟩ := always siblings default q ⟨checked, clean⟩ (.path 2)
      (Array.contains_iff_mem.mp entered) (.path 3) (Array.contains_iff_mem.mp entered')
      Ty.noConfusion Ty.noConfusion .int .int ⟨_, _, climbs⟩ ⟨_, _, climbs'⟩ u c₁ found
    rw [below] at refuted
    cases refuted

end Solo

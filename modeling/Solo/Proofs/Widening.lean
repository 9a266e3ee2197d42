import Mathlib.Data.List.Chain
import Solo.Proofs.Moments

/-!
# Widening

A singleton widens to the declared type of its binding, which may be a singleton again. The
promises of a state say where this leads. More steps than there are symbols lead round in a
circle of bindings; only then does widening not end, and only through a circle of several
bindings is subtyping endless.
-/

namespace Solo

/-! ### Demands that decide an action -/

/-- An action comes to a demand in a state and ends with the fault that the demand ends with. -/
def Heeds {α : Type} (act : Oracle → Check α) (o : Oracle) (c : Checker) (q : Demand)
    (s : Checker) : Prop :=
  ∀ o' : Oracle, (∀ p t, ¬(p = q ∧ t = s) → o' p t = o p t) →
    ∀ e, o' q s = .error e → act o' c = .error e

/-- An action passes on the faults of all its demands. -/
def Candid (o : Oracle) {α : Type} (act : Oracle → Check α) : Prop :=
  ∀ c q s, Asks act o c q s → Heeds act o c q s

namespace Heeds

variable {α β : Type} {o : Oracle} {c c₁ s : Checker} {q : Demand} {act : Oracle → Check α}

theorem asks (heeds : Heeds act o c q s) : Asks act o c q s := by
  classical
  have differs : ∀ e, act o c ≠ .error e → Asks act o c q s := by
    intro e other
    let o' : Oracle := fun p t => if p = q ∧ t = s then .error e else o p t
    have same : ∀ p t, ¬(p = q ∧ t = s) → o' p t = o p t := fun p t apart => if_neg apart
    refine ⟨o', same, ?_⟩
    rw [heeds o' same e (if_pos ⟨rfl, rfl⟩)]
    exact Ne.symm other
  by_cases endless : act o c = .error .endless
  · exact differs (.rewritten 0) (by rw [endless]; nofun)
  · exact differs .endless endless

theorem self (o : Oracle) (q : Demand) (s : Checker) : Heeds (fun o => o q) o s q s :=
  fun _ _ _ fault => fault

theorem congr {act' : Oracle → Check α} (heeds : Heeds act o c q s)
    (same : ∀ o', act' o' c = act o' c) : Heeds act' o c q s :=
  fun o' agrees e fault => (same o').trans (heeds o' agrees e fault)

/-- The demands of what an action does first, in whatever state it does it. -/
theorem around {body : Oracle → Check β} {finish : β × Checker → Except Fault (α × Checker)}
    (heeds : Heeds body o c₁ q s) (same : ∀ o', act o' c = (body o' c₁).bind finish) :
    Heeds act o c q s := by
  intro o' agrees e fault
  rw [same, heeds o' agrees e fault]
  rfl

theorem first {f : α → Oracle → Check β} (heeds : Heeds act o c q s) :
    Heeds (fun o => act o >>= fun x => f x o) o c q s := by
  intro o' agrees e fault
  exact Check.bind_fault (heeds o' agrees e fault)

/-- The demands of what an action does next, after steps that pass faults on. -/
theorem next {f : α → Oracle → Check β} {x : α} (candid : Candid o act)
    (run : act o c = .ok (x, c₁)) (heeds : Heeds (f x) o c₁ q s) :
    Heeds (fun o => act o >>= fun x => f x o) o c q s := by
  intro o' agrees e fault
  by_cases asks : Asks act o c q s
  · exact Check.bind_fault (candid c q s asks o' agrees e fault)
  · have same : act o' c = act o c := by
      by_contra differs
      exact asks ⟨o', agrees, differs⟩
    change (act o' >>= fun x => f x o') c = _
    rw [Check.bind_apply, same, run]
    exact heeds o' agrees e fault

end Heeds

theorem Candid.compositional (cx : Context) (o : Oracle) : Compositional cx (Candid o) where
  still _ _ _ _ asks := asks.not_still.elim
  bind first rest c q s asks := by
    rcases asks.bind with early | ⟨x, c₁, run, late⟩
    · exact (first c q s early).first
    · exact (rest x c₁ q s late).next first run
  ask q _ c p s asks := by
    obtain ⟨rfl, rfl⟩ := asks.ask
    exact .self o q c

theorem Candid.thorough (cx : Context) (o : Oracle) : Thorough cx (Candid o) :=
  have comp := Candid.compositional cx o
  have endless : ∀ {α : Type}, Candid o fun _ => (throw .endless : Check α) :=
    fun _ _ _ asks => asks.not_still.elim
  { comp with
    isSubtype := comp.isSubtype endless
    lub := comp.lub endless }

/-! ### Steps up -/

/-- A number of steps of a relation. -/
inductive Steps (r : Ty → Ty → Prop) : Nat → Ty → Ty → Prop
  | none (t : Ty) : Steps r 0 t t
  | step {n : Nat} {s t u : Ty} (first : r s t) (rest : Steps r n t u) : Steps r (n + 1) s u

theorem Steps.imp {r r' : Ty → Ty → Prop} (sub : ∀ s t, r s t → r' s t) {n : Nat} {s t : Ty}
    (steps : Steps r n s t) : Steps r' n s t := by
  induction steps with
  | none t => exact .none t
  | step first _ ih => exact .step (sub _ _ first) ih

/-- The declared type of a binding is the singleton of another one. -/
def Checker.Links (c : Checker) (x y : SymbolId) : Prop := c.symbolTypes.find? x = some (.path y)

/-- The declared types of several bindings lead round in a circle. -/
def Checker.Circular (c : Checker) : Prop :=
  ∃ x, Relation.TransGen (fun x y => c.Links x y ∧ x ≠ y) x x

/-- The declared types of bindings lead from a type into a circle, if only that of one binding whose
type is its own singleton. -/
def Checker.Spins (c : Checker) (t : Ty) : Prop :=
  ∃ x y, t = .path x ∧ Relation.ReflTransGen c.Links x y ∧ Relation.TransGen c.Links y y

namespace Context

variable (cx : Context)

/-- What a type is promised to widen to. -/
def Rises (c : Checker) : Ty → Ty → Prop
  | .literal v, u => u = .intrinsic v.kind
  | .path x, u => cx.TypePromised c x u
  | .intrinsic k, u => u = .intrinsic k

/-- A step that leads to another type. -/
def Ascends (c : Checker) (s t : Ty) : Prop := cx.Rises c s t ∧ t ≠ s

end Context

section
variable {cx : Context} {c c₁ : Checker} {s t u : Ty} {n : Nat}

theorem Context.Rises.kept (rises : cx.Rises c s t) (follows : cx.Follows c c₁) :
    cx.Rises c₁ s t := by
  cases s with
  | path x => exact follows.type rises
  | _ => exact rises

theorem Context.Rises.unique (orderly : cx.Orderly c) (first : cx.Rises c s t)
    (second : cx.Rises c s u) : t = u := by
  cases s with
  | path x => exact orderly.type_unique first second
  | _ => exact first.trans second.symm

theorem Context.Ascends.kept (ascends : cx.Ascends c s t) (follows : cx.Follows c c₁) :
    cx.Ascends c₁ s t :=
  ⟨ascends.1.kept follows, ascends.2⟩

theorem Context.Ascends.single (ascends : cx.Ascends c s t) : s.isSingleton = true := by
  cases s with
  | intrinsic k => exact absurd ascends.1 ascends.2
  | _ => rfl

/-- Only the singleton of a binding leads to a singleton, and the binding's type is recorded. -/
theorem Context.Rises.path (rises : cx.Rises c s t) (single : t.isSingleton = true) :
    ∃ x, s = .path x ∧ c.symbolTypes.find? x = some t := by
  cases s with
  | literal v =>
    cases rises
    cases single
  | intrinsic k =>
    cases rises
    cases single
  | path x =>
    rcases rises with found | ⟨rfl, _⟩
    · exact ⟨x, rfl, found⟩
    · cases single

theorem Context.typable_lt {x : SymbolId} (typable : cx.Typable x) : x < cx.symbols.size := by
  by_contra large
  exact typable.2 (by rw [BoundProgram.WellBound.symbol_of_large (Nat.not_lt.mp large)]; rfl)

/-! ### Circles -/

theorem Steps.path {r : Ty → Ty → Prop} (sub : ∀ s t, r s t → cx.Rises c s t)
    (steps : Steps r (n + 1) s t) (single : t.isSingleton = true) :
    ∃ x xs, s = .path x ∧ xs.length = n ∧
      (x :: xs).IsChain (fun x y => r (.path x) (.path y)) ∧
      ∀ y ∈ x :: xs, (c.symbolTypes.find? y).isSome = true := by
  induction n generalizing s with
  | zero =>
    cases steps with
    | step first rest =>
      cases rest
      obtain ⟨x, rfl, found⟩ := (sub _ _ first).path single
      exact ⟨x, [], rfl, rfl, .singleton x, by simp [found]⟩
  | succ n ih =>
    cases steps with
    | step first rest =>
      obtain ⟨y, ys, rfl, length, chain, recorded⟩ := ih rest
      obtain ⟨x, rfl, found⟩ := (sub _ _ first).path rfl
      refine ⟨x, y :: ys, rfl, by rw [List.length_cons, length], .cons_cons first chain, ?_⟩
      intro z member
      rcases List.mem_cons.mp member with rfl | later
      · rw [found]
        rfl
      · exact recorded z later

/-- A chain with a repetition has a circle, which its first member leads to. -/
theorem exists_circle {r : SymbolId → SymbolId → Prop} {x : SymbolId} {xs : List SymbolId}
    (chain : (x :: xs).IsChain r) (repeated : ¬(x :: xs).Nodup) :
    ∃ y, Relation.ReflTransGen r x y ∧ Relation.TransGen r y y := by
  by_contra none
  have before : (x :: xs).Pairwise (Relation.TransGen r) :=
    (chain.imp fun _ _ => .single).pairwise
  have reached : ∀ y ∈ x :: xs, Relation.ReflTransGen r x y := by
    intro y member
    rcases List.mem_cons.mp member with rfl | later
    · exact .refl
    · exact (List.rel_of_pairwise_cons before later).to_reflTransGen
  refine repeated (before.imp_of_mem fun {y z} member _ later same => none ⟨y, reached y member, ?_⟩)
  exact same ▸ later

/-- More steps than there are symbols lead through a circle. -/
theorem Steps.circle {r : Ty → Ty → Prop} (sub : ∀ s t, r s t → cx.Rises c s t)
    (orderly : cx.Orderly c) (steps : Steps r n s t) (single : t.isSingleton = true)
    (many : cx.symbols.size < n) :
    ∃ x y, s = .path x ∧ Relation.ReflTransGen (fun x y => r (.path x) (.path y)) x y ∧
      Relation.TransGen (fun x y => r (.path x) (.path y)) y y := by
  obtain ⟨m, rfl⟩ := Nat.exists_eq_succ_of_ne_zero (Nat.ne_zero_of_lt many)
  obtain ⟨x, xs, rfl, length, chain, recorded⟩ := steps.path sub single
  have repeated : ¬(x :: xs).Nodup := by
    intro nodup
    have inside : x :: xs ⊆ List.range cx.symbols.size := by
      intro y member
      obtain ⟨t, found⟩ := Option.isSome_iff_exists.mp (recorded y member)
      exact List.mem_range.mpr (cx.typable_lt (orderly.typable y t found))
    have fits := nodup.length_le_of_subset inside
    rw [List.length_cons, length, List.length_range] at fits
    exact absurd fits (Nat.not_le.mpr many)
  obtain ⟨y, reached, circle⟩ := exists_circle chain repeated
  exact ⟨x, y, rfl, reached, circle⟩

theorem Context.Rises.links {x y : SymbolId} (rises : cx.Rises c (.path x) (.path y)) :
    c.Links x y := by
  obtain ⟨z, same, found⟩ := rises.path rfl
  cases same
  exact found

theorem Steps.spins (orderly : cx.Orderly c) (steps : Steps (cx.Rises c) n s t)
    (single : t.isSingleton = true) (many : cx.symbols.size < n) : c.Spins s := by
  obtain ⟨x, y, same, reached, circle⟩ := steps.circle (fun _ _ => id) orderly single many
  exact ⟨x, y, same, Relation.ReflTransGen.mono (fun _ _ => Context.Rises.links) _ _ reached,
    Relation.TransGen.mono (fun _ _ => Context.Rises.links) _ _ circle⟩

theorem Steps.circular (orderly : cx.Orderly c) (steps : Steps (cx.Ascends c) n s t)
    (single : t.isSingleton = true) (many : cx.symbols.size < n) : c.Circular := by
  obtain ⟨x, y, _, _, circle⟩ := steps.circle (fun _ _ => And.left) orderly single many
  refine ⟨y, Relation.TransGen.mono (fun a b ascends => ?_) _ _ circle⟩
  exact ⟨ascends.1.links, fun same => ascends.2 (by rw [same])⟩

/-- Steps from one singleton to another follow the declared types. -/
theorem Steps.reaches {y : SymbolId} (steps : Steps (cx.Rises c) n s (.path y)) :
    ∃ x, s = .path x ∧ Relation.ReflTransGen c.Links x y := by
  generalize goal : Ty.path y = t at steps
  induction steps with
  | none t => exact ⟨y, goal.symm, .refl⟩
  | step first _ ih =>
    obtain ⟨z, rfl, reached⟩ := ih goal
    obtain ⟨x, rfl, found⟩ := first.path rfl
    exact ⟨x, rfl, .head found reached⟩

end

/-! ### Widening again and again -/

def Resolver.climb (r : Resolver) : Nat → Ty → Check Ty
  | 0, t => return t
  | n + 1, t => do
    let up ← r.widen t
    r.climb n up

section
variable {cx : Context} {o : Oracle} {c c₁ : Checker} {s t u : Ty} {n : Nat}

namespace Faithful

variable (faithful : Faithful cx o)
include faithful

theorem widen (orderly : cx.Orderly c) (run : (cx.asking o).widen t c = .ok (u, c₁)) :
    cx.Follows c c₁ ∧ cx.Rises c₁ t u := by
  cases t with
  | path x =>
    obtain ⟨follows, _, promised⟩ := faithful.meets (.typeOf x) trivial c orderly u c₁ run
    exact ⟨follows, promised⟩
  | literal v =>
    cases run
    exact ⟨.refl orderly, rfl⟩
  | intrinsic k =>
    cases run
    exact ⟨.refl orderly, rfl⟩

theorem climb (orderly : cx.Orderly c) (run : (cx.asking o).climb n t c = .ok (u, c₁)) :
    cx.Follows c c₁ ∧ Steps (cx.Rises c₁) n t u := by
  induction n generalizing t c with
  | zero =>
    cases run
    exact ⟨.refl orderly, .none u⟩
  | succ n ih =>
    obtain ⟨up, c₂, first, rest⟩ := Check.bind_ok run
    obtain ⟨follows, rises⟩ := faithful.widen orderly first
    obtain ⟨later, steps⟩ := ih follows.orderly rest
    exact ⟨follows.trans later, .step (rises.kept later) steps⟩

/-- More steps than there are symbols lead to no singleton, unless they go round in a circle. -/
theorem climb_ends (orderly : cx.Orderly c) (run : (cx.asking o).climb n t c = .ok (u, c₁))
    (many : cx.symbols.size < n) : u.isSingleton = false ∨ c₁.Spins t := by
  obtain ⟨follows, steps⟩ := faithful.climb orderly run
  cases single : u.isSingleton with
  | false => exact .inl rfl
  | true => exact .inr (steps.spins follows.orderly single many)

/-- How the base of a type is found: it is what some steps lead to, or the steps stand still at a
singleton, or there are too many. -/
theorem baseWithin (orderly : cx.Orderly c)
    (run : (cx.asking o).baseWithin n t c = .ok (u, c₁)) :
    cx.Follows c c₁ ∧
      ((∃ k ≤ n, (cx.asking o).climb k t c = .ok (u, c₁) ∧ u.isSingleton = false) ∨
        (∃ k v, Steps (cx.Rises c₁) k t v ∧ v.isSingleton = true ∧ cx.Rises c₁ v v) ∨
        ∃ v, Steps (cx.Rises c₁) n t v ∧ v.isSingleton = true) := by
  induction n generalizing t c with
  | zero =>
    rw [Resolver.baseWithin] at run
    split at run
    · next single =>
      obtain ⟨w, c₂, first, rest⟩ := Check.bind_ok run
      cases rest
      exact ⟨(faithful.widen orderly first).1, .inr (.inr ⟨t, .none t, single⟩)⟩
    · next other =>
      cases run
      exact ⟨.refl orderly, .inl ⟨0, Nat.le_refl 0, rfl, (Bool.not_eq_true _).mp other⟩⟩
  | succ n ih =>
    rw [Resolver.baseWithin] at run
    split at run
    · next single =>
      obtain ⟨next, c₂, first, rest⟩ := Check.bind_ok run
      obtain ⟨follows, rises⟩ := faithful.widen orderly first
      split at rest
      · next still =>
        cases rest
        exact ⟨follows, .inr (.inl ⟨0, t, .none t, single, still ▸ rises⟩)⟩
      · obtain ⟨later, ⟨k, few, climbs, base⟩ | ⟨k, v, steps, stands⟩ | ⟨v, steps, single⟩⟩ :=
          ih follows.orderly rest
        · refine ⟨follows.trans later, .inl ⟨k + 1, Nat.succ_le_succ few, ?_, base⟩⟩
          rw [Resolver.climb, Check.bind_apply, first]
          exact climbs
        · exact ⟨follows.trans later,
            .inr (.inl ⟨k + 1, v, .step (rises.kept later) steps, stands⟩)⟩
        · exact ⟨follows.trans later, .inr (.inr ⟨v, .step (rises.kept later) steps, single⟩)⟩
    · next other =>
      cases run
      exact ⟨.refl orderly, .inl ⟨0, Nat.zero_le _, rfl, (Bool.not_eq_true _).mp other⟩⟩

/-- Without a circle, the base is what the steps lead to. -/
theorem base_ends (orderly : cx.Orderly c)
    (run : (cx.asking o).baseWithin (cx.symbols.size + 1) t c = .ok (u, c₁)) :
    (∃ k ≤ cx.symbols.size + 1, (cx.asking o).climb k t c = .ok (u, c₁) ∧
      u.isSingleton = false) ∨ c₁.Spins t := by
  obtain ⟨follows, found | ⟨k, v, steps, single, stands⟩ | ⟨v, steps, single⟩⟩ :=
    faithful.baseWithin orderly run
  · exact .inl found
  · obtain ⟨y, rfl, found⟩ := stands.path single
    obtain ⟨x, rfl, reached⟩ := steps.reaches
    exact .inr ⟨x, y, rfl, reached, .single found⟩
  · exact .inr (steps.spins follows.orderly single (Nat.lt_succ_self _))

end Faithful

/-- On the way into a circle, the next type leads into it as well. -/
theorem Checker.Spins.next (spins : c.Spins t) :
    ∃ x u, t = .path x ∧ c.symbolTypes.find? x = some u ∧ c.Spins u := by
  obtain ⟨x, y, rfl, reached, circle⟩ := spins
  have link : ∃ z, c.Links x z ∧ Relation.ReflTransGen c.Links z y := by
    rcases Relation.ReflTransGen.cases_head reached with rfl | first
    · exact Relation.TransGen.head'_iff.mp circle
    · exact first
  obtain ⟨z, link, later⟩ := link
  exact ⟨x, .path z, rfl, link, z, y, rfl, later, circle⟩

/-- Where the declared types lead into a circle, no number of steps leads out of it. -/
theorem Checker.Spins.climb (spins : c.Spins t) (m n : Nat) :
    ∃ u, (cx.asking (cx.oracle (m + 1))).climb n t c = .ok (u, c) ∧ u.isSingleton = true := by
  induction n generalizing t with
  | zero =>
    obtain ⟨x, _, rfl, _⟩ := spins
    exact ⟨.path x, rfl, rfl⟩
  | succ n ih =>
    obtain ⟨x, up, rfl, found, later⟩ := spins.next
    obtain ⟨u, climbs, single⟩ := ih later
    refine ⟨u, ?_, single⟩
    rw [Resolver.climb, Check.bind_apply]
    have widens : (cx.asking (cx.oracle (m + 1))).widen (.path x) c = .ok (up, c) :=
      (cx.asking (cx.oracle m)).typeOfSymbol_known found
    rw [widens]
    exact climbs

/-- What widens to a kind does not lead into a circle. -/
theorem Steps.not_spins {k : Kind} (orderly : cx.Orderly c)
    (steps : Steps (cx.Rises c) n t (.intrinsic k)) : ¬c.Spins t := by
  intro spins
  induction n generalizing t with
  | zero =>
    cases steps
    obtain ⟨x, _, same, _⟩ := spins.next
    cases same
  | succ n ih =>
    obtain ⟨x, up, rfl, found, later⟩ := spins.next
    cases steps with
    | step rises rest =>
      cases rises.unique orderly (.inl found)
      exact ih rest later

end

/-! ### Subtypes -/

namespace Resolver

def keepSubtype (s t : Ty) (b : Bool) : Check Bool := do
  modify fun c => { c with subtypes := c.subtypes.insert (s, t) b }
  return b

def climbSubtype (r : Resolver) (n : Nat) (s t up : Ty) : Check Bool :=
  if up = s then keepSubtype s t false
  else do
    let b ← r.isSubtypeWithin n up t
    keepSubtype s t b

/-- What is done about a question that is not answered at once. -/
def searchSubtype (r : Resolver) (n : Nat) : Ty → Ty → Check Bool
  | .intrinsic j, .intrinsic k => keepSubtype (.intrinsic j) (.intrinsic k) (j.isSubkind k)
  | .intrinsic j, t => keepSubtype (.intrinsic j) t false
  | s, .intrinsic k => do
    let up ← r.widen s
    r.climbSubtype n s (.intrinsic k) up
  | s, t => keepSubtype s t false

variable {r : Resolver} {n : Nat} {s t : Ty} {c : Checker}

/-- A question is answered at once, or it leads to a search. -/
theorem isSubtypeWithin_cases (n : Nat) (s t : Ty) (c : Checker) :
    (∃ b c', ∀ r : Resolver, r.isSubtypeWithin (n + 1) s t c = .ok (b, c')) ∨
      ∀ r : Resolver, r.isSubtypeWithin (n + 1) s t c = r.searchSubtype n s t c := by
  by_cases same : s = t
  · refine .inl ⟨true, c, fun r => ?_⟩
    simp only [isSubtypeWithin, if_pos same]
    rfl
  cases known : c.subtypes.find? (s, t) with
  | some b =>
    refine .inl ⟨b, c, fun r => ?_⟩
    simp only [isSubtypeWithin, if_neg same, Check.get_bind, known]
    rfl
  | none =>
    by_cases plain : (s.isError || t.isError || s.isNothing || t.isAny) = true
    · refine .inl ⟨true, { c with subtypes := c.subtypes.insert (s, t) true }, fun r => ?_⟩
      simp only [isSubtypeWithin, if_neg same, Check.get_bind, known, if_pos plain]
      rfl
    · refine .inr fun r => ?_
      simp only [isSubtypeWithin, if_neg same, Check.get_bind, known, if_neg plain]
      cases s <;> cases t <;> rfl

/-- A question is endless only where it goes up from a singleton. -/
theorem isSubtypeWithin_opened (fails : r.isSubtypeWithin (n + 1) s t c = .error .endless) :
    s.isSingleton = true ∧ ∀ r' : Resolver,
      r'.isSubtypeWithin (n + 1) s t c = (r'.widen s >>= r'.climbSubtype n s t) c := by
  rcases isSubtypeWithin_cases n s t c with ⟨b, c', answered⟩ | searched
  · cases (answered r).symm.trans fails
  · have searches := (searched r).symm.trans fails
    cases s with
    | intrinsic j => cases t <;> cases searches
    | _ =>
      cases t with
      | intrinsic k => exact ⟨rfl, searched⟩
      | _ => cases searches

end Resolver

/-! ### Endless questions -/

/-- A demand is endless, or leaves a circle of bindings behind. -/
def Spoiled {α : Type} (met : Except Fault (α × Checker)) : Prop :=
  met = .error .endless ∨ ∃ a s, met = .ok (a, s) ∧ s.Circular

/-- An action makes a demand that is endless itself or leaves a circle of bindings behind. -/
def Troubled (o : Oracle) {α : Type} (act : Oracle → Check α) (c : Checker) : Prop :=
  ∃ q s, Heeds act o c q s ∧ Spoiled (o q s)

/-- A demand of an action is answered, and then steps up are known from one type to another. -/
def Context.Trail (cx : Context) (o : Oracle) {α : Type} (act : Oracle → Check α) (c : Checker)
    (n : Nat) (s t : Ty) : Prop :=
  ∃ q c₁ a c₂, Heeds act o c q c₁ ∧ o q c₁ = .ok (a, c₂) ∧ cx.Follows c c₂ ∧
    Steps (cx.Ascends c₂) n s t

section
variable {cx : Context} {o : Oracle} {c c₁ : Checker} {s t u : Ty} {n : Nat} {α β : Type}
  {act : Oracle → Check α}

theorem Troubled.lift {act' : Oracle → Check β} (troubled : Troubled o act c₁)
    (heeds : ∀ q s, Heeds act o c₁ q s → Heeds act' o c q s) : Troubled o act' c := by
  obtain ⟨q, s, own, spoiled⟩ := troubled
  exact ⟨q, s, heeds q s own, spoiled⟩

/-- Where two actions in turn are endless, the first one is, or the second one after it. -/
theorem endless_bind {f : α → Oracle → Check β} (candid : Candid o act)
    (fails : (act o >>= fun x => f x o) c = .error .endless)
    (first : act o c = .error .endless → Troubled o act c) :
    Troubled o (fun o => act o >>= fun x => f x o) c ∨
      ∃ x c₁, act o c = .ok (x, c₁) ∧ f x o c₁ = .error .endless ∧
        ∀ q s, Heeds (f x) o c₁ q s → Heeds (fun o => act o >>= fun x => f x o) o c q s := by
  rw [Check.bind_apply] at fails
  cases run : act o c with
  | error e =>
    rw [run] at fails
    cases fails
    exact .inl ((first run).lift fun q s heeds => heeds.first)
  | ok r =>
    rw [run] at fails
    exact .inr ⟨r.1, r.2, rfl, fails, fun q s heeds => heeds.next candid run⟩

/-- Many steps of a trail go round in a circle. -/
theorem Context.Trail.troubled (trail : cx.Trail o act c n s t) (single : t.isSingleton = true)
    (many : cx.symbols.size < n) : Troubled o act c := by
  obtain ⟨q, c₁, a, c₂, heeds, met, follows, steps⟩ := trail
  exact ⟨q, c₁, heeds, .inr ⟨a, c₂, met, steps.circular follows.orderly single many⟩⟩

theorem widen_troubled (fails : (cx.asking o).widen t c = .error .endless) :
    Troubled o (fun o => (cx.asking o).widen t) c := by
  cases t with
  | path x => exact ⟨.typeOf x, c, .self o _ c, .inl fails⟩
  | _ => cases fails

theorem keepSubtype_ends {b : Bool} : Resolver.keepSubtype s t b c ≠ .error .endless := nofun

/-- Only the singleton of a binding widens to another singleton, and by a demand. -/
theorem Faithful.widen_trail (faithful : Faithful cx o) (orderly : cx.Orderly c)
    (run : (cx.asking o).widen s c = .ok (u, c₁)) (single : u.isSingleton = true) (other : u ≠ s) :
    cx.Trail o (fun o => (cx.asking o).widen s) c 1 s u := by
  obtain ⟨follows, rises⟩ := faithful.widen orderly run
  obtain ⟨x, rfl, _⟩ := rises.path single
  exact ⟨.typeOf x, c, u, c₁, .self o _ c, run, follows, .step ⟨rises, other⟩ (.none u)⟩

theorem Context.Trail.extend {act' : Oracle → Check β} (trail : cx.Trail o act c₁ n t u)
    (heeds : ∀ q s, Heeds act o c₁ q s → Heeds act' o c q s) (follows : cx.Follows c c₁)
    (first : cx.Ascends c₁ s t) : cx.Trail o act' c (n + 1) s u := by
  obtain ⟨q, c₂, a, c₃, own, met, later, steps⟩ := trail
  exact ⟨q, c₂, a, c₃, heeds q c₂ own, met, follows.trans later, .step (first.kept later) steps⟩

/-- An endless question has gone all the way up from a singleton. -/
theorem Faithful.isSubtypeWithin (faithful : Faithful cx o) (orderly : cx.Orderly c)
    (fails : (cx.asking o).isSubtypeWithin (n + 1) s t c = .error .endless) :
    Troubled o (fun o => (cx.asking o).isSubtypeWithin (n + 1) s t) c ∨
      ∃ u, u.isSingleton = true ∧ ((n = 0 ∧ u = s) ∨
        cx.Trail o (fun o => (cx.asking o).isSubtypeWithin (n + 1) s t) c n s u) := by
  induction n generalizing s c with
  | zero =>
    obtain ⟨single, _⟩ := Resolver.isSubtypeWithin_opened fails
    exact .inr ⟨s, single, .inl ⟨rfl, rfl⟩⟩
  | succ n ih =>
    obtain ⟨_, opened⟩ := Resolver.isSubtypeWithin_opened fails
    have first : ∀ q s', Heeds (fun o => (cx.asking o).widen s) o c q s' →
        Heeds (fun o => (cx.asking o).isSubtypeWithin (n + 1 + 1) s t) o c q s' :=
      fun q s' heeds => heeds.first.congr fun o' => opened (cx.asking o')
    rw [opened, Check.bind_apply] at fails
    cases run : (cx.asking o).widen s c with
    | error e =>
      rw [run] at fails
      cases fails
      exact .inl ((widen_troubled run).lift first)
    | ok r =>
      obtain ⟨up, c₁⟩ := r
      rw [run] at fails
      change (cx.asking o).climbSubtype (n + 1) s t up c₁ = _ at fails
      by_cases other : up = s
      · rw [Resolver.climbSubtype, if_pos other] at fails
        exact absurd fails keepSubtype_ends
      · have climb : ∀ o', (cx.asking o').climbSubtype (n + 1) s t up c₁ = (do
            let b ← (cx.asking o').isSubtypeWithin (n + 1) up t
            Resolver.keepSubtype s t b) c₁ := by
          intro o'
          rw [Resolver.climbSubtype, if_neg other]
        have next : ∀ q s', Heeds (fun o => (cx.asking o).isSubtypeWithin (n + 1) up t) o c₁ q s' →
            Heeds (fun o => (cx.asking o).isSubtypeWithin (n + 1 + 1) s t) o c q s' := by
          intro q s' heeds
          have candid : Candid o fun o => (cx.asking o).widen s :=
            (Candid.compositional cx o).widen s
          exact ((heeds.first.congr climb).next candid run).congr fun o' => opened (cx.asking o')
        obtain ⟨follows, rises⟩ := faithful.widen orderly run
        have inner : (cx.asking o).isSubtypeWithin (n + 1) up t c₁ = .error .endless := by
          rw [climb, Check.bind_apply] at fails
          cases found : (cx.asking o).isSubtypeWithin (n + 1) up t c₁ with
          | error e =>
            rw [found] at fails
            exact fails
          | ok r =>
            rw [found] at fails
            exact absurd fails keepSubtype_ends
        rcases ih follows.orderly inner with troubled | ⟨v, single, ⟨rfl, rfl⟩ | trail⟩
        · exact .inl (troubled.lift next)
        · obtain ⟨q, c₂, a, c₃, heeds, rest⟩ := faithful.widen_trail orderly run single other
          exact .inr ⟨v, single, .inr ⟨q, c₂, a, c₃, first q c₂ heeds, rest⟩⟩
        · exact .inr ⟨v, single, .inr (trail.extend next follows ⟨rises, other⟩)⟩

theorem Faithful.isSubtype_ends (faithful : Faithful cx o) (orderly : cx.Orderly c)
    (fails : (cx.asking o).isSubtype s t c = .error .endless) :
    Troubled o (fun o => (cx.asking o).isSubtype s t) c := by
  rcases faithful.isSubtypeWithin orderly fails with troubled | ⟨u, single, ⟨none, _⟩ | trail⟩
  · exact troubled
  · cases none
  · exact trail.troubled single (Nat.lt_succ_self _)

/-! ### Endless least upper bounds -/

theorem Context.Trail.lift {act' : Oracle → Check β} (trail : cx.Trail o act c₁ n t u)
    (heeds : ∀ q s, Heeds act o c₁ q s → Heeds act' o c q s) (follows : cx.Follows c c₁) :
    cx.Trail o act' c n t u := by
  obtain ⟨q, c₂, a, c₃, own, met, later, steps⟩ := trail
  exact ⟨q, c₂, a, c₃, heeds q c₂ own, met, follows.trans later, steps⟩

namespace Resolver

variable (r : Resolver) (n : Nat) (a b : Ty)

def lubAfter (a' b' : Ty) : Check Ty :=
  if a' = a ∧ b' = b then return .intrinsic .any else r.lubWithin n a' b'

def lubClimb : Check Ty := do
  let a' ← r.widen a
  let b' ← r.widen b
  r.lubAfter n a b a' b'

def lubTurned : Check Ty := do
  if ← r.isSubtype b a then return a
  r.lubClimb n a b

end Resolver

/-- One round on the way up: the types are left as they are at the end, or both go a step up. -/
theorem Faithful.lubRound {a b : Ty} (faithful : Faithful cx o) (ground : cx.Grounded)
    (orderly : cx.Orderly c)
    (fails : (cx.asking o).lubWithin (n + 1) a b c = .error .endless) :
    Troubled o (fun o => (cx.asking o).lubWithin (n + 1) a b) c ∨
      ∃ a' b' c₂ c₃ c₄, cx.Follows c c₂ ∧ (cx.asking o).widen a c₂ = .ok (a', c₃) ∧
        (cx.asking o).widen b c₃ = .ok (b', c₄) ∧ ¬(a' = a ∧ b' = b) ∧
        (cx.asking o).lubWithin n a' b' c₄ = .error .endless ∧
        (∀ q s, Heeds (fun o => (cx.asking o).widen a) o c₂ q s →
          Heeds (fun o => (cx.asking o).lubWithin (n + 1) a b) o c q s) ∧
        (∀ q s, Heeds (fun o => (cx.asking o).widen b) o c₃ q s →
          Heeds (fun o => (cx.asking o).lubWithin (n + 1) a b) o c q s) ∧
        ∀ q s, Heeds (fun o => (cx.asking o).lubWithin n a' b') o c₄ q s →
          Heeds (fun o => (cx.asking o).lubWithin (n + 1) a b) o c q s := by
  have comp := Candid.thorough cx o
  have keeps := (faithful.thorough ground).isSubtype
  rcases endless_bind (f := fun (x : Bool) o =>
      (if x then return b else (cx.asking o).lubTurned n a b : Check Ty))
    (comp.isSubtype a b) fails (faithful.isSubtype_ends orderly) with
    troubled | ⟨x, c₁, run, fails, lift₁⟩
  · exact .inl troubled
  cases x with
  | true => cases fails
  | false =>
    have follows := ((keeps a b c orderly).run _ _ run).1
    rcases endless_bind (f := fun (x : Bool) o =>
        (if x then return a else (cx.asking o).lubClimb n a b : Check Ty))
      (comp.isSubtype b a) fails (faithful.isSubtype_ends follows.orderly) with
      troubled | ⟨x, c₂, run, fails, lift₂⟩
    · exact .inl (troubled.lift lift₁)
    cases x with
    | true => cases fails
    | false =>
      have follows := follows.trans ((keeps b a c₁ follows.orderly).run _ _ run).1
      rcases endless_bind (f := fun a' o => do
          let b' ← (cx.asking o).widen b
          (cx.asking o).lubAfter n a b a' b') (comp.widen a) fails widen_troubled with
        troubled | ⟨a', c₃, widenA, fails, lift₃⟩
      · exact .inl ((troubled.lift lift₂).lift lift₁)
      rcases endless_bind (f := fun b' o => (cx.asking o).lubAfter n a b a' b') (comp.widen b) fails
        widen_troubled with troubled | ⟨b', c₄, widenB, fails, lift₄⟩
      · exact .inl (((troubled.lift lift₃).lift lift₂).lift lift₁)
      by_cases still : a' = a ∧ b' = b
      · rw [Resolver.lubAfter, if_pos still] at fails
        cases fails
      · rw [Resolver.lubAfter, if_neg still] at fails
        refine .inr ⟨a', b', c₂, c₃, c₄, follows, widenA, widenB, still, fails, ?_, ?_, ?_⟩
        · exact fun q s heeds => lift₁ q s (lift₂ q s heeds.first)
        · exact fun q s heeds => lift₁ q s (lift₂ q s (lift₃ q s heeds.first))
        · refine fun q s heeds => lift₁ q s (lift₂ q s (lift₃ q s (lift₄ q s ?_)))
          exact heeds.congr fun o' => by rw [Resolver.lubAfter, if_neg still]

/-- A type on the way up that moved in every round. -/
def Context.Moved (cx : Context) (o : Oracle) {α : Type} (act : Oracle → Check α) (c : Checker)
    (n : Nat) (s t : Ty) : Prop :=
  (n = 0 ∧ t = s ∧ ∃ c₁ u, cx.Follows c c₁ ∧ cx.Ascends c₁ s u) ∨
    ∃ m, n = m + 1 ∧ cx.Trail o act c n s t

/-- What moved in all later rounds moved in this one too, since it would stand still otherwise. -/
theorem Faithful.moved_earlier {act' : Oracle → Check β} {s' : Ty} {c₂ c₃ : Checker}
    (faithful : Faithful cx o) (start : cx.Follows c c₁)
    (widens : (cx.asking o).widen s c₁ = .ok (s', c₂)) (later : cx.Follows c₂ c₃)
    (first : ∀ q s', Heeds (fun o => (cx.asking o).widen s) o c₁ q s' → Heeds act' o c q s')
    (rest : ∀ q s', Heeds act o c₃ q s' → Heeds act' o c q s') (single : u.isSingleton = true)
    (moved : cx.Moved o act c₃ n s' u) : cx.Trail o act' c (n + 1) s u := by
  obtain ⟨follows, rises⟩ := faithful.widen start.orderly widens
  have moves : ∀ c₄ w, cx.Follows c₃ c₄ → cx.Ascends c₄ s' w → s' ≠ s := by
    rintro c₄ w after ascends rfl
    exact ascends.2 (((rises.kept later).kept after).unique after.orderly ascends.1).symm
  rcases moved with ⟨rfl, rfl, c₄, w, after, ascends⟩ | ⟨m, rfl, trail⟩
  · exact (faithful.widen_trail start.orderly widens single (moves c₄ w after ascends)).lift first
      start
  · refine trail.extend rest ((start.trans follows).trans later) ⟨rises.kept later, ?_⟩
    obtain ⟨_, _, _, c₄, _, _, after, steps⟩ := trail
    cases steps with
    | step ascends _ => exact moves c₄ _ after ascends

/-- An endless least upper bound has gone up all the way on one side. -/
theorem Faithful.lubWithin {a b : Ty} (faithful : Faithful cx o) (ground : cx.Grounded)
    (orderly : cx.Orderly c)
    (fails : (cx.asking o).lubWithin (n + 1) a b c = .error .endless) :
    Troubled o (fun o => (cx.asking o).lubWithin (n + 1) a b) c ∨
      ∃ s u, (s = a ∨ s = b) ∧ u.isSingleton = true ∧
        cx.Moved o (fun o => (cx.asking o).lubWithin (n + 1) a b) c n s u := by
  induction n generalizing a b c with
  | zero =>
    rcases faithful.lubRound ground orderly fails with
      troubled | ⟨a', b', c₂, c₃, c₄, follows, widenA, widenB, moves, _⟩
    · exact .inl troubled
    obtain ⟨laterA, risesA⟩ := faithful.widen follows.orderly widenA
    obtain ⟨laterB, risesB⟩ := faithful.widen laterA.orderly widenB
    have all := (follows.trans laterA).trans laterB
    by_cases movesA : a' = a
    · have ascends : cx.Ascends c₄ b b' := ⟨risesB, fun movesB => moves ⟨movesA, movesB⟩⟩
      exact .inr ⟨b, b, .inr rfl, ascends.single, .inl ⟨rfl, rfl, c₄, b', all, ascends⟩⟩
    · have ascends : cx.Ascends c₄ a a' := ⟨risesA.kept laterB, movesA⟩
      exact .inr ⟨a, a, .inl rfl, ascends.single, .inl ⟨rfl, rfl, c₄, a', all, ascends⟩⟩
  | succ n ih =>
    rcases faithful.lubRound ground orderly fails with
      troubled | ⟨a', b', c₂, c₃, c₄, follows, widenA, widenB, _, inner, firstA, firstB, rest⟩
    · exact .inl troubled
    have laterA := (faithful.widen follows.orderly widenA).1
    have laterB := (faithful.widen laterA.orderly widenB).1
    rcases ih laterB.orderly inner with troubled | ⟨s, u, side, single, moved⟩
    · exact .inl (troubled.lift rest)
    rcases side with rfl | rfl
    · exact .inr ⟨a, u, .inl rfl, single, .inr ⟨n, rfl,
        faithful.moved_earlier follows widenA laterB firstA rest single moved⟩⟩
    · exact .inr ⟨b, u, .inr rfl, single, .inr ⟨n, rfl, faithful.moved_earlier
        (follows.trans laterA) widenB (.refl laterB.orderly) firstB rest single moved⟩⟩

theorem Faithful.lub_ends {a b : Ty} (faithful : Faithful cx o) (ground : cx.Grounded)
    (orderly : cx.Orderly c) (fails : (cx.asking o).lub a b c = .error .endless) :
    Troubled o (fun o => (cx.asking o).lub a b) c := by
  rcases faithful.lubWithin ground orderly fails with
    troubled | ⟨s, u, _, single, ⟨none, _⟩ | ⟨_, _, trail⟩⟩
  · exact troubled
  · cases none
  · exact trail.troubled single (Nat.lt_add_of_pos_right Nat.two_pos)

end

end Solo

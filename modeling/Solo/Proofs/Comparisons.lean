import Solo.Proofs.Widening

/-!
# The closed form of subtyping

Below a singleton are only itself, the error type and `Nothing`. Below a kind is what widens to a
kind below it. `Compares` states this of the promises of a state, without the order in which
questions are asked. A state and all states after it agree on it, so an answer that is kept stays
right.
-/

namespace Solo

namespace Kind

theorem isSubkind_self (k : Kind) : k.isSubkind k = true := by simp [isSubkind]

theorem isSubkind_any (j : Kind) : j.isSubkind .any = true := by simp [isSubkind]

theorem isSubkind_error (j : Kind) : j.isSubkind .error = true := by simp [isSubkind]

theorem nothing_isSubkind (k : Kind) : nothing.isSubkind k = true := by simp [isSubkind]

theorem error_isSubkind (k : Kind) : error.isSubkind k = true := by simp [isSubkind]

end Kind

theorem Ty.exists_kind {t : Ty} (plain : t.isSingleton = false) : ∃ k, t = .intrinsic k := by
  cases t with
  | intrinsic k => exact ⟨k, rfl⟩
  | _ => cases plain

def Ty.isBelowSingleton (s t : Ty) : Bool := s = t || s.isError || s.isNothing

/-- By the promises of a state, `s` is below another type or not. -/
inductive Context.Compares (cx : Context) (c : Checker) (s : Ty) : Ty → Bool → Prop
  | singleton {t : Ty} (single : t.isSingleton = true) : Compares cx c s t (s.isBelowSingleton t)
  /-- Everything is below `Any` and the error type. -/
  | top {k : Kind} (wide : k = .any ∨ k = .error) : Compares cx c s (.intrinsic k) true
  | base {n : Nat} {j : Kind} (steps : Steps (cx.Rises c) n s (.intrinsic j)) (k : Kind) :
    Compares cx c s (.intrinsic k) (j.isSubkind k)
  /-- Widening comes to a singleton that widens to itself. -/
  | stuck {v : Ty} {n : Nat} {k : Kind} (steps : Steps (cx.Rises c) n s v)
    (single : v.isSingleton = true) (stands : cx.Rises c v v) (narrow : ¬(k = .any ∨ k = .error)) :
    Compares cx c s (.intrinsic k) false

section
variable {cx : Context} {c c₁ : Checker} {s t u v : Ty} {n m : Nat} {b b' : Bool}

/-- From a type that widens to itself no step leads away. -/
theorem Steps.stands (orderly : cx.Orderly c) (steps : Steps (cx.Rises c) n s t)
    (stands : cx.Rises c s s) : t = s := by
  induction steps with
  | none t => rfl
  | step first _ ih =>
    cases first.unique orderly stands
    exact ih stands

theorem Steps.end_unique (orderly : cx.Orderly c) (first : Steps (cx.Rises c) n s u)
    (stands : cx.Rises c u u) (second : Steps (cx.Rises c) m s v) (stands' : cx.Rises c v v) :
    u = v := by
  induction first generalizing m with
  | none t => exact (second.stands orderly stands).symm
  | step rises rest ih =>
    cases second with
    | none t =>
      cases rises.unique orderly stands'
      exact rest.stands orderly stands'
    | step rises' rest' =>
      cases rises.unique orderly rises'
      exact ih stands rest'

namespace Context.Compares

theorem kept (compares : cx.Compares c s t b) (follows : cx.Follows c c₁) :
    cx.Compares c₁ s t b := by
  have later : ∀ s t, cx.Rises c s t → cx.Rises c₁ s t := fun s t rises => rises.kept follows
  cases compares with
  | singleton single => exact .singleton single
  | top wide => exact .top wide
  | base steps k => exact .base (steps.imp later) k
  | stuck steps single stands narrow =>
    exact .stuck (steps.imp later) single (later _ _ stands) narrow

/-- A step up changes nothing below a kind. -/
theorem rise {k : Kind} (compares : cx.Compares c u (.intrinsic k) b) (rises : cx.Rises c s u) :
    cx.Compares c s (.intrinsic k) b := by
  cases compares with
  | singleton single => cases single
  | top wide => exact .top wide
  | base steps k => exact .base (.step rises steps) k
  | stuck steps single stands narrow => exact .stuck (.step rises steps) single stands narrow

theorem of_base {k : Kind} (orderly : cx.Orderly c) {j : Kind}
    (compares : cx.Compares c s (.intrinsic k) b) (steps : Steps (cx.Rises c) n s (.intrinsic j)) :
    b = j.isSubkind k := by
  cases compares with
  | singleton single => cases single
  | top wide =>
    rcases wide with rfl | rfl
    · exact (Kind.isSubkind_any j).symm
    · exact (Kind.isSubkind_error j).symm
  | base steps' k =>
    cases steps'.end_unique orderly rfl steps rfl
    rfl
  | stuck steps' single stands narrow =>
    cases steps'.end_unique orderly stands steps rfl
    cases single

theorem of_singleton (single : t.isSingleton = true) (compares : cx.Compares c s t b) :
    b = s.isBelowSingleton t := by
  cases compares with
  | singleton => rfl
  | _ => cases single

theorem unique (orderly : cx.Orderly c) (first : cx.Compares c s t b)
    (second : cx.Compares c s t b') : b = b' := by
  cases first with
  | singleton single => exact (second.of_singleton single).symm
  | base steps k => exact (second.of_base orderly steps).symm
  | top wide =>
    cases second with
    | singleton single => cases single
    | top => rfl
    | base steps k => exact of_base orderly (.top wide) steps
    | stuck _ _ _ narrow => exact absurd wide narrow
  | stuck steps single stands narrow =>
    cases second with
    | singleton single => cases single
    | top wide => exact absurd wide narrow
    | base steps' k => exact of_base orderly (.stuck steps single stands narrow) steps'
    | stuck => rfl

theorem refl (cx : Context) (c : Checker) (t : Ty) : cx.Compares c t t true := by
  cases t with
  | intrinsic k => exact k.isSubkind_self ▸ .base (.none _) k
  | literal v =>
    have below : (Ty.literal v).isBelowSingleton (.literal v) = true := by
      simp [Ty.isBelowSingleton]
    exact below ▸ .singleton rfl
  | path x =>
    have below : (Ty.path x).isBelowSingleton (.path x) = true := by simp [Ty.isBelowSingleton]
    exact below ▸ .singleton rfl

theorem plain (cx : Context) (c : Checker)
    (plain : (s.isError || t.isError || s.isNothing || t.isAny) = true) :
    cx.Compares c s t true := by
  simp only [Bool.or_eq_true] at plain
  have left : s.isError = true ∨ s.isNothing = true → cx.Compares c s t true := by
    intro low
    cases single : t.isSingleton with
    | true =>
      have below : s.isBelowSingleton t = true := by
        rcases low with low | low <;> simp [Ty.isBelowSingleton, low]
      exact below ▸ .singleton single
    | false =>
      obtain ⟨k, rfl⟩ := Ty.exists_kind single
      rcases low with low | low
      · rw [eq_of_beq low]
        exact k.error_isSubkind ▸ .base (.none _) k
      · rw [eq_of_beq low]
        exact k.nothing_isSubkind ▸ .base (.none _) k
  rcases plain with ((low | wide) | low) | wide
  · exact left (.inl low)
  · rw [eq_of_beq wide]
    exact .top (.inr rfl)
  · exact left (.inr low)
  · rw [eq_of_beq wide]
    exact .top (.inl rfl)

end Context.Compares

end

/-! ### Questions and the closed form -/

/-- A question about subtypes, one step at a time. -/
theorem Resolver.isSubtypeWithin_succ (r : Resolver) (n : Nat) (s t : Ty) (c : Checker) :
    r.isSubtypeWithin (n + 1) s t c =
      if s = t then .ok (true, c)
      else match c.subtypes.find? (s, t) with
        | some b => .ok (b, c)
        | none =>
          if s.isError || t.isError || s.isNothing || t.isAny then keepSubtype s t true c
          else r.searchSubtype n s t c := by
  by_cases same : s = t
  · simp only [isSubtypeWithin, if_pos same]
    rfl
  simp only [isSubtypeWithin, if_neg same, Check.get_bind]
  cases c.subtypes.find? (s, t) with
  | some b => rfl
  | none =>
    dsimp only
    split
    · rfl
    · cases s <;> cases t <;> rfl

/-- A resolver judges states with `I`, and later ones by `L`, after the promises of `G`: the answers
that they keep are those of the closed form, and so is each step up. -/
structure Context.Judges (cx : Context) (r : Resolver) (I : Checker → Prop)
    (L : Checker → Checker → Prop) (G : Checker → Checker) : Prop where
  refl : ∀ c, I c → L c c
  trans : ∀ c c₁ c₂, L c c₁ → L c₁ c₂ → L c c₂
  follows : ∀ c c₁, L c c₁ → cx.Follows (G c) (G c₁)
  compared : ∀ c, I c → ∀ s t b, c.subtypes.find? (s, t) = some b → cx.Compares (G c) s t b
  widen : ∀ c, I c → ∀ s u c₁, r.widen s c = .ok (u, c₁) → I c₁ ∧ L c c₁ ∧ cx.Rises (G c₁) s u
  keep : ∀ c, I c → ∀ s t b, cx.Compares (G c) s t b →
    I { c with subtypes := c.subtypes.insert (s, t) b } ∧
      L c { c with subtypes := c.subtypes.insert (s, t) b }

namespace Context.Judges

variable {cx : Context} {r : Resolver} {I : Checker → Prop} {L : Checker → Checker → Prop}
  {G : Checker → Checker} {c c₁ : Checker} {s t : Ty} {b : Bool}

theorem keepSubtype (judges : cx.Judges r I L G) (holds : I c) (compares : cx.Compares (G c) s t b)
    {b' : Bool} (run : Resolver.keepSubtype s t b c = .ok (b', c₁)) :
    I c₁ ∧ L c c₁ ∧ cx.Compares (G c₁) s t b' := by
  obtain ⟨kept, later⟩ := judges.keep c holds s t b compares
  cases run
  exact ⟨kept, later, compares.kept (judges.follows _ _ later)⟩

/-- Every answer about subtypes is the one of the closed form. -/
theorem isSubtypeWithin (judges : cx.Judges r I L G) {n : Nat} (holds : I c)
    (run : r.isSubtypeWithin n s t c = .ok (b, c₁)) :
    I c₁ ∧ L c c₁ ∧ cx.Compares (G c₁) s t b := by
  induction n generalizing s c b c₁ with
  | zero => cases run
  | succ n ih =>
    rw [Resolver.isSubtypeWithin_succ] at run
    split at run
    · next same =>
      cases run
      exact ⟨holds, judges.refl c holds, same ▸ .refl cx (G c) s⟩
    next apart =>
    split at run
    · next known =>
      cases run
      exact ⟨holds, judges.refl c holds, judges.compared c holds s t b known⟩
    split at run
    · next plain => exact judges.keepSubtype holds (.plain cx (G c) plain) run
    next other =>
    simp only [Bool.or_eq_true, not_or] at other
    obtain ⟨⟨⟨notError, narrow⟩, notNothing⟩, notAny⟩ := other
    have below : s.isBelowSingleton t = false := by
      simp [Ty.isBelowSingleton, apart, notError, notNothing]
    have single : t.isSingleton = true → cx.Compares (G c) s t false :=
      fun single => below ▸ .singleton single
    have climb : ∀ k, t = .intrinsic k → s.isSingleton = true →
        (r.widen s >>= r.climbSubtype n s t) c = .ok (b, c₁) →
        I c₁ ∧ L c c₁ ∧ cx.Compares (G c₁) s t b := by
      rintro k rfl single run
      obtain ⟨up, c₂, widened, run⟩ := Check.bind_ok run
      obtain ⟨holds₂, later₂, rises⟩ := judges.widen c holds s up c₂ widened
      rw [Resolver.climbSubtype] at run
      split at run
      · next stands =>
        have stuck : cx.Compares (G c₂) s (.intrinsic k) false := by
          refine .stuck (.none s) single (stands ▸ rises) ?_
          rintro (rfl | rfl)
          · exact notAny rfl
          · exact narrow rfl
        obtain ⟨kept, later, compares⟩ := judges.keepSubtype holds₂ stuck run
        exact ⟨kept, judges.trans _ _ _ later₂ later, compares⟩
      · obtain ⟨b₁, c₃, inner, run⟩ := Check.bind_ok run
        obtain ⟨holds₃, later₃, compares⟩ := ih holds₂ inner
        have rises := rises.kept (judges.follows _ _ later₃)
        obtain ⟨kept, later, compares⟩ := judges.keepSubtype holds₃ (compares.rise rises) run
        exact ⟨kept, judges.trans _ _ _ later₂ (judges.trans _ _ _ later₃ later), compares⟩
    cases s with
    | intrinsic j =>
      cases t with
      | intrinsic k => exact judges.keepSubtype holds (.base (.none _) k) run
      | _ => exact judges.keepSubtype holds (single rfl) run
    | _ =>
      cases t with
      | intrinsic k => exact climb k rfl rfl run
      | _ => exact judges.keepSubtype holds (single rfl) run

end Context.Judges

/-- An action that leads from states with `I` to such states again, later ones by `L`. -/
def Check.Proceeds (I : Checker → Prop) (L : Checker → Checker → Prop) {α : Type} (a : Check α) :
    Prop :=
  ∀ c, I c → ∀ x c', a c = .ok (x, c') → I c' ∧ L c c'

namespace Context.Judges

variable {cx : Context} {o : Oracle} {I : Checker → Prop} {L : Checker → Checker → Prop}
  {G : Checker → Checker} (judges : cx.Judges (cx.asking o) I L G)
include judges

theorem pure {α : Type} (x : α) : Check.Proceeds I L (Pure.pure x : Check α) := by
  intro c holds y c' run
  cases run
  exact ⟨holds, judges.refl c holds⟩

theorem bind {α β : Type} {a : Check α} {f : α → Check β} (first : Check.Proceeds I L a)
    (rest : ∀ x, Check.Proceeds I L (f x)) : Check.Proceeds I L (a >>= f) := by
  intro c holds y c' run
  obtain ⟨x, c₁, run₁, run₂⟩ := Check.bind_ok run
  obtain ⟨holds₁, later₁⟩ := first c holds x c₁ run₁
  obtain ⟨holds', later'⟩ := rest x c₁ holds₁ y c' run₂
  exact ⟨holds', judges.trans _ _ _ later₁ later'⟩

theorem isSubtype (s t : Ty) : Check.Proceeds I L ((cx.asking o).isSubtype s t) := by
  intro c holds b c' run
  obtain ⟨holds', later, _⟩ := judges.isSubtypeWithin holds run
  exact ⟨holds', later⟩

theorem step (s : Ty) : Check.Proceeds I L ((cx.asking o).widen s) := by
  intro c holds u c' run
  obtain ⟨holds', later, _⟩ := judges.widen c holds s u c' run
  exact ⟨holds', later⟩

theorem composed : Composed fun {α} (act : Oracle → Check α) => Check.Proceeds I L (act o) :=
  ⟨judges.pure, judges.bind⟩

theorem lubWithin (n : Nat) (s t : Ty) : Check.Proceeds I L ((cx.asking o).lubWithin n s t) :=
  judges.composed.lubWithin (fun _ _ _ _ => nofun) judges.isSubtype judges.step n s t

/-- All of checking leads from states with `I` to such states, if single steps and demands do. -/
theorem located {M : Mark → Prop}
    (still : ∀ {α : Type} {a : Check α}, StillAt cx M a → Check.Proceeds I L a)
    (asks : ∀ q, cx.Poses q → q.At M → Check.Proceeds I L (o q)) :
    Located cx M fun act => Check.Proceeds I L (act o) where
  still := still
  bind := judges.bind
  ask := asks
  isSubtype := judges.isSubtype
  lub := judges.lubWithin (cx.symbols.size + 2 + 1)

end Context.Judges

end Solo

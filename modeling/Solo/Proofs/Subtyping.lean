import Solo.Proofs.Completion

/-!
# Subtyping after a check

After a check, questions about subtypes, widening and upper bounds change nothing but the answers
that are kept. So whatever was asked before, a question is answered by the closed form.
-/

namespace Solo

/-- A state after a check and any further questions about entered types. -/
inductive Context.Surveyed (cx : Context) : Checker → Prop
  | checked {c : Checker} (run : cx.check (.start cx.names) = .ok ((), c)) : Surveyed cx c
  | isSubtype {c c' : Checker} {s t : Ty} {b : Bool} (before : Surveyed cx c) (left : s ∈ c.types)
    (right : t ∈ c.types) (run : cx.resolver.isSubtype s t c = .ok (b, c')) : Surveyed cx c'
  | widen {c c' : Checker} {t u : Ty} (before : Surveyed cx c) (entered : t ∈ c.types)
    (run : cx.resolver.widen t c = .ok (u, c')) : Surveyed cx c'
  | lub {c c' : Checker} {s t u : Ty} (before : Surveyed cx c) (left : s ∈ c.types)
    (right : t ∈ c.types) (run : cx.resolver.lub s t c = .ok (u, c')) : Surveyed cx c'

/-- Nothing changes but the kept answers about subtypes. -/
def Checker.Recalls (c c' : Checker) : Prop := ∃ subtypes, c' = { c with subtypes }

theorem Checker.Recalls.refl (c : Checker) : c.Recalls c := ⟨c.subtypes, rfl⟩

theorem Checker.Recalls.trans {c c₁ c₂ : Checker} (first : c.Recalls c₁) (second : c₁.Recalls c₂) :
    c.Recalls c₂ := by
  obtain ⟨_, rfl⟩ := first
  obtain ⟨subtypes, rfl⟩ := second
  exact ⟨subtypes, rfl⟩

theorem Checker.Recalls.types {c c' : Checker} (recalls : c.Recalls c') : c'.types = c.types := by
  obtain ⟨_, rfl⟩ := recalls
  rfl

theorem Checker.Recalls.rises {c c' : Checker} (recalls : c.Recalls c') (cx : Context) :
    cx.Rises c' = cx.Rises c := by
  obtain ⟨_, rfl⟩ := recalls
  funext s t
  cases s <;> rfl

theorem Checker.Recalls.spins {c c' : Checker} (recalls : c.Recalls c') : c'.Spins = c.Spins := by
  obtain ⟨_, rfl⟩ := recalls
  rfl

theorem Checker.Recalls.compares {cx : Context} {c c' : Checker} {s t : Ty} {b : Bool}
    (recalls : c.Recalls c') (compares : cx.Compares c' s t b) : cx.Compares c s t b := by
  have rises := recalls.rises cx
  cases compares with
  | singleton single => exact .singleton single
  | top wide => exact .top wide
  | base steps k => exact .base (rises ▸ steps) k
  | stuck steps single stands narrow => exact .stuck (rises ▸ steps) single (rises ▸ stands) narrow

/-- An action gives an answer and changes nothing but the kept ones, unless `P` holds and it is
endless. -/
def Checker.Answers (c : Checker) (P : Prop) (a : Check Bool) : Prop :=
  (∃ b c', a c = .ok (b, c') ∧ c.Recalls c') ∨ a c = .error .endless ∧ P

namespace Checker.Answers

variable {c : Checker} {P : Prop} {r : Resolver} {n : Nat} {s t up : Ty}

theorem keepSubtype (b : Bool) : c.Answers P (Resolver.keepSubtype s t b) :=
  .inl ⟨b, _, rfl, _, rfl⟩

theorem climbSubtype (inner : c.Answers P (r.isSubtypeWithin n up t)) :
    c.Answers P (r.climbSubtype n s t up) := by
  rw [Resolver.climbSubtype]
  split
  · exact keepSubtype false
  rcases inner with ⟨b, c', run, recalls⟩ | ⟨fails, holds⟩
  · refine .inl ⟨b, { c' with subtypes := c'.subtypes.insert (s, t) b }, ?_,
      recalls.trans ⟨_, rfl⟩⟩
    rw [Check.bind_apply, run]
    rfl
  · exact .inr ⟨Check.bind_fault fails, holds⟩

/-- Only below a kind a search goes up from a singleton. -/
theorem searchSubtype (widens : r.widen s c = .ok (up, c))
    (climb : s.isSingleton = true → t.isSingleton = false → c.Answers P (r.climbSubtype n s t up)) :
    c.Answers P (r.searchSubtype n s t) := by
  have climbs : s.isSingleton = true → t.isSingleton = false →
      c.Answers P (r.widen s >>= r.climbSubtype n s t) := by
    intro single kind
    rw [Answers, Check.bind_apply, widens]
    exact climb single kind
  cases s with
  | intrinsic j => cases t <;> exact keepSubtype _
  | _ =>
    cases t with
    | intrinsic k => exact climbs rfl rfl
    | _ => exact keepSubtype _

theorem isSubtypeWithin (search : c.Answers P (r.searchSubtype n s t)) :
    c.Answers P (r.isSubtypeWithin (n + 1) s t) := by
  rw [Answers, Resolver.isSubtypeWithin_succ]
  split
  · exact .inl ⟨_, _, rfl, .refl c⟩
  split
  · exact .inl ⟨_, _, rfl, .refl c⟩
  split
  · exact keepSubtype true
  · exact search

end Checker.Answers

namespace Context

variable {cx : Context} {c c₁ c₂ : Checker} {s t u : Ty} {b : Bool} {n : Nat} {j : Kind}

/-- Where the type of a binding is found, widening its singleton changes nothing. -/
theorem widen_still (m : Nat) (known : ∀ x, t = .path x → cx.Typable x →
      (c.symbolTypes.find? x).isSome = true) :
    ∃ u, (Resolver.ofDepth cx (m + 1)).widen t c = .ok (u, c) ∧ cx.Rises c t u := by
  cases t with
  | intrinsic k => exact ⟨_, rfl, rfl⟩
  | literal v => exact ⟨_, rfl, rfl⟩
  | path x =>
    have asks : (Resolver.ofDepth cx (m + 1)).widen (.path x) c =
        (Resolver.ofDepth cx m).typeOfSymbol x c := rfl
    cases found : c.symbolTypes.find? x with
    | some t => exact ⟨t, asks.trans (Resolver.typeOfSymbol_known _ found), .inl found⟩
    | none =>
      have untyped : ¬cx.Typable x := by
        intro typable
        have some := known x rfl typable
        rw [found] at some
        cases some
      refine ⟨.error, asks.trans (Resolver.typeOfSymbol_untypable _ found ?_),
        .inr ⟨rfl, .inl untyped⟩⟩
      rw [Resolver.ofDepth_eq]
      exact untyped

/-- Types from which every step up is known and leads to one of them again. -/
structure Traced (cx : Context) (c : Checker) (K : Ty → Prop) : Prop where
  known : ∀ x, K (.path x) → cx.Typable x → (c.symbolTypes.find? x).isSome = true
  next : ∀ t u, K t → cx.Rises c t u → K u

namespace Traced

variable {K : Ty → Prop} (traced : cx.Traced c K)
include traced

theorem kept (recalls : c.Recalls c₁) : cx.Traced c₁ K := by
  obtain ⟨known, next⟩ := traced
  rw [← recalls.rises cx] at next
  obtain ⟨_, rfl⟩ := recalls
  exact ⟨known, next⟩

theorem widen (m : Nat) (own : K t) :
    ∃ u, (Resolver.ofDepth cx (m + 1)).widen t c = .ok (u, c) ∧ K u ∧ cx.Rises c t u := by
  have known : ∀ x, t = .path x → cx.Typable x → (c.symbolTypes.find? x).isSome = true := by
    rintro x rfl typable
    exact traced.known x own typable
  obtain ⟨u, widens, rises⟩ := widen_still m known
  exact ⟨u, widens, traced.next t u own rises, rises⟩

theorem climb (m n : Nat) (own : K t) :
    ∃ u, (Resolver.ofDepth cx (m + 1)).climb n t c = .ok (u, c) ∧ K u ∧
      Steps (cx.Rises c) n t u := by
  induction n generalizing t with
  | zero => exact ⟨t, rfl, own, .none t⟩
  | succ n ih =>
    obtain ⟨up, widens, own', rises⟩ := traced.widen m own
    obtain ⟨u, climbs, last, steps⟩ := ih own'
    refine ⟨u, ?_, last, .step rises steps⟩
    rw [Resolver.climb, Check.bind_apply, widens]
    exact climbs

/-- A question about subtypes is answered, unless it goes up all the way and still is at a
singleton. -/
theorem isSubtypeWithin (m n : Nat) (own : K s) :
    c.Answers (∃ v, Steps (cx.Rises c) n s v ∧ v.isSingleton = true)
      ((Resolver.ofDepth cx (m + 1)).isSubtypeWithin (n + 1) s t) := by
  induction n generalizing s with
  | zero =>
    obtain ⟨up, widens, _⟩ := traced.widen m own
    refine .isSubtypeWithin (.searchSubtype widens fun single _ => .climbSubtype ?_)
    exact .inr ⟨rfl, s, .none s, single⟩
  | succ n ih =>
    obtain ⟨up, widens, own', rises⟩ := traced.widen m own
    refine .isSubtypeWithin (.searchSubtype widens fun _ _ => .climbSubtype ?_)
    exact (ih own').imp id fun ⟨fails, v, steps, single⟩ => ⟨fails, v, .step rises steps, single⟩

theorem isSubtype (orderly : cx.Orderly c) (m : Nat) (own : K s) :
    c.Answers (c.Spins s) ((Resolver.ofDepth cx (m + 1)).isSubtype s t) := by
  have answers := traced.isSubtypeWithin (t := t) m (cx.symbols.size + 1) own
  rw [Resolver.isSubtype, Resolver.chainBound, Resolver.toContext_ofDepth]
  exact answers.imp id fun ⟨fails, _, steps, single⟩ =>
    ⟨fails, steps.spins orderly single (Nat.lt_succ_self _)⟩

/-- An answer about subtypes is the one of the closed form. -/
theorem compares (ground : cx.Grounded) (spelled : cx.Spelled) (coherent : cx.Coherent c) (m : Nat)
    (own : K s) (run : (Resolver.ofDepth cx (m + 1)).isSubtype s t c = .ok (b, c₁)) :
    c.Recalls c₁ ∧ cx.Coherent c₁ ∧ cx.Compares c₁ s t b := by
  have recalls : c.Recalls c₁ := by
    rcases traced.isSubtype coherent.orderly m own (t := t) with ⟨_, _, run', recalls⟩ | ⟨fails, _⟩
    · cases run.symm.trans run'
      exact recalls
    · cases run.symm.trans fails
  rw [Resolver.ofDepth_eq] at run
  obtain ⟨coherent', _, compares⟩ :=
    (Keeper.oracle ground spelled (m + 1)).isSubtype ground s t coherent b c₁ run
  exact ⟨recalls, coherent', compares⟩

/-- Where widening ends, a question about subtypes is answered by the closed form. -/
theorem answer (ground : cx.Grounded) (spelled : cx.Spelled) (coherent : cx.Coherent c) (m : Nat)
    (own : K s) (calm : ¬c.Spins s) (t : Ty) :
    ∃ b c₁, (Resolver.ofDepth cx (m + 1)).isSubtype s t c = .ok (b, c₁) ∧ c.Recalls c₁ ∧
      cx.Coherent c₁ ∧ cx.Compares c s t b := by
  rcases traced.isSubtype coherent.orderly m own (t := t) with ⟨b, c₁, run, _⟩ | ⟨_, spins⟩
  · obtain ⟨recalls, coherent', compares⟩ := traced.compares ground spelled coherent m own run
    exact ⟨b, c₁, run, recalls, coherent', recalls.compares compares⟩
  · exact absurd spins calm

/-- From where widening ends, so many steps lead to its end. -/
theorem ends {n N : Nat} {j : Kind} (orderly : cx.Orderly c) (own : K t)
    (steps : Steps (cx.Rises c) n t (.intrinsic j)) (many : cx.symbols.size < N) :
    Steps (cx.Rises c) N t (.intrinsic j) := by
  obtain ⟨u, _, _, long⟩ := traced.climb 0 N own
  cases single : u.isSingleton with
  | true => exact absurd (long.spins orderly single many) (steps.not_spins orderly)
  | false =>
    obtain ⟨k, rfl⟩ := Ty.exists_kind single
    cases long.end_unique orderly rfl steps rfl
    exact long

end Traced

theorem Rises.filed (rises : cx.Rises c t u) (all : c.Filed) : u.Filed c := by
  cases t with
  | intrinsic k => exact rises ▸ all.kinds k
  | literal v => exact rises ▸ all.kinds _
  | path x =>
    rcases rises with found | ⟨rfl, _⟩
    · exact all.symbolTypes x u found
    · exact all.kinds _

namespace Complete

theorem kept (complete : cx.Complete c) (recalls : c.Recalls c₁) (coherent : cx.Coherent c₁) :
    cx.Complete c₁ := by
  obtain ⟨_, rfl⟩ := recalls
  exact ⟨coherent, complete.idle, complete.paths⟩

theorem traced (complete : cx.Complete c) : cx.Traced c (·.Filed c) :=
  ⟨complete.paths, fun _ _ _ rises => rises.filed complete.coherent.filed⟩

theorem widen (complete : cx.Complete c) (filed : t.Filed c) :
    ∃ u, cx.resolver.widen t c = .ok (u, c) ∧ u.Filed c ∧ cx.Rises c t u :=
  complete.traced.widen _ filed

/-- A question about subtypes is answered, unless the declared types lead into a circle. -/
theorem isSubtype (complete : cx.Complete c) (filed : s.Filed c) :
    c.Answers (c.Spins s) (cx.resolver.isSubtype s t) :=
  complete.traced.isSubtype complete.coherent.orderly _ filed

/-- An answer about subtypes is the one of the closed form, and the state stays complete. -/
theorem compares (complete : cx.Complete c) (ground : cx.Grounded) (spelled : cx.Spelled)
    (filed : s.Filed c) (run : cx.resolver.isSubtype s t c = .ok (b, c₁)) :
    c.Recalls c₁ ∧ cx.Complete c₁ ∧ cx.Compares c₁ s t b := by
  obtain ⟨recalls, coherent, compares⟩ :=
    complete.traced.compares ground spelled complete.coherent _ filed run
  exact ⟨recalls, complete.kept recalls coherent, compares⟩

theorem lubWithin (complete : cx.Complete c) (ground : cx.Grounded) (spelled : cx.Spelled)
    (left : s.Filed c) (right : t.Filed c) (run : cx.resolver.lubWithin n s t c = .ok (u, c₁)) :
    c.Recalls c₁ ∧ cx.Complete c₁ := by
  induction n generalizing s t c with
  | zero => cases run
  | succ n ih =>
    obtain ⟨below, c₂, asks, run⟩ := Check.bind_ok run
    obtain ⟨recalls₂, complete₂, _⟩ := complete.compares ground spelled left asks
    cases below with
    | true =>
      cases run
      exact ⟨recalls₂, complete₂⟩
    | false =>
      have right₂ : t.Filed c₂ := by rwa [Ty.Filed, recalls₂.types]
      obtain ⟨above, c₃, asks, run⟩ := Check.bind_ok run
      obtain ⟨recalls₃, complete₃, _⟩ := complete₂.compares ground spelled right₂ asks
      have recalls := recalls₂.trans recalls₃
      cases above with
      | true =>
        cases run
        exact ⟨recalls, complete₃⟩
      | false =>
        obtain ⟨s', widens, left', _⟩ := complete₃.widen (t := s) (by rwa [Ty.Filed, recalls.types])
        obtain ⟨t', widens', right', _⟩ :=
          complete₃.widen (t := t) (by rwa [Ty.Filed, recalls.types])
        change (cx.resolver.widen s >>= fun s' => cx.resolver.widen t >>= fun t' =>
          cx.resolver.lubAfter n s t s' t') c₃ = _ at run
        rw [Check.bind_apply, widens] at run
        change (cx.resolver.widen t >>= fun t' => cx.resolver.lubAfter n s t s' t') c₃ = _ at run
        rw [Check.bind_apply, widens'] at run
        change cx.resolver.lubAfter n s t s' t' c₃ = _ at run
        rw [Resolver.lubAfter] at run
        split at run
        · cases run
          exact ⟨recalls, complete₃⟩
        · obtain ⟨recalls₁, complete₁⟩ := ih complete₃ left' right' run
          exact ⟨recalls.trans recalls₁, complete₁⟩

end Complete

/-- What is asked after a check changes nothing but the kept answers. -/
theorem Surveyed.complete (nested : cx.WellNested) (spelled : cx.Spelled)
    (surveyed : cx.Surveyed c) :
    ∃ c₀, cx.check (.start cx.names) = .ok ((), c₀) ∧ c₀.Recalls c ∧ cx.Complete c := by
  induction surveyed with
  | checked run => exact ⟨_, run, .refl _, check_complete nested spelled run⟩
  | isSubtype _ left _ run ih =>
    obtain ⟨c₀, checks, recalls, complete⟩ := ih
    obtain ⟨more, complete', _⟩ := complete.compares nested.toGrounded spelled left run
    exact ⟨c₀, checks, recalls.trans more, complete'⟩
  | widen _ entered run ih =>
    obtain ⟨c₀, checks, recalls, complete⟩ := ih
    obtain ⟨u, run', _⟩ := complete.widen entered
    cases run.symm.trans run'
    exact ⟨c₀, checks, recalls, complete⟩
  | lub _ left right run ih =>
    obtain ⟨c₀, checks, recalls, complete⟩ := ih
    obtain ⟨more, complete'⟩ := complete.lubWithin nested.toGrounded spelled left right run
    exact ⟨c₀, checks, recalls.trans more, complete'⟩

/-- Widening a type again and again ends at a kind. -/
def Based (cx : Context) (c : Checker) (s : Ty) (j : Kind) : Prop :=
  ∃ n c', cx.resolver.climb n s c = .ok (.intrinsic j, c')

theorem Based.steps {K : Ty → Prop} (based : cx.Based c s j) (traced : cx.Traced c K)
    (own : K s) : ∃ n, Steps (cx.Rises c) n s (.intrinsic j) := by
  obtain ⟨n, c', climbs⟩ := based
  obtain ⟨u, climbs', _, steps⟩ := traced.climb _ n own
  cases climbs.symm.trans climbs'
  exact ⟨n, steps⟩

theorem Complete.based (complete : cx.Complete c) (filed : s.Filed c) (based : cx.Based c s j) :
    ∃ n, Steps (cx.Rises c) n s (.intrinsic j) :=
  based.steps complete.traced filed

/-- What widens to a kind does not go round in a circle. -/
theorem Based.not_spins (based : cx.Based c s j) : ¬c.Spins s := by
  intro spins
  obtain ⟨n, c', climbs⟩ := based
  have turns : ∃ u, (cx.asking (cx.oracle cx.questionBound)).climb n s c = .ok (u, c) ∧
      u.isSingleton = true := spins.climb _ n
  obtain ⟨u, climbs', single⟩ := turns
  rw [resolver_eq] at climbs
  cases climbs.symm.trans climbs'
  cases single

end Context

/-! ### The closed form -/

theorem Ty.isBelowSingleton_iff {s t : Ty} :
    s.isBelowSingleton t = true ↔ s = t ∨ s = .error ∨ s = .intrinsic .nothing := by
  simp [isBelowSingleton, isError, isNothing, or_assoc]

theorem Kind.isSubkind_iff {j k : Kind} :
    j.isSubkind k = true ↔
      j = k ∨ k = .any ∨ j = .nothing ∨ j = .error ∨ k = .error ∨ (j = .null ∧ k = .string) := by
  simp only [isSubkind, Bool.or_eq_true, Bool.and_eq_true, beq_iff_eq]
  tauto

/-- After a check, whether an entered type whose widening ends at the kind `j` is below another
type has one answer, whatever was asked before. Below a singleton are only itself, the error type
and `Nothing`; below a kind is what ends at a kind below it. -/
theorem Draft.subtype_answers_closed (d : Draft) (options : Options) {c : Checker}
    (surveyed : (d.context options).Surveyed c) {s t : Ty} (left : s ∈ c.types) {j : Kind}
    (based : (d.context options).Based c s j) :
    ∃ b, (∀ c₂, (d.context options).Surveyed c₂ →
        ∃ c', (d.context options).resolver.isSubtype s t c₂ = .ok (b, c')) ∧
      (t.isSingleton = true → (b = true ↔ s = t ∨ s = .error ∨ s = .intrinsic .nothing)) ∧
      ∀ k, t = .intrinsic k →
        (b = true ↔ j = k ∨ k = .any ∨ j = .nothing ∨ j = .error ∨ k = .error ∨
          (j = .null ∧ k = .string)) := by
  have nested := d.wellNested options
  have spelled := d.spelled options
  obtain ⟨c₀, checks, recalls, complete⟩ := surveyed.complete nested spelled
  obtain ⟨n, steps⟩ := complete.based left based
  have answered : ∀ c₂, (d.context options).Surveyed c₂ → ∃ b c',
      (d.context options).resolver.isSubtype s t c₂ = .ok (b, c') ∧
      (t.isSingleton = true → b = s.isBelowSingleton t) ∧
      ∀ k, t = .intrinsic k → b = j.isSubkind k := by
    intro c₂ surveyed₂
    obtain ⟨c₁, checks', recalls₂, complete₂⟩ := surveyed₂.complete nested spelled
    cases checks.symm.trans checks'
    have left₂ : s.Filed c₂ := by rwa [Ty.Filed, recalls₂.types, ← recalls.types]
    have rises : (d.context options).Rises c₂ = (d.context options).Rises c := by
      rw [recalls₂.rises, recalls.rises]
    have calm : ¬c₂.Spins s := by
      rw [recalls₂.spins, ← recalls.spins]
      exact based.not_spins
    rcases complete₂.isSubtype left₂ (t := t) with ⟨b, c₃, run, _⟩ | ⟨_, spins⟩
    · obtain ⟨more, complete₃, compares⟩ :=
        complete₂.compares nested.toGrounded spelled left₂ run
      refine ⟨b, c₃, run, fun single => compares.of_singleton single, ?_⟩
      rintro k rfl
      refine compares.of_base complete₃.coherent.orderly (n := n) ?_
      rwa [more.rises, rises]
    · exact absurd spins calm
  obtain ⟨b, _, _, single, kind⟩ := answered c surveyed
  refine ⟨b, fun c₂ surveyed₂ => ?_, fun own => ?_, fun k own => ?_⟩
  · obtain ⟨b', c', run, single', kind'⟩ := answered c₂ surveyed₂
    have same : b' = b := by
      cases t with
      | intrinsic k => rw [kind k rfl, kind' k rfl]
      | _ => rw [single rfl, single' rfl]
    exact ⟨c', same ▸ run⟩
  · rw [single own, Ty.isBelowSingleton_iff]
  · rw [kind k own, Kind.isSubkind_iff]

/-- A draft with singletons of bindings that have singletons as their types. -/
def Draft.tower : Draft where
  text := "val x: 5 = 5 val y: x.type = x val z: y.type = y"
  stmts :=
    [.val ⟨[], .val, ⟨[], "x"⟩, some (.lit [] ⟨[], .int 5⟩ false), .lit ⟨[], .int 5⟩⟩,
      .val ⟨[], .val, ⟨[], "y"⟩, some (.singleton [] (.name ⟨[], "x"⟩)), .name ⟨[], "x"⟩⟩,
      .val ⟨[], .val, ⟨[], "z"⟩, some (.singleton [] (.name ⟨[], "y"⟩)), .name ⟨[], "y"⟩⟩]

/-- The singleton of `y` is below `Int`, which its widening ends at after three steps. -/
theorem Draft.subtype_answers_closed_tower : ∃ c b,
    (tower.context default).Surveyed c ∧ .path 3 ∈ c.types ∧
    (tower.context default).Based c (.path 3) .int ∧
    (∀ c₂, (tower.context default).Surveyed c₂ →
      ∃ c', (tower.context default).resolver.isSubtype (.path 3) (.intrinsic .int) c₂ =
        .ok (b, c')) ∧ b = true := by
  have checked : (match (tower.context default).check (.start (tower.context default).names) with
    | .error _ => false
    | .ok (_, c) =>
      c.types.contains (.path 3) &&
        match (tower.context default).resolver.climb 3 (.path 3) c with
        | .error _ => false
        | .ok (u, _) => u == .intrinsic .int) = true := by decide +kernel
  split at checked
  · cases checked
  next c run =>
  rw [Bool.and_eq_true] at checked
  obtain ⟨entered, ends⟩ := checked
  have member : .path 3 ∈ c.types := Array.contains_iff_mem.mp entered
  split at ends
  · cases ends
  next u c' climbs =>
  have surveyed : (tower.context default).Surveyed c := .checked run
  have based : (tower.context default).Based c (.path 3) .int :=
    ⟨3, c', eq_of_beq ends ▸ climbs⟩
  obtain ⟨b, answers, _, kind⟩ :=
    subtype_answers_closed tower default (t := .intrinsic .int) surveyed member based
  exact ⟨c, b, surveyed, member, based, answers, (kind .int rfl).mpr (.inl rfl)⟩

end Solo

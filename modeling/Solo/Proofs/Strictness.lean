import Solo.Proofs.Interning
import Solo.Proofs.Subtyping

/-!
# Singletons and what they widen to

In a program without errors a singleton is strictly below the kind that it widens to. It may also
widen to another singleton, and then neither is below the other, because singletons are below no
other singletons.
-/

namespace Solo

/-! ### Questions of one step -/

section
variable {cx : Context} {c : Checker} {s t up : Ty}

/-- Whether something is below a singleton is known without a step up. -/
theorem Checker.Answers.belowSingleton {r : Resolver} (widens : r.widen s c = .ok (up, c))
    (single : t.isSingleton = true) : c.Answers False (r.isSubtype s t) :=
  .isSubtypeWithin (.searchSubtype widens fun _ kind => by cases single.symm.trans kind)

/-- Whether a type is below the kind that it widens to is known after one step up. -/
theorem Checker.Answers.belowWidened {r : Resolver} {k : Kind}
    (widens : r.widen s c = .ok (.intrinsic k, c)) :
    c.Answers False (r.isSubtype s (.intrinsic k)) :=
  .isSubtypeWithin (.searchSubtype widens fun _ _ =>
    .climbSubtype (.isSubtypeWithin (.searchSubtype rfl nofun)))

namespace Context.Coherent

variable (coherent : cx.Coherent c) (ground : cx.Grounded) (spelled : cx.Spelled)
include coherent ground spelled

/-- An answer that is sure to be given is the one of the closed form. -/
theorem compares (answers : c.Answers False (cx.resolver.isSubtype s t)) :
    ∃ b c', cx.resolver.isSubtype s t c = .ok (b, c') ∧ cx.Follows c c' ∧ cx.Compares c' s t b := by
  rcases answers with ⟨b, c', answered, _⟩ | ⟨_, never⟩
  · rw [resolver_eq] at answered ⊢
    obtain ⟨_, onward, compares⟩ :=
      (cx.keeper ground spelled).isSubtype ground s t coherent b c' answered
    exact ⟨b, c', answered, onward.follows, compares⟩
  · exact never.elim

theorem belowSingleton (widens : cx.resolver.widen s c = .ok (up, c))
    (single : t.isSingleton = true) :
    ∃ c', cx.resolver.isSubtype s t c = .ok (s.isBelowSingleton t, c') := by
  obtain ⟨b, c', answered, _, closed⟩ :=
    coherent.compares ground spelled (.belowSingleton widens single)
  rw [closed.of_singleton single] at answered
  exact ⟨c', answered⟩

theorem belowWidened {k : Kind} (widens : cx.resolver.widen s c = .ok (.intrinsic k, c))
    (rises : cx.Rises c s (.intrinsic k)) :
    ∃ c', cx.resolver.isSubtype s (.intrinsic k) c = .ok (true, c') := by
  obtain ⟨b, c', answered, follows, closed⟩ :=
    coherent.compares ground spelled (.belowWidened widens)
  rw [closed.of_base follows.orderly (.step (rises.kept follows) (.none _)),
    k.isSubkind_self] at answered
  exact ⟨c', answered⟩

end Context.Coherent

end

/-- Nothing is below a singleton but itself, the error type and `Nothing`. -/
theorem Ty.isBelowSingleton_eq_false {s t : Ty} (apart : s ≠ t) (notError : s ≠ .error)
    (notNothing : s ≠ .intrinsic .nothing) : s.isBelowSingleton t = false := by
  rw [Bool.eq_false_iff, Ne, isBelowSingleton_iff]
  rintro (same | wrong | wrong)
  · exact apart same
  · exact notError wrong
  · exact notNothing wrong

/-! ### Programs without errors -/

namespace Draft.Passes

variable {d : Draft} {o : Options} {q : Checked} {c : Checker} (passes : d.Passes o q)
include passes

theorem hosts : (d.context o).Hosts #[] q.checker := by
  obtain ⟨⟨diagnostics, c⟩, checked, same⟩ := Except.bind_ok passes.checked
  cases same
  obtain ⟨_, c₁, check, taken⟩ := Check.bind_ok checked
  have complete := Context.check_complete (d.wellNested o) (d.spelled o) check
  obtain ⟨coherent, _⟩ :=
    Context.takeDiagnostics_upholds (d.grounded o) complete.coherent diagnostics c taken
  exact ⟨coherent, by simp⟩

/-- Whatever is asked after the check, all steps up are known. -/
theorem traced (later : (d.context o).Later q.checker c) : (d.context o).Traced c fun _ => True := by
  refine ⟨fun x _ typable => ?_, fun _ _ _ _ => trivial⟩
  obtain ⟨u, found, declared⟩ := passes.certified.2.binding typable.1
  rcases later.follows.type (.inl found) with found' | ⟨wrong, _⟩
  · rw [found']
    rfl
  · exact absurd wrong declared.sane.1

theorem widen (later : (d.context o).Later q.checker c) (t : Ty) :
    ∃ u, (d.context o).resolver.widen t c = .ok (u, c) ∧ (d.context o).Rises c t u := by
  obtain ⟨u, widens, _, rises⟩ := (passes.traced later).widen _ (t := t) trivial
  exact ⟨u, widens, rises⟩

end Draft.Passes

/-- After a check without an error and whatever else is asked, every singleton widens to something.
If that is a kind other than `Nothing` and the error type, the singleton is strictly below it; if it
is another singleton, neither is below the other. -/
theorem Draft.singleton_below_widened (d : Draft) (options : Options) (q : Checked)
    (passes : d.Passes options q) (rs : List Request) {log : List (Request × Option Nat)}
    {ts : Array Ty} {c : Checker}
    (run : ((d.context options).serveAll rs).run #[] q.checker = .ok ((log, ts), c)) (s : Ty)
    (single : s.isSingleton = true) :
    ∃ w, (d.context options).resolver.widen s c = .ok (w, c) ∧
      (w ≠ .error → w ≠ .intrinsic .nothing → w ≠ s →
        (∃ c', (d.context options).resolver.isSubtype s w c = .ok (!w.isSingleton, c')) ∧
        ∃ c', (d.context options).resolver.isSubtype w s c = .ok (false, c')) := by
  have ground := d.grounded options
  have spelled := d.spelled options
  obtain ⟨hosts, later, _⟩ :=
    Context.serveAll_enters ground spelled rs passes.hosts log ts c run
  have coherent := hosts.coherent
  obtain ⟨w, widens, rises⟩ := passes.widen later s
  obtain ⟨up, widens', _⟩ := passes.widen later w
  refine ⟨w, widens, fun notError notNothing apart => ⟨?_, ?_⟩⟩
  · cases kind : w.isSingleton with
    | false =>
      obtain ⟨k, rfl⟩ := Ty.exists_kind kind
      exact coherent.belowWidened ground spelled widens rises
    | true =>
      have other : s.isBelowSingleton w = false := by
        refine Ty.isBelowSingleton_eq_false apart.symm ?_ ?_ <;>
        · rintro rfl
          cases single
      rw [Bool.not_true, ← other]
      exact coherent.belowSingleton ground spelled widens kind
  · rw [← Ty.isBelowSingleton_eq_false apart notError notNothing]
    exact coherent.belowSingleton ground spelled widens' single

/-- The singleton of 5 is strictly below `Int`, also once other singletons are entered. -/
theorem Draft.singleton_below_widened_tower : ∃ q log ts c, tower.Passes default q ∧
    ((tower.context default).serveAll [.pathType 4, .evaluate]).run #[] q.checker =
      .ok ((log, ts), c) ∧
    (∃ c', (tower.context default).resolver.isSubtype (.literal (.int 5)) (.intrinsic .int) c =
      .ok (true, c')) ∧
    ∃ c', (tower.context default).resolver.isSubtype (.intrinsic .int) (.literal (.int 5)) c =
      .ok (false, c') := by
  have served : ((tower.context default).checked.toOption.any fun q => !q.hasErrors &&
      (((tower.context default).serveAll [.pathType 4, .evaluate]).run #[]
        q.checker).toOption.isSome) = true := by decide +kernel
  cases checked : (tower.context default).checked with
  | error e =>
    rw [checked] at served
    cases served
  | ok q =>
    simp only [checked, Except.toOption, Option.any_some, Bool.and_eq_true,
      Bool.not_eq_true'] at served
    obtain ⟨clean, ends⟩ := served
    cases run : ((tower.context default).serveAll [.pathType 4, .evaluate]).run #[] q.checker with
    | error e =>
      rw [run] at ends
      cases ends
    | ok r =>
      obtain ⟨⟨log, ts⟩, c⟩ := r
      have passes : tower.Passes default q := ⟨checked, clean⟩
      obtain ⟨w, widens, strict⟩ :=
        singleton_below_widened tower default q passes _ run (.literal (.int 5)) rfl
      cases widens
      exact ⟨q, log, ts, c, passes, run, strict nofun nofun nofun⟩

/-- The singleton of a binding whose type is 5 is not below the singleton of 5, which it widens to:
not every singleton is below what it widens to. -/
theorem Draft.not_always_below_widened :
    ¬∀ (d : Draft) (options : Options) (q : Checked), d.Passes options q →
      ∀ s ∈ q.checker.types, s.isSingleton = true →
      ∀ w c, (d.context options).resolver.widen s q.checker = .ok (w, c) → w ≠ .error →
        w ≠ .intrinsic .nothing →
        (∃ c', (d.context options).resolver.isSubtype s w c = .ok (true, c')) ∧
        ∃ c', (d.context options).resolver.isSubtype w s c = .ok (false, c') := by
  have refuted : ((tower.context default).checked.toOption.any fun q => !q.hasErrors &&
      (q.checker.types.contains (.path 2) &&
        match (tower.context default).resolver.widen (.path 2) q.checker with
        | .error _ => false
        | .ok (w, c) => w == .literal (.int 5) &&
          match (tower.context default).resolver.isSubtype (.path 2) w c with
          | .error _ => false
          | .ok (b, _) => !b)) = true := by decide +kernel
  intro always
  cases checked : (tower.context default).checked with
  | error e =>
    rw [checked] at refuted
    cases refuted
  | ok q =>
    simp only [checked, Except.toOption, Option.any_some, Bool.and_eq_true,
      Bool.not_eq_true'] at refuted
    obtain ⟨clean, entered, refuted⟩ := refuted
    split at refuted
    · cases refuted
    next w c widens =>
    obtain ⟨rfl, refuted⟩ : w = .literal (.int 5) ∧ _ := by simpa using refuted
    obtain ⟨⟨c', below⟩, _⟩ := always tower default q ⟨checked, clean⟩ (.path 2)
      (Array.contains_iff_mem.mp entered) rfl _ c widens nofun nofun
    rw [below] at refuted
    cases refuted

end Solo

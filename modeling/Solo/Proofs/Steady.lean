import Solo.Proofs.Constancy

/-!
# Questions after checking

After checking the tables have the answers to all questions that lead elsewhere. So constants and
inhabitants are found without a fault, without a report and without a change of the tables, and a
constant is the same whatever was asked before.
-/

namespace Solo

/-- A checker that has the tables of another one. Rosters, purities and constants in progress may
differ. -/
def Checker.Like (F c : Checker) : Prop :=
  ∃ names interns purities evaluating,
    c = { F with names, interns, purities, evaluating }

namespace Checker.Like

variable {F c : Checker}

theorem refl (F : Checker) : F.Like F := ⟨_, _, _, _, rfl⟩

theorem symbolTypes (like : F.Like c) : c.symbolTypes = F.symbolTypes := by
  obtain ⟨_, _, _, _, rfl⟩ := like
  rfl

theorem nodeTypes (like : F.Like c) : c.nodeTypes = F.nodeTypes := by
  obtain ⟨_, _, _, _, rfl⟩ := like
  rfl

theorem signatures (like : F.Like c) : c.signatures = F.signatures := by
  obtain ⟨_, _, _, _, rfl⟩ := like
  rfl

theorem witnesses (like : F.Like c) : c.witnesses = F.witnesses := by
  obtain ⟨_, _, _, _, rfl⟩ := like
  rfl

theorem diagnostics (like : F.Like c) : c.diagnostics = F.diagnostics := by
  obtain ⟨_, _, _, _, rfl⟩ := like
  rfl

theorem update (like : F.Like c) {f : Checker → Checker}
    (same : ∀ c, ∃ names interns purities evaluating,
      f c = { c with names, interns, purities, evaluating }) : F.Like (f c) := by
  obtain ⟨_, _, _, _, updated⟩ := same c
  obtain ⟨_, _, _, _, rfl⟩ := like
  exact ⟨_, _, _, _, updated⟩

theorem sound {p : BoundProgram} (like : F.Like c) (cert : Certified p F) :
    Sound p F c ∧ c.Quiet ∧ c.Within F := by
  obtain ⟨_, _, _, _, rfl⟩ := like
  have sound := cert.sound
  have within := Checker.Grows.refl F
  refine ⟨{ sound with }, ⟨?_, ?_⟩, { within with }⟩
  · simp [cert.diagnostics]
  · simp [cert.pursuits]

end Checker.Like

/-- An action that ends without a fault and changes no table. -/
def Steady {α : Type} (F : Checker) (a : Check α) (Q : α → Prop) : Prop :=
  ∀ c, F.Like c → ∃ x c', a c = .ok (x, c') ∧ F.Like c' ∧ c'.purities = c.purities ∧ Q x

theorem Check.bind_eq {α β : Type} {a : Check α} {f : α → Check β} {c c' : Checker} {x : α}
    (run : a c = .ok (x, c')) : (a >>= f) c = f x c' := by
  change (a c).bind (fun r => f r.1 r.2) = _
  rw [run]
  rfl

namespace Steady

variable {F : Checker} {α β : Type} {a : Check α} {Q : α → Prop} {R : β → Prop}

theorem pure {x : α} (holds : Q x) : Steady F (Pure.pure x) Q :=
  fun c like => ⟨x, c, rfl, like, rfl, holds⟩

theorem bind {f : α → Check β} (first : Steady F a Q) (rest : ∀ x, Q x → Steady F (f x) R) :
    Steady F (a >>= f) R := by
  intro c like
  obtain ⟨x, c₁, run₁, like₁, same₁, holds₁⟩ := first c like
  obtain ⟨y, c₂, run₂, like₂, same₂, holds₂⟩ := rest x holds₁ c₁ like₁
  exact ⟨y, c₂, (Check.bind_eq run₁).trans run₂, like₂, same₂.trans same₁, holds₂⟩

theorem get : Steady F MonadState.get fun c => F.Like c :=
  fun c like => ⟨c, c, rfl, like, rfl, like⟩

theorem update {f : Checker → Checker}
    (same : ∀ c, ∃ names interns evaluating,
      f c = { c with names, interns, evaluating }) :
    Steady F (modify f) fun _ => True := by
  intro c like
  refine ⟨(), f c, rfl, like.update fun c => ?_, ?_, trivial⟩
  · obtain ⟨_, _, _, updated⟩ := same c
    exact ⟨_, _, _, _, updated⟩
  · obtain ⟨_, _, _, updated⟩ := same c
    rw [updated]

theorem enterText (v : Literal) : Steady F (Check.enterText v) fun _ => True := by
  cases v with
  | str s => exact update fun _ => ⟨_, _, _, rfl⟩
  | _ => exact pure trivial

theorem enterLiteral (v : Literal) : Steady F (Check.enterLiteral v) fun _ => True :=
  fun _ like => ⟨_, _, rfl, like.update fun _ => ⟨_, _, _, _, rfl⟩, rfl, trivial⟩

/-- What ends without a fault and a report ends rightly. -/
theorem right {p : BoundProgram} {P : Prop} (cert : Certified p F)
    (steady : Steady F a fun _ => True) (keeps : Keeps p F P a Q) (given : P) : Steady F a Q := by
  intro c like
  obtain ⟨x, c₁, run, like₁, same, _⟩ := steady c like
  obtain ⟨_, quiet, within⟩ := like₁.sound cert
  exact ⟨x, c₁, run, like₁, same,
    ((keeps c x c₁ run).2 given quiet within (like.sound cert).1).2⟩

end Steady

/-! ### Constants and inhabitants -/

namespace Certified

variable {cx : Context} {F : Checker} (cert : Certified cx.toBoundProgram F)

section
include cert

theorem answers : Answers F cx.resolver := .ofDepth cert.bound F cx.questionBound

/-- The type of a binding is looked up, and nothing changes. -/
theorem typeOf_eq {c : Checker} (like : F.Like c) {x : SymbolId}
    (binding : (cx.symbol x).role.isBinding = true) :
    ∃ t, F.symbolTypes.find? x = some t ∧ Sane cx.toBoundProgram t ∧
      cx.resolver.typeOf x c = .ok (t, c) := by
  obtain ⟨t, known, declared⟩ := cert.binding binding
  refine ⟨t, known, declared.sane, ?_⟩
  change (Resolver.ofDepth cx _).typeOfSymbol x c = _
  rw [Resolver.typeOfSymbol, Check.get_bind, like.symbolTypes, known]
  rfl

theorem typeOf {x : SymbolId} (binding : (cx.symbol x).role.isBinding = true) :
    Steady F (cx.resolver.typeOf x) fun t =>
      F.symbolTypes.find? x = some t ∧ Sane cx.toBoundProgram t := by
  intro c like
  obtain ⟨t, known, sane, run⟩ := cert.typeOf_eq like binding
  exact ⟨t, c, run, like, rfl, known, sane⟩

theorem constants (n : Nat) :
    (∀ x, Steady F (cx.resolver.constantOf n x) fun _ => True) ∧
      ∀ e, Steady F (cx.resolver.constant n e) fun _ => True := by
  have apply : ∀ result, Steady F (Check.apply result) fun _ => True := by
    intro result
    cases result with
    | error e => exact .pure trivial
    | ok v => exact (Steady.enterText v).bind fun _ _ => .pure trivial
  induction n with
  | zero => exact ⟨fun _ => .pure trivial, fun _ => .pure trivial⟩
  | succ n ih =>
    obtain ⟨ofSymbol, ofExpr⟩ := ih
    refine ⟨fun x => ?_, fun e => ?_⟩
    · rw [Resolver.constantOf]
      refine Steady.get.bind fun c _ => ?_
      split
      · exact .pure trivial
      · dsimp only
        split
        · exact .pure trivial
        · next usable =>
          simp only [Bool.or_eq_true, Bool.not_eq_true', decide_eq_true_eq, not_or,
            Bool.not_eq_false] at usable
          refine (cert.typeOf (Role.isBinding_of_isStable usable.1)).bind fun t _ => ?_
          split
          · exact .pure trivial
          · exact ofSymbol _
          · split
            · next d _ =>
              refine (Steady.update fun _ => ⟨_, _, _, rfl⟩).bind fun _ _ => ?_
              refine (ofExpr d.init).bind fun _ _ => ?_
              exact (Steady.update fun _ => ⟨_, _, _, rfl⟩).bind fun _ _ => .pure trivial
            · exact .pure trivial
    · cases e with
      | lit l => exact .pure trivial
      | paren m e => exact ofExpr e
      | name x =>
        rw [Resolver.constant]
        split
        · exact ofSymbol _
        · exact .pure trivial
      | unary m op e =>
        rw [Resolver.constant]
        refine (ofExpr e).bind fun found _ => ?_
        split
        · exact apply _
        · exact .pure trivial
      | bin m op a b =>
        rw [Resolver.constant]
        refine (ofExpr a).bind fun found _ => ?_
        split
        · exact .pure trivial
        · refine (ofExpr b).bind fun found' _ => ?_
          split
          · exact apply _
          · exact .pure trivial
      | _ => exact .pure trivial

theorem constantAt (depth : Nat) (e : Expr Mark) :
    Steady F (cx.resolver.constantAt depth e) fun found =>
      ∀ v, found = some v → Constant cx.toBoundProgram F e v :=
  ((cert.constants _).2 e).right cert ((cert.answers.constants _).2 e) trivial

omit cert in
theorem inhabitantOfPlain (n : Nat) {t : Ty} (plain : ∀ x, t ≠ .path x) :
    Steady F (cx.resolver.inhabitantWithin n t) fun _ => True := by
  unfold Resolver.inhabitantWithin
  split
  · exact .pure trivial
  · exact .pure trivial
  · exact .pure trivial
  · exact .pure trivial
  · exact absurd rfl (plain _)
  · exact absurd rfl (plain _)

theorem inhabitantWithin (n : Nat) {t : Ty} (sane : Sane cx.toBoundProgram t) :
    Steady F (cx.resolver.inhabitantWithin n t) fun _ => True := by
  induction n generalizing t with
  | zero =>
    cases t with
    | path x => exact .pure trivial
    | _ => exact inhabitantOfPlain 0 nofun
  | succ n ih =>
    cases t with
    | path x =>
      rw [Resolver.inhabitantWithin]
      refine (cert.typeOf (Role.isBinding_of_isStable (sane.2 _ rfl))).bind fun declared found => ?_
      dsimp only
      split
      · refine (ih found.2).bind fun result _ => ?_
        cases result <;> exact .pure trivial
      · refine ((cert.constants n).1 x).bind fun result _ => ?_
        cases result <;> exact .pure trivial
    | _ => exact inhabitantOfPlain (n + 1) nofun

theorem inhabitant {t : Ty} (sane : Sane cx.toBoundProgram t) :
    Steady F (cx.resolver.inhabitant t) fun found =>
      Resolves cx.toBoundProgram F t (found.map Witness.value) := by
  refine Steady.right cert ?_ (cert.answers.inhabitant fun _ => sane) trivial
  refine (cert.inhabitantWithin _ sane).bind fun found _ => ?_
  split
  · exact (Steady.enterLiteral _).bind fun _ _ => .pure trivial
  · exact .pure trivial

end

end Certified

/-! ### The same question again -/

/-- An action that gives one answer in all states with the tables of `F` and `E` being evaluated,
and ends with `E'` being evaluated. -/
def Repeats (F : Checker) (E E' : List SymbolId) {α : Type} (a : Check α) (x : α) : Prop :=
  ∀ c, F.Like c → c.evaluating = E →
    ∃ c', a c = .ok (x, c') ∧ F.Like c' ∧ c'.evaluating = E' ∧ c'.purities = c.purities

namespace Repeats

variable {F : Checker} {E E₁ E₂ : List SymbolId} {α β : Type} {x : α} {y : β}

theorem pure (F : Checker) (E : List SymbolId) (x : α) : Repeats F E E (Pure.pure x) x :=
  fun c like same => ⟨c, rfl, like, same, rfl⟩

theorem bind {a : Check α} {f : α → Check β} (first : Repeats F E E₁ a x)
    (rest : Repeats F E₁ E₂ (f x) y) : Repeats F E E₂ (a >>= f) y := by
  intro c like same
  obtain ⟨c₁, run₁, like₁, same₁, purities₁⟩ := first c like same
  obtain ⟨c₂, run₂, like₂, same₂, purities₂⟩ := rest c₁ like₁ same₁
  exact ⟨c₂, (Check.bind_eq run₁).trans run₂, like₂, same₂, purities₂.trans purities₁⟩

theorem get {f : Checker → Check α} (only : ∀ c c', c.evaluating = c'.evaluating → f c = f c')
    (rest : ∃ x, Repeats F E E₁ (f { F with evaluating := E }) x) :
    ∃ x, Repeats F E E₁ (MonadState.get >>= f) x := by
  obtain ⟨x, rest⟩ := rest
  refine ⟨x, fun c like same => ?_⟩
  rw [Check.get_bind, only c { F with evaluating := E } same]
  exact rest c like same

theorem evaluating (f : List SymbolId → List SymbolId) :
    Repeats F E (f E) (modify fun c : Checker => { c with evaluating := f c.evaluating }) () := by
  rintro c like rfl
  exact ⟨_, rfl, like.update (f := fun c => { c with evaluating := f c.evaluating })
    fun _ => ⟨_, _, _, _, rfl⟩, rfl, rfl⟩

theorem enterText (v : Literal) : Repeats F E E (Check.enterText v) () := by
  cases v with
  | str s =>
    rintro c like rfl
    exact ⟨_, rfl, like.update (f := fun c => { c with names := c.names.insert s })
      fun _ => ⟨_, _, _, _, rfl⟩, rfl, rfl⟩
  | _ => exact pure F E ()

theorem apply (result : Except OpError Literal) :
    ∃ found, Repeats F E E (Check.apply result) found := by
  cases result with
  | error e => exact ⟨_, pure F E none⟩
  | ok v => exact ⟨_, (enterText v).bind (pure F E (some v))⟩

/-- So the answer that was given once is given again. -/
theorem again {a : Check α} {c c' c₁ : Checker} {found : α} (repeats : Repeats F E E₁ a x)
    (like : F.Like c) (same : c.evaluating = E) (like' : F.Like c') (same' : c'.evaluating = E)
    (run : a c = .ok (found, c₁)) : ∃ c₁', a c' = .ok (found, c₁') := by
  obtain ⟨c₂, run₂, _⟩ := repeats c like same
  obtain ⟨c₁', run', _⟩ := repeats c' like' same'
  cases run.symm.trans run₂
  exact ⟨c₁', run'⟩

end Repeats

namespace Certified

variable {cx : Context} {F : Checker} (cert : Certified cx.toBoundProgram F)
include cert

theorem typeOf_repeats {x : SymbolId} (E : List SymbolId)
    (binding : (cx.symbol x).role.isBinding = true) :
    ∃ t, Repeats F E E (cx.resolver.typeOf x) t := by
  obtain ⟨t, known, _⟩ := cert.binding binding
  refine ⟨t, fun c like same => ?_⟩
  obtain ⟨t', known', _, run⟩ := cert.typeOf_eq like binding
  cases known.symm.trans known'
  exact ⟨c, run, like, same, rfl⟩

/-- What constant there is depends on what is being evaluated only. -/
theorem constants_repeat (n : Nat) :
    (∀ E x, ∃ found, Repeats F E E (cx.resolver.constantOf n x) found) ∧
      ∀ E e, ∃ found, Repeats F E E (cx.resolver.constant n e) found := by
  have unknown : ∀ E, ∃ found : Option Literal, Repeats F E E (Pure.pure none) found :=
    fun E => ⟨_, .pure F E none⟩
  induction n with
  | zero => exact ⟨fun E _ => unknown E, fun E _ => unknown E⟩
  | succ n ih =>
    obtain ⟨ofSymbol, ofExpr⟩ := ih
    refine ⟨fun E x => ?_, fun E e => ?_⟩
    · rw [Resolver.constantOf]
      refine Repeats.get (fun c c' same => by simp only [same]) ?_
      dsimp only
      split
      · exact unknown E
      split
      · exact unknown E
      next usable =>
      simp only [Bool.or_eq_true, Bool.not_eq_true', decide_eq_true_eq, not_or,
        Bool.not_eq_false] at usable
      obtain ⟨t, first⟩ := cert.typeOf_repeats E (Role.isBinding_of_isStable usable.1)
      refine Exists.imp (fun _ => first.bind) ?_
      split
      · exact ⟨_, .pure F E _⟩
      · exact ofSymbol E _
      split
      · next d _ =>
        obtain ⟨found, inner⟩ := ofExpr (x :: E) d.init
        exact ⟨found, (Repeats.evaluating (x :: ·)).bind
          (inner.bind ((Repeats.evaluating List.tail).bind (.pure F E found)))⟩
      · exact unknown E
    · cases e with
      | lit l => exact ⟨_, .pure F E (some l.value)⟩
      | paren m e => exact ofExpr E e
      | name x =>
        rw [Resolver.constant]
        split
        · exact ofSymbol E _
        · exact unknown E
      | unary m op e =>
        obtain ⟨found, first⟩ := ofExpr E e
        cases found with
        | none => exact ⟨_, first.bind (.pure F E none)⟩
        | some v =>
          obtain ⟨_, rest⟩ := Repeats.apply (F := F) (E := E) (op.eval v)
          exact ⟨_, first.bind rest⟩
      | bin m op a b =>
        obtain ⟨found, first⟩ := ofExpr E a
        cases found with
        | none => exact ⟨_, first.bind (.pure F E none)⟩
        | some v =>
          obtain ⟨found', second⟩ := ofExpr E b
          cases found' with
          | none => exact ⟨_, first.bind (second.bind (.pure F E none))⟩
          | some w =>
            obtain ⟨_, rest⟩ := Repeats.apply (F := F) (E := E) (op.eval v w)
            exact ⟨_, first.bind (second.bind rest)⟩
      | _ => exact unknown E

end Certified

/-! ### Between questions -/

/-- A checker of a checked program between two questions: it has the tables that the check left, and
no constant is being evaluated. -/
structure Checked.Idle (q : Checked) (c : Checker) : Prop where
  like : q.checker.Like c
  evaluating : c.evaluating = []

theorem Draft.Passes.idle {d : Draft} {o : Options} {q : Checked} (passes : d.Passes o q) :
    q.Idle q.checker :=
  ⟨.refl _, passes.certified.2.evaluating⟩

end Solo

import Solo.Proofs.Relation

/-!
# Typing is right

Every type, constant, inhabitant and overload that a checker finds without reporting an error is
right. The proofs follow the recursion of the checker: along the syntax tree, given that the
questions that lead elsewhere are answered rightly, and then by the depth of such questions.
-/

namespace Solo

/-- A right answer to the question which value a type has only, or a problem that is an error. -/
def Resolves (p : BoundProgram) (c : Checker) (t : Ty) : Except Problem Literal → Prop
  | .ok v => Sole p c t v
  | .error problem => problem.severity = .error

namespace Answers

variable {F : Checker} {r : Resolver} {P : Prop}

section
variable (answers : Answers F r)
include answers

/-! ### Constants -/

omit answers in
theorem apply {result : Except OpError Literal} :
    Keeps r.toBoundProgram F P (Check.apply result) fun found =>
      ∀ v, found = some v → result = .ok v := by
  cases result with
  | error e => exact .pure fun _ => nofun
  | ok w => exact Keeps.bind (Keeps.enterText w) fun _ => .pure fun _ v same => by cases same; rfl

theorem constants (n : Nat) :
    (∀ {P : Prop} x, Keeps r.toBoundProgram F P (r.constantOf n x) fun found =>
      ∀ v, found = some v → Holds r.toBoundProgram F x v) ∧
    (∀ {P : Prop} e, Keeps r.toBoundProgram F P (r.constant n e) fun found =>
      ∀ v, found = some v → Constant r.toBoundProgram F e v) := by
  induction n with
  | zero => exact ⟨fun _ => .pure fun _ => nofun, fun _ => .pure fun _ => nofun⟩
  | succ n ih =>
    obtain ⟨ofSymbol, ofExpr⟩ := ih
    refine ⟨fun {P} x => ?_, fun {P} e => ?_⟩
    · rw [Resolver.constantOf]
      refine Keeps.get fun c => ?_
      split
      · exact .pure fun _ => nofun
      · dsimp only
        split
        · exact .pure fun _ => nofun
        · next usable =>
          simp only [Bool.or_eq_true, Bool.not_eq_true', decide_eq_true_eq, not_or,
            Bool.not_eq_false] at usable
          refine Keeps.bind ((answers.typeOf x).weaken
            (fun _ => Role.isBinding_of_isStable usable.1) fun _ _ found => found) fun t => ?_
          split
          · next v => exact .pure fun given w same => by cases same; exact .literal given.2.1
          · next y =>
            exact (ofSymbol y).weaken id fun found given right v same =>
              .path given.2.1 (right v same)
          · next k =>
            split
            · next d decl =>
              exact (Keeps.evaluating x (ofExpr d.init)).weaken id fun found given right v same =>
                .init given.2.1 usable.1 decl (right v same)
            · exact .pure fun _ => nofun
    · cases e with
      | lit l => exact .pure fun _ v same => by cases same; exact .lit l
      | paren m e =>
        exact Keeps.weaken (ofExpr e) id fun found _ right v same => .paren (right v same)
      | name x =>
        rw [Resolver.constant]
        split
        · next s target =>
          exact (ofSymbol s).weaken id fun found _ right v same => .name target (right v same)
        · exact .pure fun _ => nofun
      | unary m op e =>
        rw [Resolver.constant]
        refine Keeps.bind (ofExpr e) fun found => ?_
        split
        · exact apply.weaken id fun found given right v same => .unary (given.2 _ rfl) (right v same)
        · exact .pure fun _ => nofun
      | bin m op a b =>
        rw [Resolver.constant]
        refine Keeps.bind (ofExpr a) fun found => ?_
        split
        · exact .pure fun _ => nofun
        · refine Keeps.bind (ofExpr b) fun found' => ?_
          split
          · exact apply.weaken id fun found given right v same =>
              .bin (given.1.2 _ rfl) (given.2 _ rfl) (right v same)
          · exact .pure fun _ => nofun
      | _ => exact .pure fun _ => nofun

omit answers in
theorem inhabitantOfPlain (n : Nat) {t : Ty} (plain : ∀ x, t ≠ .path x) :
    Keeps r.toBoundProgram F P (r.inhabitantWithin n t) (Resolves r.toBoundProgram F t) := by
  unfold Resolver.inhabitantWithin
  split
  · exact .pure fun _ => .inl rfl
  · exact .pure fun _ => .inr (.inl ⟨rfl, rfl⟩)
  · exact .pure fun _ => .inr (.inr (.inl ⟨rfl, rfl⟩))
  · exact .pure fun _ => rfl
  · exact absurd rfl (plain _)
  · exact absurd rfl (plain _)

omit answers in
theorem resolvesPath {x : SymbolId} {a : Check (Option Literal)}
    (keeps : Keeps r.toBoundProgram F P a fun found =>
      ∀ v, found = some v → Holds r.toBoundProgram F x v) :
    Keeps r.toBoundProgram F P (do
      match ← a with
      | some v => return Except.ok v
      | none => return Except.error (Problem.notAConstant (r.nameOf x)))
      (Resolves r.toBoundProgram F (.path x)) := by
  refine keeps.bind fun found => ?_
  cases found with
  | some w => exact .pure fun given => .inr (.inr (.inr ⟨x, rfl, given.2 _ rfl⟩))
  | none => exact .pure fun _ => rfl

theorem inhabitantWithin (n : Nat) {t : Ty} (sane : P → Sane r.toBoundProgram t) :
    Keeps r.toBoundProgram F P (r.inhabitantWithin n t) (Resolves r.toBoundProgram F t) := by
  induction n generalizing t P with
  | zero =>
    cases t with
    | path x => exact .pure fun _ => rfl
    | _ => exact inhabitantOfPlain 0 nofun
  | succ n ih =>
    cases t with
    | path x =>
      rw [Resolver.inhabitantWithin]
      refine Keeps.bind ((answers.typeOf x).weaken
        (fun given => Role.isBinding_of_isStable ((sane given).2 x rfl))
        fun _ _ found => found) fun declared => ?_
      dsimp only
      split
      · next single =>
        refine Keeps.bind (ih fun given => given.2.2.sane) fun found => ?_
        split
        · next v =>
          refine resolvesPath (.pure fun given w same => ?_)
          cases same
          rcases given.2 with rfl | ⟨rfl, _⟩ | ⟨rfl, _⟩ | ⟨y, rfl, next⟩
          · exact .literal given.1.2.1
          · cases single
          · cases single
          · exact .path given.1.2.1 next
        · exact resolvesPath (.pure fun _ => nofun)
      · exact resolvesPath ((answers.constants n).1 x)
    | _ => exact inhabitantOfPlain (n + 1) nofun

theorem inhabitant {t : Ty} (sane : P → Sane r.toBoundProgram t) :
    Keeps r.toBoundProgram F P (r.inhabitant t) fun found =>
      Resolves r.toBoundProgram F t (found.map Witness.value) := by
  refine Keeps.bind (answers.inhabitantWithin _ sane) fun found => ?_
  split
  · next v => exact Keeps.bind (Keeps.enterLiteral v) fun i => .pure fun given => given.1.2
  · exact .pure fun given => given.2

/-! ### Overloads -/

theorem allSubtypes : ∀ (ss ts : List Ty) {P : Prop}, (P → ∀ s ∈ ss, Sane r.toBoundProgram s) →
    (P → ∀ t ∈ ts, Sane r.toBoundProgram t) →
    Keeps r.toBoundProgram F P (r.allSubtypes ss ts) fun b => ss.length = ts.length →
      (b = true ↔ List.Forall₂ (Sub F) ss ts) ∧
        (b = true → List.Forall₂ (Below r.toBoundProgram F) ss ts)
  | s :: ss, t :: ts, P, first, second => by
    rw [Resolver.allSubtypes]
    refine Keeps.bind (answers.isSubtype (fun given => first given s List.mem_cons_self)
      fun given => second given t List.mem_cons_self) fun b => ?_
    split
    · next yes =>
      refine (allSubtypes ss ts
        (fun given k member => first given.1 k (List.mem_cons_of_mem s member))
        (fun given k member => second given.1 k (List.mem_cons_of_mem t member))).weaken id ?_
      intro b given rest same
      obtain ⟨exactly, values⟩ := rest (Nat.succ.inj same)
      have head := given.2.1.mp yes
      exact ⟨by rw [exactly, List.forall₂_cons]; simp [head],
        fun all => .cons (given.2.2 yes) (values all)⟩
    · next no =>
      refine .pure fun given _ => ⟨⟨nofun, fun all => ?_⟩, nofun⟩
      cases all with
      | cons head _ => exact absurd (given.2.1.mpr head) no
  | [], [], _, _, _ => .pure fun _ _ => ⟨⟨fun _ => .nil, fun _ => rfl⟩, fun _ => .nil⟩
  | [], _ :: _, _, _, _ => .pure fun _ => nofun
  | _ :: _, [], _, _, _ => .pure fun _ => nofun

omit answers in
theorem filterAuxM {α : Type} {test : α → Check Bool} {T N : α → Prop} :
    ∀ (xs : List α) {acc : List α} {P : Prop},
      (∀ x ∈ xs, ∀ {P' : Prop}, (P' → P) →
        Keeps r.toBoundProgram F P' (test x) fun b => (b = true → T x) ∧ (b = false → N x)) →
      Keeps r.toBoundProgram F P (xs.filterAuxM test acc) fun ys =>
        acc ⊆ ys ∧ (∀ y ∈ ys, y ∈ acc ∨ y ∈ xs ∧ T y) ∧ ∀ x ∈ xs, x ∈ ys ∨ N x
  | [], acc, _, _ => .pure fun _ => ⟨List.Subset.refl _, fun y member => .inl member, by simp⟩
  | x :: xs, acc, P, tests => by
    refine Keeps.bind (tests x List.mem_cons_self id) fun b => ?_
    refine (filterAuxM xs (T := T) (N := N) fun y member {P'} given =>
      tests y (List.mem_cons_of_mem x member) fun more => (given more).1).weaken id ?_
    rintro ys ⟨_, passes, fails⟩ ⟨old, good, bad⟩
    cases b with
    | true =>
      refine ⟨fun y member => old (List.mem_cons_of_mem x member), ?_, ?_⟩
      · intro y member
        rcases good y member with first | ⟨later, holds⟩
        · rcases List.mem_cons.mp first with rfl | early
          · exact .inr ⟨List.mem_cons_self, passes rfl⟩
          · exact .inl early
        · exact .inr ⟨List.mem_cons_of_mem x later, holds⟩
      · intro y member
        rcases List.mem_cons.mp member with rfl | later
        · exact .inl (old List.mem_cons_self)
        · exact bad y later
    | false =>
      refine ⟨old, ?_, ?_⟩
      · intro y member
        rcases good y member with early | ⟨later, holds⟩
        · exact .inl early
        · exact .inr ⟨List.mem_cons_of_mem x later, holds⟩
      · intro y member
        rcases List.mem_cons.mp member with rfl | later
        · exact .inr (fails rfl)
        · exact bad y later

omit answers in
/-- A filter keeps what passes a test and drops what fails it. -/
theorem filterM {α : Type} {test : α → Check Bool} {T N : α → Prop} {xs : List α}
    (tests : ∀ x ∈ xs, ∀ {P' : Prop}, (P' → P) →
      Keeps r.toBoundProgram F P' (test x) fun b => (b = true → T x) ∧ (b = false → N x)) :
    Keeps r.toBoundProgram F P (xs.filterM test) fun ys =>
      (∀ y ∈ ys, y ∈ xs ∧ T y) ∧ ∀ x ∈ xs, x ∈ ys ∨ N x := by
  refine Keeps.bind (filterAuxM xs tests) fun ys => .pure fun ⟨_, _, good, bad⟩ => ⟨?_, ?_⟩
  · intro y member
    rcases good y (List.mem_reverse.mp member) with none | found
    · cases none
    · exact found
  · intro x member
    rw [List.mem_reverse]
    exact bad x member

theorem reportArgument : ∀ (spans : List Span) (ss ts : List Ty) {P : Prop},
    (P → ∀ s ∈ ss, Sane r.toBoundProgram s) → (P → ∀ t ∈ ts, Sane r.toBoundProgram t) →
    Keeps r.toBoundProgram F P (r.reportArgument spans ss ts) fun _ =>
      ss.length = ts.length → spans.length = ss.length → List.Forall₂ (Sub F) ss ts
  | span :: spans, s :: ss, t :: ts, P, first, second => by
    rw [Resolver.reportArgument]
    refine Keeps.bind (answers.isSubtype (fun given => first given s List.mem_cons_self)
      fun given => second given t List.mem_cons_self) fun b => ?_
    split
    · next yes =>
      refine (reportArgument spans ss ts
        (fun given k member => first given.1 k (List.mem_cons_of_mem s member))
        (fun given k member => second given.1 k (List.mem_cons_of_mem t member))).weaken id ?_
      exact fun _ given rest same many =>
        .cons (given.2.1.mp yes) (rest (Nat.succ.inj same) (Nat.succ.inj many))
    · exact (Keeps.fail rfl).weaken id fun _ _ impossible => impossible.elim
  | [], [], [], _, _, _ => .pure fun _ _ _ => .nil
  | _ :: _, [], [], _, _, _ => .pure fun _ _ _ => .nil
  | [], [], _ :: _, _, _, _ => .pure fun _ => nofun
  | _ :: _, [], _ :: _, _, _, _ => .pure fun _ => nofun
  | [], _ :: _, _, _, _, _ => .pure fun _ _ => nofun
  | _ :: _, _ :: _, [], _, _, _ => .pure fun _ => nofun

theorem isMostSpecific {sig : Signature} {others : List Signature}
    (own : P → ∀ t ∈ sig.params, Sane r.toBoundProgram t)
    (sane : P → ∀ other ∈ others, ∀ t ∈ other.params, Sane r.toBoundProgram t) :
    Keeps r.toBoundProgram F P (r.isMostSpecific sig others) fun _ => True := by
  induction others generalizing P with
  | nil => exact .pure fun _ => trivial
  | cons other others ih =>
    have test : Keeps r.toBoundProgram F P
        (if sig.decl.mark.id = other.decl.mark.id then pure true
        else r.allSubtypes sig.params other.params) fun _ => True := by
      split
      · exact .pure fun _ => trivial
      · exact (answers.allSubtypes _ _ own fun given => sane given other List.mem_cons_self).weaken id
          fun _ _ _ => trivial
    refine Keeps.bind test fun b => ?_
    cases b with
    | true =>
      exact ih (fun given => own given.1)
        fun given k member => sane given.1 k (List.mem_cons_of_mem other member)
    | false => exact .pure fun _ => trivial

theorem reportNoMatch {call : Call} {sigs : List Signature} {args : List Ty}
    (argsSane : P → ∀ t ∈ args, Sane r.toBoundProgram t)
    (sane : P → ∀ sig ∈ sigs, ∀ t ∈ sig.params, Sane r.toBoundProgram t)
    (same : P → args.length = call.args.length)
    (none : P → ∀ sig ∈ sigs, sig.params.length = call.args.length →
      ¬List.Forall₂ (Sub F) args sig.params) :
    Keeps r.toBoundProgram F P (r.reportNoMatch call sigs args) fun _ => False := by
  unfold Resolver.reportNoMatch
  split
  · next only =>
    split
    · exact Keeps.fail rfl
    · next arity =>
      have arity := not_not.mp arity
      refine (answers.reportArgument _ _ _ argsSane fun given => sane given only
        List.mem_cons_self).weaken id ?_
      intro _ given accepted
      have lengths := same given
      exact none given only List.mem_cons_self arity
        (accepted (lengths.trans arity.symm) lengths.symm)
  · exact Keeps.fail rfl

theorem selectOverload {call : Call} {sigs : List Signature} {args : List Ty}
    (argsSane : P → ∀ t ∈ args, Sane r.toBoundProgram t)
    (sane : P → ∀ sig ∈ sigs, ∀ t ∈ sig.params, Sane r.toBoundProgram t)
    (same : P → args.length = call.args.length) :
    Keeps r.toBoundProgram F P (r.selectOverload call sigs args) fun found =>
      ∃ sig ∈ sigs, found = some sig ∧
        List.Forall₂ (Below r.toBoundProgram F) args sig.params := by
  unfold Resolver.selectOverload
  split
  · next wrong =>
    refine .pure fun given => ?_
    obtain ⟨t, member, isError⟩ := List.any_eq_true.mp wrong
    exact absurd (beq_iff_eq.mp isError) (argsSane given t member).1
  · dsimp only
    have inside : ∀ sig ∈ sigs.filter (fun sig => sig.params.length == call.args.length),
        sig ∈ sigs ∧ sig.params.length = call.args.length := by
      intro sig member
      obtain ⟨known, arity⟩ := List.mem_filter.mp member
      exact ⟨known, beq_iff_eq.mp arity⟩
    refine Keeps.bind (filterM (T := fun sig => List.Forall₂ (Below r.toBoundProgram F) args sig.params)
      (N := fun sig => ¬List.Forall₂ (Sub F) args sig.params) ?_) fun applicable => ?_
    · intro sig member P' weaker
      obtain ⟨known, arity⟩ := inside sig member
      refine (answers.allSubtypes _ _ (fun given => argsSane (weaker given))
        fun given => sane (weaker given) sig known).weaken id ?_
      intro b given right
      obtain ⟨exactly, values⟩ := right ((same (weaker given)).trans arity.symm)
      refine ⟨values, ?_⟩
      rintro rfl accepted
      cases exactly.mpr accepted
    · split
      · refine Keeps.bind (answers.reportNoMatch (fun given => argsSane given.1)
          (fun given => sane given.1) (fun given => same given.1) ?_) fun _ =>
            .pure fun given => given.2.elim
        intro ⟨_, _, dropped⟩ sig known arity
        rcases dropped sig (List.mem_filter.mpr ⟨known, beq_iff_eq.mpr arity⟩) with kept | rejected
        · cases kept
        · exact rejected
      · next only =>
        refine .pure fun ⟨_, kept, _⟩ => ?_
        obtain ⟨member, accepted⟩ := kept only List.mem_cons_self
        exact ⟨only, (inside only member).1, rfl, accepted⟩
      · refine Keeps.bind (filterM (T := fun _ => True) (N := fun _ => True) ?_) fun best => ?_
        · intro sig member P' weaker
          have known : ∀ given : P', ∀ other ∈ applicable, other ∈ sigs :=
            fun given other member => (inside other ((weaker given).2.1 other member).1).1
          refine (answers.isMostSpecific
            (fun given => sane (weaker given).1 sig (known given sig member))
            fun given other member => sane (weaker given).1 other (known given other member)).weaken
              id fun _ _ _ => ⟨fun _ => trivial, fun _ => trivial⟩
        · split
          · next best =>
            refine .pure fun ⟨⟨_, kept, _⟩, chosen, _⟩ => ?_
            obtain ⟨member, accepted⟩ := kept best (chosen best List.mem_cons_self).1
            exact ⟨best, (inside best member).1, rfl, accepted⟩
          · exact Keeps.bind (Keeps.fail rfl) fun _ => .pure fun given => given.2.elim

/-! ### Single expressions -/

theorem typeOfName (bound : r.WellBound) {x : Ident Mark} {expected : Option Ty}
    (member : P → .expr (.name x) ∈ r.program.nodes) :
    Keeps r.toBoundProgram F P (r.typeOfName x expected) fun t =>
      (F.Noted x.mark.id → Expr.Typed r.toBoundProgram F (.name x) t) ∧
        Sane r.toBoundProgram t := by
  have named : P → r.IsValue x := fun given => bound.named _ (member given)
  unfold Resolver.typeOfName
  split
  · next missing =>
    refine .pure fun given => ?_
    obtain ⟨s, target, _⟩ := named given
    rw [missing] at target
    cases target
  · next s target =>
    dsimp only
    split
    · exact Keeps.bind (Keeps.fail rfl) fun _ => .pure fun given => given.2.elim
    · next value =>
      refine Keeps.bind ((answers.typeOf s).weaken ?_ fun _ _ found => found) fun declared => ?_
      · intro given
        obtain ⟨s', target', isValue⟩ := named given
        rw [target] at target'
        cases target'
        rw [Role.isValue, Bool.or_eq_true] at isValue
        exact isValue.resolve_right value
      · split
        · next chosen =>
          refine .pure fun given => ⟨fun noted => ?_, ⟨nofun, ?_⟩⟩
          · exact ⟨noted, s, declared, target, given.2.1, .inr rfl⟩
          · intro y same
            cases same
            exact chosen.2
        · exact .pure fun given => ⟨fun noted => ⟨noted, s, declared, target, given.2.1, .inl rfl⟩,
            given.2.2.sane⟩

omit answers in
theorem typeOfResult {folded : Option (Except OpError Literal)} {k : Kind} :
    Keeps r.toBoundProgram F P (Resolver.typeOfResult folded k) fun t =>
      t = .intrinsic k ∨ ∃ v, folded = some (.ok v) ∧ t = .literal v := by
  unfold Resolver.typeOfResult
  split
  · next v =>
    refine Keeps.bind (Keeps.enterText v) fun _ => ?_
    exact (Keeps.enterType _).weaken id fun t _ same => .inr ⟨v, rfl, same⟩
  · exact .pure fun _ => .inl rfl

theorem typeOfUnary {span : Span} {op : UnaryOp} {s : Ty}
    (sane : P → Sane r.toBoundProgram s) :
    Keeps r.toBoundProgram F P (r.typeOfUnary span op s) fun t => Sane r.toBoundProgram t ∧
      ∃ k j, OfKind r.toBoundProgram F s k ∧ op.resultKind k = some j ∧
        (t = .intrinsic j ∨ ∃ v w, s = .literal v ∧ op.eval v = .ok w ∧ t = .literal w) := by
  unfold Resolver.typeOfUnary
  split
  · next wrong => exact .pure fun given => absurd (beq_iff_eq.mp wrong) (sane given).1
  · refine Keeps.bind (answers.baseKind sane) fun k => ?_
    split
    · exact Keeps.bind (Keeps.fail rfl) fun _ => .pure fun given => given.2.elim
    · next j result =>
      refine typeOfResult.weaken id fun t given found => ?_
      rcases found with rfl | ⟨w, folded, rfl⟩
      · refine ⟨⟨?_, nofun⟩, k, j, given.2, result, .inl rfl⟩
        intro same
        exact op.resultKind_ne_error result (Ty.intrinsic.inj same)
      · obtain ⟨v, literal, value⟩ := Option.map_eq_some_iff.mp folded
        obtain rfl : s = .literal v := by
          cases s <;> cases literal
          rfl
        exact ⟨⟨nofun, nofun⟩, k, j, given.2, result, .inr ⟨v, w, rfl, value, rfl⟩⟩

theorem typeOfBinary {span : Span} {op : BinOp} {s₁ s₂ : Ty}
    (first : P → Sane r.toBoundProgram s₁) (second : P → Sane r.toBoundProgram s₂) :
    Keeps r.toBoundProgram F P (r.typeOfBinary span op s₁ s₂) fun t => Sane r.toBoundProgram t ∧
      ∃ k₁ k₂ j, OfKind r.toBoundProgram F s₁ k₁ ∧ OfKind r.toBoundProgram F s₂ k₂ ∧
        op.resultKind k₁ k₂ = some j ∧
        (t = .intrinsic j ∨
          ∃ v w u, s₁ = .literal v ∧ s₂ = .literal w ∧ op.eval v w = .ok u ∧ t = .literal u) := by
  unfold Resolver.typeOfBinary
  split
  · next wrong =>
    refine .pure fun given => ?_
    rcases Bool.or_eq_true_iff.mp wrong with left | right
    · exact absurd (beq_iff_eq.mp left) (first given).1
    · exact absurd (beq_iff_eq.mp right) (second given).1
  · refine Keeps.bind (answers.baseKind first) fun k₁ => ?_
    refine Keeps.bind (answers.baseKind fun given => second given.1) fun k₂ => ?_
    split
    · exact Keeps.bind (Keeps.fail rfl) fun _ => .pure fun given => given.2.elim
    · next j result =>
      have plain : Sane r.toBoundProgram (.intrinsic j) := by
        refine ⟨?_, nofun⟩
        intro same
        exact op.resultKind_ne_error result (Ty.intrinsic.inj same)
      split
      · next v w _ =>
        refine typeOfResult.weaken id fun t given found => ?_
        rcases found with rfl | ⟨u, folded, rfl⟩
        · exact ⟨plain, k₁, k₂, j, given.1.2, given.2, result, .inl rfl⟩
        · exact ⟨⟨nofun, nofun⟩, k₁, k₂, j, given.1.2, given.2, result,
            .inr ⟨v, w, u, rfl, rfl, Option.some.inj folded, rfl⟩⟩
      · exact .pure fun given => ⟨plain, k₁, k₂, j, given.1.2, given.2, result, .inl rfl⟩

theorem typeOfInhabitant (bound : r.WellBound) {m : Mark} {node : TyNode Mark}
    (member : P → .expr (.inhabitant m node) ∈ r.program.nodes) :
    Keeps r.toBoundProgram F P (r.typeOfInhabitant m node) fun t => Denotes r.toBoundProgram node t ∧
      ∃ w, F.witnesses.find? m.id = some w ∧ Sole r.toBoundProgram F t w.value := by
  refine Keeps.bind (answers.typeOfNode bound fun given => Program.mem_below (member given)
    (List.mem_append_left _ node.mem_nodes)) fun t => ?_
  split
  · next wrong => exact .pure fun given => absurd (beq_iff_eq.mp wrong) given.2.sane.1
  · refine Keeps.bind (answers.inhabitant fun given => given.2.sane) fun found => ?_
    split
    · next w =>
      refine Keeps.bind Keeps.recordWitness fun _ => .pure fun given => ?_
      exact ⟨given.1.1.2, w, given.2, given.1.2⟩
    · refine Keeps.bind (Keeps.report _ _) fun _ => .pure fun given => ?_
      have quiet := given.2
      simp [Diagnostic.isError, show Problem.severity _ = .error from given.1.2] at quiet

theorem checkPat (bound : r.WellBound) {scrutinee : Ty} {q : Pat Mark}
    (sane : P → Sane r.toBoundProgram scrutinee) (member : P → .pat q ∈ r.program.nodes) :
    Keeps r.toBoundProgram F P (r.checkPat scrutinee q) fun _ => q.Typed r.toBoundProgram F := by
  have compare : ∀ {P' : Prop} {t : Ty}, (P' → P) → (P' → Sane r.toBoundProgram t) →
      Keeps r.toBoundProgram F P' (Resolver.checkPat.check r scrutinee q.mark t)
        fun _ => F.nodeTypes.find? q.mark.id = some t := by
    intro P' t weaker plain
    refine Keeps.bind (Keeps.recordType bound fun given => member (weaker given)) fun _ => ?_
    split
    · exact .pure fun given => given.2
    · refine Keeps.bind (answers.isSubtype (fun given => plain given.1)
        fun given => sane (weaker given.1)) fun b => ?_
      split
      · exact .pure fun given => given.1.2
      · refine Keeps.bind (answers.isSubtype (fun given => sane (weaker given.1.1))
          fun given => plain given.1.1) fun b => ?_
        split
        · exact .pure fun given => given.1.1.2
        · exact (Keeps.fail rfl).weaken id fun _ _ impossible => impossible.elim
  cases q with
  | wildcard m => exact .pure fun _ => trivial
  | lit m l =>
    refine Keeps.bind (Keeps.enterType _) fun t => ?_
    refine (compare (fun given => given.1) fun given => ?_).weaken id fun _ _ _ => trivial
    rw [given.2]
    exact ⟨nofun, nofun⟩
  | typed m node =>
    refine Keeps.bind (answers.typeOfNode bound fun given => Program.mem_below (member given)
      (List.mem_append_left _ node.mem_nodes)) fun t => ?_
    refine (compare (fun given => given.1) fun given => given.2.sane).weaken id ?_
    exact fun _ given found => ⟨t, found, given.2⟩

omit answers in
theorem mapM {α β : Type} {f : α → Check β} {T : α → β → Prop} :
    ∀ {xs : List α} {P : Prop},
      (∀ x ∈ xs, ∀ {P' : Prop}, (P' → P) → Keeps r.toBoundProgram F P' (f x) (T x)) →
      Keeps r.toBoundProgram F P (xs.mapM f) fun ys => List.Forall₂ T xs ys
  | [], _, _ => .pure fun _ => .nil
  | x :: xs, P, each => by
    rw [List.mapM_cons]
    refine Keeps.bind (each x List.mem_cons_self id) fun y => ?_
    refine Keeps.bind (mapM (T := T) fun z member {P'} weaker =>
      each z (List.mem_cons_of_mem x member) fun given => (weaker given).1) fun ys => ?_
    exact .pure fun given => .cons given.1.2 given.2

omit answers in
theorem exists_of_forall₂ {α β : Type} {T : α → β → Prop} {xs : List α} {ys : List β}
    (all : List.Forall₂ T xs ys) {y : β} (member : y ∈ ys) : ∃ x, T x y := by
  induction all with
  | nil => cases member
  | cons head _ ih =>
    rcases List.mem_cons.mp member with rfl | later
    · exact ⟨_, head⟩
    · exact ih later

theorem signaturesOf (bound : r.WellBound) {x : SymbolId}
    (isFunction : P → (r.symbol x).role = .function) :
    Keeps r.toBoundProgram F P (r.signaturesOf x) fun sigs => ∀ sig ∈ sigs,
      Offers r.toBoundProgram F x sig ∧ Signed r.toBoundProgram F sig.decl sig := by
  refine (mapM (T := fun d sig => .fn d ∈ (r.symbol x).decls ∧ Signed r.toBoundProgram F d sig ∧
    F.signatures.find? d.mark.id = some sig) ?_).weaken id ?_
  · intro d member P' weaker
    have inside := Decl.mem_fns.mp member
    refine (answers.signature d).weaken (fun given => ?_) fun sig _ found => ⟨inside, found⟩
    have role := isFunction (weaker given)
    have owns := bound.owns_of_role (x := x) (by rw [role]; nofun) (by rw [role]; nofun)
    exact (owns.each _ inside).1
  · intro sigs given found sig member
    obtain ⟨d, inside, signed, known⟩ := exists_of_forall₂ found member
    obtain rfl := signed.decl
    exact ⟨⟨inside, known⟩, signed⟩

end

end Answers

end Solo

import Solo.Proofs.Checking

/-!
# Widening, subtyping and type nodes are right

`Answers F r` says that a resolver answers the questions that lead elsewhere rightly. Given this,
whatever is found along a type or a type node is right.
-/

namespace Solo

/-- The answers of a resolver are right, judged by the tables `F`. -/
structure Answers (F : Checker) (r : Resolver) : Prop where
  typeOf : ∀ x, Keeps r.toBoundProgram F ((r.symbol x).role.isBinding = true) (r.typeOf x)
    fun t => F.symbolTypes.find? x = some t ∧ Declared r.toBoundProgram F x t
  aliasTarget : ∀ x span, Keeps r.toBoundProgram F ((r.symbol x).role.isType = true)
    (r.aliasTarget x span) fun t => ∀ d, (r.symbol x).decls.head? = some (.typeAlias d) →
      Denotes r.toBoundProgram d.ty t
  signature : ∀ d, Keeps r.toBoundProgram F (.stmt (.fn d) ∈ r.program.nodes) (r.signature d)
    fun sig => Signed r.toBoundProgram F d sig ∧ F.signatures.find? d.mark.id = some sig

theorem Role.isBinding_of_isStable {role : Role} (stable : role.isStable = true) :
    role.isBinding = true := by
  cases role <;> simp_all [isStable, isBinding]

namespace Answers

variable {F : Checker} {r : Resolver} {P : Prop}

section
variable (answers : Answers F r)
include answers

theorem widen {t : Ty} (sane : P → Sane r.toBoundProgram t) :
    Keeps r.toBoundProgram F P (r.widen t) fun u =>
      Sane r.toBoundProgram u ∧ Widens F t u := by
  cases t with
  | intrinsic k => exact Keeps.pure fun given => ⟨sane given, rfl⟩
  | literal v => exact Keeps.pure fun _ => ⟨⟨by cases v <;> nofun, nofun⟩, rfl⟩
  | path x =>
    refine (answers.typeOf x).weaken ?_ fun u _ ⟨found, declared⟩ => ?_
    · intro given
      exact Role.isBinding_of_isStable ((sane given).2 x rfl)
    · exact ⟨declared.sane, found⟩

theorem baseWithin (n : Nat) {t : Ty} (sane : P → Sane r.toBoundProgram t) :
    Keeps r.toBoundProgram F P (r.baseWithin n t) fun u =>
      u = .error ∨ Below r.toBoundProgram F t u := by
  induction n generalizing t P with
  | zero =>
    rw [Resolver.baseWithin]
    split
    · exact (answers.widen sane).bind fun _ => .pure fun _ => .inl rfl
    · exact .pure fun _ => .inr (.refl _)
  | succ n ih =>
    rw [Resolver.baseWithin]
    split
    · refine (answers.widen sane).bind fun next => ?_
      split
      · exact .pure fun _ => .inl rfl
      · refine (ih (fun given => given.2.1)).weaken id fun u given found => ?_
        rcases found with isError | below
        · exact .inl isError
        · exact .inr (given.2.2.below.trans below)
    · exact .pure fun _ => .inr (.refl _)

theorem baseKind {t : Ty} (sane : P → Sane r.toBoundProgram t) :
    Keeps r.toBoundProgram F P (r.baseKind t) fun k => OfKind r.toBoundProgram F t k := by
  refine (answers.baseWithin _ sane).bind fun u => .pure fun ⟨_, found⟩ => ?_
  cases u with
  | intrinsic k =>
    intro known v fits
    rcases found with isError | below
    · cases isError
      exact absurd rfl known
    · exact (below v fits).admits
  | _ => exact fun known => absurd rfl known

theorem isSubtypeWithin (n : Nat) {s t : Ty} (first : P → Sane r.toBoundProgram s)
    (second : P → Sane r.toBoundProgram t) :
    Keeps r.toBoundProgram F P (r.isSubtypeWithin n s t) fun b =>
      Decides r.toBoundProgram F s t b := by
  induction n generalizing s P with
  | zero => exact .throw _
  | succ n ih =>
    rw [Resolver.isSubtypeWithin]
    split
    · next same => exact .pure fun _ => same ▸ ⟨⟨fun _ => .refl _, fun _ => rfl⟩, fun _ => .refl _⟩
    · next apart =>
      refine Keeps.get fun c => ?_
      split
      · next b found =>
        exact .pure fun ⟨given, sound, _⟩ =>
          sound.subtypes s t b found (first given) (second given)
      · have answer : ∀ {P' : Prop} {a : Check Bool},
            Keeps r.toBoundProgram F P' a (fun b => Decides r.toBoundProgram F s t b) →
            Keeps r.toBoundProgram F P' (do
              let b ← a
              modify fun c => { c with subtypes := c.subtypes.insert (s, t) b }
              pure b) fun b => Decides r.toBoundProgram F s t b :=
          fun keeps => keeps.bind fun b => Keeps.bind (Keeps.noteSubtype fun given => given.2)
            fun _ => .pure fun ⟨⟨_, right⟩, _⟩ => right
        dsimp only
        split
        · next easy =>
          refine answer (.pure fun ⟨given, _⟩ => ?_)
          simp only [Ty.isError, Ty.isNothing, Ty.isAny, Bool.or_eq_true, beq_iff_eq] at easy
          rcases easy with ((wrong | wrong) | rfl) | rfl
          · exact absurd wrong (first given).1
          · exact absurd wrong (second given).1
          · exact ⟨⟨fun _ => .nothing t, fun _ => rfl⟩, fun _ => .nothing t⟩
          · exact ⟨⟨fun _ => .any s, fun _ => rfl⟩, fun _ => .any s⟩
        · next hard =>
          simp only [Ty.isError, Ty.isNothing, Ty.isAny, Bool.or_eq_true, beq_iff_eq, not_or] at hard
          obtain ⟨⟨⟨plainS, plainT⟩, value⟩, notAny⟩ := hard
          have no : t.isSingleton = true → Decides r.toBoundProgram F s t false := fun single =>
            ⟨⟨nofun, fun sub => absurd (sub.eq_of_isSingleton single value) apart⟩, nofun⟩
          -- a singleton is compared with a kind through what it widens to
          have climb : s.isSingleton = true → t.isSingleton = false → ∀ up,
              Keeps r.toBoundProgram F ((P ∧ Sound r.toBoundProgram F c ∧ c.Within F) ∧
                  Sane r.toBoundProgram up ∧ Widens F s up)
                (if up = s then pure false else r.isSubtypeWithin n up t)
                fun b => Decides r.toBoundProgram F s t b := by
            intro single kind up
            obtain ⟨k, rfl⟩ : ∃ k, t = .intrinsic k := by
              cases t with
              | intrinsic k => exact ⟨k, rfl⟩
              | _ => cases kind
            have notAny : k ≠ .any := by
              rintro rfl
              exact notAny rfl
            split
            · next same =>
              refine .pure fun given => ⟨⟨nofun, fun sub => ?_⟩, nofun⟩
              exact absurd sub (Sub.not_of_widens_self single (same ▸ given.2.2) notAny)
            · refine (ih (fun given => given.2.1) fun given => second given.1.1).weaken id ?_
              intro b given ⟨exactly, values⟩
              exact ⟨exactly.trans (Sub.widen_iff single given.2.2 notAny).symm,
                fun yes => given.2.2.below.trans (values yes)⟩
          cases s with
          | intrinsic j =>
            cases t with
            | intrinsic k =>
              refine answer (.pure fun _ => ⟨Sub.kind_iff.symm, fun sub => .kind sub ?_ ?_⟩)
              · rintro rfl
                exact plainS rfl
              · rintro rfl
                exact plainT rfl
            | _ => exact answer (.pure fun _ => no rfl)
          | _ =>
            cases t with
            | intrinsic k =>
              refine Keeps.bind (answers.widen fun given => first given.1) fun up => ?_
              have climbed := answer (climb rfl rfl up)
              split
              · next same =>
                rw [if_pos same] at climbed
                exact climbed
              · next moved =>
                rw [if_neg moved] at climbed
                exact climbed
            | _ => exact answer (.pure fun _ => no rfl)

theorem isSubtype {s t : Ty} (first : P → Sane r.toBoundProgram s)
    (second : P → Sane r.toBoundProgram t) :
    Keeps r.toBoundProgram F P (r.isSubtype s t) fun b => Decides r.toBoundProgram F s t b :=
  answers.isSubtypeWithin _ first second

theorem lubWithin (n : Nat) {a b : Ty} (first : P → Sane r.toBoundProgram a)
    (second : P → Sane r.toBoundProgram b) :
    Keeps r.toBoundProgram F P (r.lubWithin n a b) fun u => Sane r.toBoundProgram u ∧
      Below r.toBoundProgram F a u ∧ Below r.toBoundProgram F b u := by
  induction n generalizing a b P with
  | zero => exact .throw _
  | succ n ih =>
    rw [Resolver.lubWithin]
    refine (answers.isSubtype first second).bind fun under => ?_
    split
    · next yes => exact .pure fun given => ⟨second given.1, given.2.2 yes, .refl b⟩
    · refine Keeps.bind (answers.isSubtype (fun given => second given.1)
        fun given => first given.1) fun wider => ?_
      split
      · next yes => exact .pure fun given => ⟨first given.1.1, .refl a, given.2.2 yes⟩
      · refine Keeps.bind (answers.widen fun given => first given.1.1) fun a' => ?_
        refine Keeps.bind (answers.widen fun given => second given.1.1.1) fun b' => ?_
        split
        · exact .pure fun _ => ⟨⟨nofun, nofun⟩, .any a, .any b⟩
        · refine (ih (fun given => given.1.2.1) fun given => given.2.1).weaken id ?_
          exact fun u given ⟨sane, left, right⟩ =>
            ⟨sane, given.1.2.2.below.trans left, given.2.2.below.trans right⟩

theorem lub {a b : Ty} (first : P → Sane r.toBoundProgram a)
    (second : P → Sane r.toBoundProgram b) :
    Keeps r.toBoundProgram F P (r.lub a b) fun u => Sane r.toBoundProgram u ∧
      Below r.toBoundProgram F a u ∧ Below r.toBoundProgram F b u :=
  answers.lubWithin _ first second

theorem checkAssignable {s t : Ty} (span : Span) (first : P → Sane r.toBoundProgram s)
    (second : P → Sane r.toBoundProgram t) :
    Keeps r.toBoundProgram F P (r.checkAssignable s t span) fun _ =>
      Below r.toBoundProgram F s t := by
  refine (answers.isSubtype first second).bind fun b => ?_
  cases b with
  | true => exact .pure fun given => given.2.2 rfl
  | false => exact (Keeps.fail rfl).weaken id fun _ _ impossible => impossible.elim

/-! ### Type nodes -/

theorem typeOfReference (bound : r.WellBound) {m : Mark} {x : Ident Mark}
    (member : P → .ty (.refer m x) ∈ r.program.nodes) :
    Keeps r.toBoundProgram F P (r.typeOfReference m x) fun t =>
      Denotes r.toBoundProgram (.refer m x) t := by
  have named : P → r.IsType x := fun given => bound.named _ (member given)
  rw [Resolver.typeOfReference]
  split
  · next plain =>
    refine .pure fun given => ?_
    rcases named given with ⟨_, isKind⟩ | ⟨s, target⟩
    · obtain ⟨k, found⟩ := Option.isSome_iff_exists.mp isKind
      rw [found]
      exact .kind plain found
    · simp [BoundProgram.symbolAt?, plain] at target
  · next s found =>
    have target : P → r.symbolAt? x.mark.id = some s := by
      intro given
      rcases named given with ⟨plain, _⟩ | ⟨s', target⟩
      · rw [found] at plain
        cases plain
      · rw [target]
        simp only [BoundProgram.symbolAt?, found, Option.filter_eq_some_iff] at target
        exact target.1.symm
    split
    · next unresolved =>
      refine .pure fun given => ?_
      have target := target given
      simp [BoundProgram.symbolAt?, found, unresolved] at target
    · split
      · next isType =>
        refine (answers.aliasTarget s _).weaken (fun _ => isType) fun t given found => ?_
        obtain ⟨d, only, _⟩ := bound.alias_decl isType
        have decl : (r.symbol s).decls.head? = some (.typeAlias d) := by rw [only]; rfl
        exact .typeAlias (target given) decl (found d decl)
      · exact Keeps.bind (Keeps.fail rfl) fun _ => .pure fun given => given.2.elim

omit answers in
theorem typeOfPath {m : Mark} {x : Ident Mark} {span : Span} (named : P → r.IsValue x) :
    Keeps r.toBoundProgram F P (r.typeOfPath x span) fun t =>
      Denotes r.toBoundProgram (.singleton m (.name x)) t := by
  rw [Resolver.typeOfPath]
  split
  · next missing =>
    refine .pure fun given => ?_
    obtain ⟨s, target, _⟩ := named given
    rw [missing] at target
    cases target
  · next s target =>
    refine Keeps.bind (Keeps.isPursuing _) fun pursuing => ?_
    split
    · exact Keeps.bind (Keeps.fail rfl) fun _ => .pure fun given => given.2.elim
    · rw [Context.stablePath]
      by_cases stable : (r.symbol s).role.isStable = true
      · rw [if_pos stable]
        exact (Keeps.enterType _).weaken id fun t _ same => same ▸ .path target stable
      · rw [if_neg stable]
        exact Keeps.bind (Keeps.fail rfl) fun _ => .pure fun given => given.2.elim

omit answers in
theorem typeOfOperand (bound : r.WellBound) {m : Mark} {e : Expr Mark}
    (member : P → .expr e ∈ r.program.nodes) :
    Keeps r.toBoundProgram F P (r.typeOfOperand m e) fun t =>
      Denotes r.toBoundProgram (.singleton m e) t := by
  cases e with
  | lit l =>
    refine (Keeps.enterType (.literal l.value)).weaken id ?_
    rintro t _ rfl
    exact .literal
  | name x => exact typeOfPath fun given => bound.named _ (member given)
  | _ => exact Keeps.bind (Keeps.fail rfl) fun _ => .pure fun given => given.2.elim

omit answers in
theorem typeOfLiteral {m : Mark} {v : Literal} {dot : Bool} :
    Keeps r.toBoundProgram F P (r.typeOfLiteral m v dot) fun t => t = .literal v := by
  rw [Resolver.typeOfLiteral]
  split
  · exact Keeps.bind (Keeps.fail rfl) fun _ => (Keeps.enterType _).weaken id fun _ _ same => same
  · exact Keeps.enterType _

theorem typeOfNode (bound : r.WellBound) : ∀ {node : TyNode Mark} {P : Prop},
    (P → .ty node ∈ r.program.nodes) →
      Keeps r.toBoundProgram F P (r.typeOfNode node) fun t => Denotes r.toBoundProgram node t
  | .refer m x, _, member =>
    Keeps.onceType bound (.refer m x) (answers.typeOfReference bound member) member
  | .singleton m e, _, member =>
    Keeps.onceType bound (.singleton m e)
      (typeOfOperand bound fun given => Program.mem_below (member given)
        (List.mem_append_left _ e.mem_nodes)) member
  | .lit m l dot, _, member =>
    Keeps.onceType bound (.lit m l dot)
      (typeOfLiteral.weaken id fun _ _ same => same ▸ .lit) member
  | .paren m t, _, member =>
    Keeps.onceType bound (.paren m t)
      ((typeOfNode bound fun given => Program.mem_below (member given)
        (List.mem_append_left _ t.mem_nodes)).weaken id fun _ _ inner => .paren inner) member

end

end Answers

end Solo

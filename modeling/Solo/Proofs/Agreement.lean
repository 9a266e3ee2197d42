import Solo.Proofs.ConstantLimits
import Solo.Proofs.Widening

/-!
# Constants and values of singletons

The constant of a name and the one value of its singleton type are found by two searches, and both
follow declared types from binding to binding. They find the same value, except that a parameter is
no constant: where a chain of declared types leads to one, its declared type may still have a value.
-/

namespace Solo

namespace Context

variable (cx : Context) (F : Checker)

/-- Following declared singletons from a binding on leads to no parameter. -/
def AvoidsParams (x : SymbolId) : Prop :=
  ∀ y, Relation.ReflTransGen F.Links x y → (cx.symbol y).role ≠ .param

variable {cx F} {x y : SymbolId}

theorem avoidsParams_link (link : F.Links x y) :
    cx.AvoidsParams F x ↔ (cx.symbol x).role ≠ .param ∧ cx.AvoidsParams F y := by
  constructor
  · exact fun avoids => ⟨avoids x .refl, fun z path => avoids z (.head link path)⟩
  · rintro ⟨own, avoids⟩ z path
    rcases path.cases_head with rfl | ⟨y', link', path⟩
    · exact own
    · cases link.symm.trans link'
      exact avoids z path

theorem avoidsParams_end {t : Ty} (known : F.symbolTypes.find? x = some t)
    (last : ∀ y, t ≠ .path y) : cx.AvoidsParams F x ↔ (cx.symbol x).role ≠ .param := by
  constructor
  · exact fun avoids => avoids x .refl
  · rintro own z path
    rcases path.cases_head with rfl | ⟨y, link, _⟩
    · exact own
    · exact absurd (Option.some.inj (known.symm.trans link)) (last y)

end Context

namespace Certified

variable {cx : Context} {F : Checker} (cert : Certified cx.toBoundProgram F) {c c₁ : Checker}
  (like : F.Like c) {x : SymbolId} {v : Literal}

theorem constantOf_param (param : (cx.symbol x).role = .param) (n : Nat) :
    cx.resolver.constantOf n x c = .ok (none, c) := by
  have same : cx.resolver.symbol x = cx.symbol x := rfl
  cases n with
  | zero => rfl
  | succ n =>
    rw [Resolver.constantOf, Check.get_bind]
    simp only [same, param, decide_true, Bool.or_true, if_true]
    split <;> rfl

section
variable (stable : (cx.symbol x).role.isStable = true)
include cert like stable

/-- A step to the constant of a binding that is no parameter, while none is being evaluated. -/
theorem constantOf_succ (plain : (cx.symbol x).role ≠ .param) (quiet : c.evaluating = [])
    (n : Nat) :
    (∀ v, F.symbolTypes.find? x = some (.literal v) →
      cx.resolver.constantOf (n + 1) x c = .ok (some v, c)) ∧
    ∀ y, F.symbolTypes.find? x = some (.path y) →
      cx.resolver.constantOf (n + 1) x c = cx.resolver.constantOf n y c := by
  have same : cx.resolver.symbol x = cx.symbol x := rfl
  obtain ⟨t, known, _, run⟩ := cert.typeOf_eq like (Role.isBinding_of_isStable stable)
  rw [Resolver.constantOf, Check.get_bind]
  simp only [same, quiet, stable, plain, List.contains_nil, decide_false, Bool.not_true,
    Bool.or_false, if_false, Bool.false_eq_true]
  rw [Check.bind_eq run]
  constructor
  · intro v found
    cases known.symm.trans found
    rfl
  · intro y found
    cases known.symm.trans found
    rfl

/-- A step to the value of the singleton of a binding. -/
theorem inhabitantWithin_succ (n : Nat) :
    (∀ v, F.symbolTypes.find? x = some (.literal v) →
      cx.resolver.inhabitantWithin (n + 1) (.path x) c = .ok (.ok v, c)) ∧
    (∀ y, F.symbolTypes.find? x = some (.path y) → ∀ v c₁,
      cx.resolver.inhabitantWithin (n + 1) (.path x) c = .ok (.ok v, c₁) ↔
        cx.resolver.inhabitantWithin n (.path y) c = .ok (.ok v, c₁)) ∧
    ∀ k, F.symbolTypes.find? x = some (.intrinsic k) → ∀ v c₁,
      cx.resolver.inhabitantWithin (n + 1) (.path x) c = .ok (.ok v, c₁) ↔
        cx.resolver.constantOf n x c = .ok (some v, c₁) := by
  obtain ⟨t, known, _, run⟩ := cert.typeOf_eq like (Role.isBinding_of_isStable stable)
  rw [Resolver.inhabitantWithin, Check.bind_eq run]
  refine ⟨fun v found => ?_, fun y found v c₁ => ?_, fun k found v c₁ => ?_⟩
  · cases known.symm.trans found
    have single : (Ty.literal v).isSingleton = true := rfl
    rw [if_pos single, Resolver.inhabitantWithin]
    rfl
  · cases known.symm.trans found
    have single : (Ty.path y).isSingleton = true := rfl
    rw [if_pos single]
    constructor
    · intro run
      obtain ⟨found, c₂, inner, run⟩ := Check.bind_ok run
      cases found <;> cases run
      exact inner
    · intro run
      rw [Check.bind_eq run]
      rfl
  · cases known.symm.trans found
    have plain : ¬(Ty.intrinsic k).isSingleton = true := Bool.false_ne_true
    rw [if_neg plain]
    constructor
    · intro run
      obtain ⟨found, c₂, inner, run⟩ := Check.bind_ok run
      cases found <;> cases run
      exact inner
    · intro run
      rw [Check.bind_eq run]
      rfl

end

section
variable (quiet : c.evaluating = [])
include cert like quiet

/-- The constant of a binding is the value of its singleton, and found without a parameter. -/
theorem inhabitant_of_constant {n : Nat} {x : SymbolId}
    (stable : (cx.symbol x).role.isStable = true)
    (run : cx.resolver.constantOf n x c = .ok (some v, c₁)) :
    cx.resolver.inhabitantWithin (n + 1) (.path x) c = .ok (.ok v, c₁) ∧ cx.AvoidsParams F x := by
  induction n generalizing x with
  | zero => cases run
  | succ n ih =>
    have plain : (cx.symbol x).role ≠ .param := by
      intro param
      rw [constantOf_param param] at run
      cases run
    -- The declared type says which step the two searches take.
    obtain ⟨t, known, sane, _⟩ := cert.typeOf_eq like (Role.isBinding_of_isStable stable)
    obtain ⟨ofLiteral, ofPath⟩ := cert.constantOf_succ like stable plain quiet n
    obtain ⟨literal, path, kind⟩ := cert.inhabitantWithin_succ like stable (n + 1)
    cases t with
    | literal w =>
      cases (ofLiteral w known).symm.trans run
      exact ⟨literal v known, (Context.avoidsParams_end known nofun).mpr plain⟩
    | path y =>
      obtain ⟨found, avoids⟩ := ih (sane.2 y rfl) ((ofPath y known).symm.trans run)
      exact ⟨(path y known v c₁).mpr found, (Context.avoidsParams_link known).mpr ⟨plain, avoids⟩⟩
    | intrinsic k =>
      exact ⟨(kind k known v c₁).mpr run, (Context.avoidsParams_end known nofun).mpr plain⟩

/-- The value of a binding's singleton that is found without a parameter is the binding's constant,
in some number of steps. -/
theorem constant_of_inhabitant {n : Nat} {x : SymbolId}
    (stable : (cx.symbol x).role.isStable = true) (avoids : cx.AvoidsParams F x)
    (run : cx.resolver.inhabitantWithin n (.path x) c = .ok (.ok v, c₁)) :
    ∃ k, cx.resolver.constantOf k x c = .ok (some v, c₁) := by
  induction n generalizing x with
  | zero => cases run
  | succ n ih =>
    have plain := avoids x .refl
    obtain ⟨t, known, sane, _⟩ := cert.typeOf_eq like (Role.isBinding_of_isStable stable)
    obtain ⟨literal, path, kind⟩ := cert.inhabitantWithin_succ like stable n
    cases t with
    | literal w =>
      cases (literal w known).symm.trans run
      exact ⟨1, (cert.constantOf_succ like stable plain quiet 0).1 v known⟩
    | path y =>
      obtain ⟨k, found⟩ := ih (sane.2 y rfl) ((Context.avoidsParams_link known).mp avoids).2
        ((path y known v c₁).mp run)
      exact ⟨k + 1, ((cert.constantOf_succ like stable plain quiet k).2 y known).trans found⟩
    | intrinsic k => exact ⟨n, (kind k known v c₁).mp run⟩

end

end Certified

/-- A name is a constant in as many steps as what it stands for, and one more. -/
theorem Resolver.constant_name (r : Resolver) {x : Ident Mark} {s : SymbolId}
    (target : r.symbolAt? x.mark.id = some s) (n : Nat) :
    r.constant (n + 1) (.name x) = r.constantOf n s := by
  simp only [constant, target]

/-- The value of a type is entered as a literal. -/
theorem Resolver.inhabitant_ok (r : Resolver) {t : Ty} {v : Literal} {c : Checker} :
    (∃ w c₁, r.inhabitant t c = .ok (.ok w, c₁) ∧ w.value = v) ↔
      ∃ c₁, r.inhabitantWithin (r.stepsAt 0) t c = .ok (.ok v, c₁) := by
  constructor
  · rintro ⟨w, c₁, run, rfl⟩
    obtain ⟨found, c₂, inner, run⟩ := Check.bind_ok run
    cases found with
    | ok v =>
      cases run
      exact ⟨c₂, inner⟩
    | error problem => cases run
  · rintro ⟨c₁, run⟩
    exact ⟨_, _, Check.bind_eq run, rfl⟩

/-- The limit is not what keeps an expression from being a constant: it is none with more steps if
it is none with the given ones. -/
def Resolver.Ample (r : Resolver) (e : Expr Mark) (c : Checker) : Prop :=
  ∀ n v c₁, r.constant n e c = .ok (some v, c₁) → ∃ c₂, r.constantAt 0 e c = .ok (some v, c₂)

namespace Draft.Passes

variable {d : Draft} {o : Options} {q : Checked} (passes : d.Passes o q) {c c' c₁ : Checker}
  (idle : q.Idle c) {v : Literal}
include passes idle

/-- For a constant that is found the limit is ample. -/
theorem ample {e : Expr Mark} (run : q.context.resolver.constantAt 0 e c = .ok (some v, c₁)) :
    q.context.resolver.Ample e c := by
  intro n w c₂ run'
  rcases Nat.le_total n (q.context.resolver.stepsAt 0) with le | le
  · exact passes.constant_mono idle idle le run'
  · obtain ⟨c₃, run''⟩ := passes.constant_mono idle idle le run
    cases run'.symm.trans run''
    exact ⟨c₁, run⟩

variable {x : Ident Mark} {s : SymbolId} (target : q.context.symbolAt? x.mark.id = some s)
  (stable : (q.context.symbol s).role.isStable = true)
include target stable

/-- The constant of a name is the value of its singleton, and found without a parameter. -/
theorem inhabitant_of_constant {n : Nat} (idle' : q.Idle c')
    (run : q.context.resolver.constant (n + 1) (.name x) c = .ok (some v, c₁)) :
    (∃ c₂, q.context.resolver.inhabitantWithin (n + 1) (.path s) c' = .ok (.ok v, c₂)) ∧
      q.context.AvoidsParams q.checker s := by
  obtain ⟨same, cert⟩ := passes.certified
  rw [← same] at cert
  rw [q.context.resolver.constant_name target] at run
  obtain ⟨found, repeats⟩ := (cert.constants_repeat n).1 [] s
  obtain ⟨c₂, run'⟩ := repeats.again idle.like idle.evaluating idle'.like idle'.evaluating run
  obtain ⟨value, avoids⟩ := cert.inhabitant_of_constant idle'.like idle'.evaluating stable run'
  exact ⟨⟨c₂, value⟩, avoids⟩

/-- The value of its singleton that is found without a parameter is the constant of a name. -/
theorem constant_of_inhabitant {n : Nat} (idle' : q.Idle c')
    (avoids : q.context.AvoidsParams q.checker s)
    (run : q.context.resolver.inhabitantWithin n (.path s) c' = .ok (.ok v, c₁)) :
    ∃ k c₂, q.context.resolver.constant k (.name x) c = .ok (some v, c₂) := by
  obtain ⟨same, cert⟩ := passes.certified
  rw [← same] at cert
  obtain ⟨k, run'⟩ :=
    cert.constant_of_inhabitant idle'.like idle'.evaluating stable avoids run
  obtain ⟨found, repeats⟩ := (cert.constants_repeat k).1 [] s
  obtain ⟨c₂, run''⟩ := repeats.again idle'.like idle'.evaluating idle.like idle.evaluating run'
  refine ⟨k + 1, c₂, ?_⟩
  rw [q.context.resolver.constant_name target]
  exact run''

end Draft.Passes

/-- The two searches agree. Let `x` be a name for a stable binding `s` in a draft that is checked
without an error, and let the limit be ample for it. In all states between questions after the
check, `x` is the constant `v` if and only if `v` is the value of the singleton of `s` and no
parameter stands on the chain of declared singletons that starts at `s`. -/
theorem constant_iff_inhabitant (d : Draft) (o : Options) (q : Checked) (passes : d.Passes o q)
    (c c' : Checker) (idle : q.Idle c) (idle' : q.Idle c') (x : Ident Mark) (s : SymbolId)
    (target : q.context.symbolAt? x.mark.id = some s)
    (stable : (q.context.symbol s).role.isStable = true)
    (ample : q.context.resolver.Ample (.name x) c) (v : Literal) :
    (∃ c₁, q.context.resolver.constantAt 0 (.name x) c = .ok (some v, c₁)) ↔
      (∃ w c₁, q.context.resolver.inhabitant (.path s) c' = .ok (.ok w, c₁) ∧ w.value = v) ∧
        ∀ y, Relation.ReflTransGen q.checker.Links s y → (q.context.symbol y).role ≠ .param := by
  rw [Resolver.inhabitant_ok]
  constructor
  · rintro ⟨c₁, run⟩
    exact passes.inhabitant_of_constant idle target stable idle' run
  · rintro ⟨⟨c₁, run⟩, avoids⟩
    obtain ⟨k, c₂, run'⟩ := passes.constant_of_inhabitant idle target stable idle' avoids run
    exact ample k v c₂ run'

/-- A draft that reads `b`, which is declared as the singleton of `a`. -/
def Draft.relayed : Draft where
  text := "val a = 3 + 4 val b: a.type = a println(b)"
  stmts :=
    [.val ⟨[], .val, ⟨[], "a"⟩, none,
        .bin [] (.arith .add) (.lit ⟨[], .int 3⟩) (.lit ⟨[], .int 4⟩)⟩,
      .val ⟨[], .val, ⟨[], "b"⟩, some (.singleton [] (.name ⟨[], "a"⟩)), .name ⟨[], "a"⟩⟩,
      .expr [] (.call [] ⟨[], "println"⟩ [.name ⟨[], "b"⟩])]

/-- There `b` is the constant `7`, and this is the value of its singleton. -/
theorem constant_iff_inhabitant_relayed : ∃ q, Draft.relayed.Passes default q ∧
    q.Idle q.checker ∧
    q.context.symbolAt? 11 = some 3 ∧ (q.context.symbol 3).role.isStable = true ∧
    q.context.resolver.Ample (.name ⟨⟨11, ⟨40, 41, 0, by omega⟩, []⟩, "b"⟩) q.checker ∧
    (∃ c, q.context.resolver.constantAt 0 (.name ⟨⟨11, ⟨40, 41, 0, by omega⟩, []⟩, "b"⟩) q.checker =
      .ok (some (.int 7), c)) ∧
    (∃ w c, q.context.resolver.inhabitant (.path 3) q.checker = .ok (.ok w, c) ∧
      w.value = .int 7) ∧
    ∀ y, Relation.ReflTransGen q.checker.Links 3 y → (q.context.symbol y).role ≠ .param := by
  obtain ⟨q, passes, found⟩ : ∃ q, Draft.relayed.Passes default q ∧
      ((q.context.symbolAt? 11 == some 3 && (q.context.symbol 3).role.isStable) &&
        (q.context.resolver.constantAt 0 (.name ⟨⟨11, ⟨40, 41, 0, by omega⟩, []⟩, "b"⟩)
          q.checker).toOption.bind Prod.fst == some (.int 7)) = true :=
    Draft.exists_passes (by decide +kernel)
  simp only [Bool.and_eq_true, beq_iff_eq] at found
  obtain ⟨⟨target, stable⟩, found⟩ := found
  obtain ⟨⟨_, c⟩, run, rfl⟩ := Option.bind_eq_some_iff.mp found
  have run := Except.eq_ok_of_toOption run
  have ample := passes.ample passes.idle run
  obtain ⟨value, avoids⟩ := (constant_iff_inhabitant .relayed default q passes q.checker q.checker
    passes.idle passes.idle _ 3 target stable ample (.int 7)).mp ⟨c, run⟩
  exact ⟨q, passes, passes.idle, target, stable, ample, ⟨c, run⟩, value, avoids⟩

/-- A draft that reads `x`, which is declared as the singleton of a parameter with one value. -/
def Draft.handed : Draft where
  text := "def f(p: 5): Int = { val x: p.type = p x }"
  stmts :=
    [.fn ⟨[], ⟨[], "f"⟩, [⟨[], ⟨[], "p"⟩, .lit [] ⟨[], .int 5⟩ false⟩],
        some (.refer [] ⟨[], "Int"⟩),
      .block []
        [.val ⟨[], .val, ⟨[], "x"⟩, some (.singleton [] (.name ⟨[], "p"⟩)), .name ⟨[], "p"⟩⟩]
        (some (.name ⟨[], "x"⟩))⟩]

/-- A binding that is no parameter itself may have a singleton with a value and be no constant,
under every limit. -/
theorem Draft.not_constant_iff_inhabitant :
    ¬∀ (d : Draft) (o : Options) (q : Checked), d.Passes o q →
      ∀ (x : Ident Mark) (s : SymbolId), q.context.symbolAt? x.mark.id = some s →
        (q.context.symbol s).role.isStable = true → (q.context.symbol s).role ≠ .param →
        q.context.resolver.Ample (.name x) q.checker → ∀ v,
          (∃ c, q.context.resolver.constantAt 0 (.name x) q.checker = .ok (some v, c)) ↔
            ∃ w c, q.context.resolver.inhabitant (.path s) q.checker = .ok (.ok w, c) ∧
              w.value = v := by
  intro agree
  let x : Ident Mark := ⟨⟨12, ⟨39, 40, 0, by omega⟩, []⟩, "x"⟩
  obtain ⟨q, passes, found⟩ : ∃ q, Draft.handed.Passes default q ∧
      ((q.context.symbolAt? 12 == some 4 && (q.context.symbol 4).role == .val false &&
        (q.context.symbol 3).role == .param &&
        q.checker.symbolTypes.find? 4 == some (.path 3)) &&
        (q.context.resolver.inhabitant (.path 4) q.checker).toOption.bind
          (fun r => r.1.toOption.map Witness.value) == some (.int 5)) = true :=
    Draft.exists_passes (by decide +kernel)
  simp only [Bool.and_eq_true, beq_iff_eq] at found
  obtain ⟨⟨⟨⟨target, role⟩, param⟩, link⟩, found⟩ := found
  have stable : (q.context.symbol 4).role.isStable = true := by rw [role]; rfl
  have plain : (q.context.symbol 4).role ≠ .param := by rw [role]; nofun
  have none : ∀ n v c, q.context.resolver.constant n (.name x) q.checker ≠ .ok (some v, c) := by
    intro n v c run
    cases n with
    | zero => cases run
    | succ n =>
      obtain ⟨_, avoids⟩ := passes.inhabitant_of_constant passes.idle target stable passes.idle run
      exact avoids 3 (.single link) param
  obtain ⟨⟨result, c⟩, run, found⟩ := Option.bind_eq_some_iff.mp found
  obtain ⟨w, answer, value⟩ := Option.map_eq_some_iff.mp found
  obtain rfl := Except.eq_ok_of_toOption answer
  obtain ⟨c', constant⟩ := (agree .handed default q passes x 4 target stable plain
    (fun n v c run => absurd run (none n v c)) (.int 5)).mpr
      ⟨w, c, Except.eq_ok_of_toOption run, value⟩
  exact none _ _ _ constant

end Solo

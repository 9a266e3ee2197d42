import Solo.Proofs.Charts
import Solo.Proofs.Subtyping

/-!
# Subtypes and constants are charted

Given an oracle that guides, the accepted runs of the questions about subtypes and about constants
go on with the course of what is found, and after it they are repeated. A constant is found again
though other bindings are evaluated, if none of them rests on what it is found from.
-/

namespace Solo

/-! ### Subtypes -/

/-- A question about subtypes is answered by looking at the types or at the kept answers, or it
leads one step up from a singleton. -/
theorem Resolver.isSubtypeWithin_step (s t : Ty) (c : Checker) :
    (∃ b, s.verdict? t = some b ∧
      ∀ (r : Resolver) n, r.isSubtypeWithin (n + 1) s t c = .ok (b, c)) ∨
    (∃ b, c.subtypes.find? (s, t) = some b ∧
      ∀ (r : Resolver) n, r.isSubtypeWithin (n + 1) s t c = .ok (b, c)) ∨
    (∃ b, s.verdict? t = some b ∧
      ∀ (r : Resolver) n, r.isSubtypeWithin (n + 1) s t c = keepSubtype s t b c) ∨
    s.verdict? t = none ∧ s.isSingleton = true ∧
      ∀ (r : Resolver) n,
        r.isSubtypeWithin (n + 1) s t c = (r.widen s >>= r.climbSubtype n s t) c := by
  by_cases same : s = t
  · refine .inl ⟨true, ?_, fun r n => ?_⟩
    · simp [Ty.verdict?, same]
    · rw [isSubtypeWithin_succ, if_pos same]
  cases found : c.subtypes.find? (s, t) with
  | some b =>
    refine .inr (.inl ⟨b, rfl, fun r n => ?_⟩)
    rw [isSubtypeWithin_succ, if_neg same, found]
  | none =>
    have searches : ∀ (r : Resolver) n, r.isSubtypeWithin (n + 1) s t c =
        if s.isError || t.isError || s.isNothing || t.isAny then keepSubtype s t true c
        else r.searchSubtype n s t c := by
      intro r n
      rw [isSubtypeWithin_succ, if_neg same, found]
    cases easy : s.isError || t.isError || s.isNothing || t.isAny with
    | true =>
      refine .inr (.inr (.inl ⟨true, ?_, fun r n => by rw [searches, easy, if_pos rfl]⟩))
      rw [Ty.verdict?, easy, Bool.or_true, if_pos rfl]
    | false =>
      have verdict : s.verdict? t = s.formVerdict? t := by
        rw [Ty.verdict?, easy, decide_eq_false same]
        rfl
      have search : ∀ (r : Resolver) n,
          r.isSubtypeWithin (n + 1) s t c = r.searchSubtype n s t c := by
        intro r n
        rw [searches, easy]
        rfl
      cases s with
      | intrinsic j =>
        cases t <;> exact .inr (.inr (.inl ⟨_, verdict, search⟩))
      | _ =>
        cases t with
        | intrinsic k => exact .inr (.inr (.inr ⟨verdict, rfl, search⟩))
        | _ => exact .inr (.inr (.inl ⟨_, verdict, search⟩))
/-! ### One step of a constant -/

/-- Does something while a binding is evaluated. -/
def Check.evaluating {α : Type} (x : SymbolId) (a : Check α) : Check α := do
  modify fun c => { c with evaluating := x :: c.evaluating }
  let y ← a
  modify fun c => { c with evaluating := c.evaluating.tail }
  return y
/-- What is done about the constant of a binding after its type is found. -/
def Resolver.constantAfter (r : Resolver) (n : Nat) (x : SymbolId) : Ty → Check (Option Literal)
  | .literal v => return some v
  | .path y => r.constantOf n y
  | .intrinsic _ =>
    match (r.symbol x).decls.head? with
    | some (.val d) => Check.evaluating x (r.constant n d.init)
    | _ => return none

theorem Resolver.constantOf_eq (r : Resolver) (n : Nat) (x : SymbolId) (c : Checker) :
    r.constantOf (n + 1) x c =
      if c.evaluating.contains x || (!(r.symbol x).role.isStable || (r.symbol x).role = .param) then
        .ok (none, c)
      else (r.typeOf x >>= r.constantAfter n x) c := by
  cases evaluated : c.evaluating.contains x with
  | true => simp only [constantOf, Check.get_bind, evaluated, Bool.true_or, if_pos]; rfl
  | false =>
    cases unstable : !(r.symbol x).role.isStable || decide ((r.symbol x).role = .param) with
    | true => simp only [constantOf, Check.get_bind, evaluated, unstable]; rfl
    | false => simp only [constantOf, Check.get_bind, evaluated, unstable]; rfl

theorem Check.evaluating_apply {α : Type} (x : SymbolId) (a : Check α) (c : Checker) :
    Check.evaluating x a c = (a { c with evaluating := x :: c.evaluating }).bind fun r =>
      .ok (r.1, { r.2 with evaluating := r.2.evaluating.tail }) := rfl

theorem Check.evaluating_ok {α : Type} {x : SymbolId} {a : Check α} {c c' : Checker} {y : α}
    (run : Check.evaluating x a c = .ok (y, c')) :
    ∃ c₁, a { c with evaluating := x :: c.evaluating } = .ok (y, c₁) ∧
      c' = { c₁ with evaluating := c₁.evaluating.tail } := by
  rw [evaluating_apply] at run
  cases found : a { c with evaluating := x :: c.evaluating } with
  | error e =>
    rw [found] at run
    cases run
  | ok r =>
    rw [found] at run
    cases run
    exact ⟨r.2, rfl, rfl⟩

section
variable {cx : Context} {F c c' : Checker} {gs new : List Finding} {N : List (Node Mark)}
  {o : Oracle} {s t u : Ty} {b : Bool} {m n : Nat} {P : Prop}

namespace Context

theorem Climbs.replays (climbs : cx.Climbs F gs s t) :
    cx.Replays F gs [] N [] (fun o => (cx.asking o).widen s) t := by
  cases climbs with
  | literal v => exact .pure _
  | path found listed => exact .ask (q := .typeOf _) trivial listed found
  | untyped untyped none => exact .untyped untyped none

theorem Compared.keeps (compared : cx.Compared F gs n s t b) :
    cx.Replays F gs new N [] (fun _ => Resolver.keepSubtype s t b) b :=
  fun _ _ _ _ _ _ concurs _ => .inl ⟨_, rfl, concurs.keep compared, rfl, rfl⟩

theorem climbSubtype_lawful (n : Nat) (s t up : Ty) :
    Lawful cx fun o => (cx.asking o).climbSubtype n s t up := by
  have keep : ∀ b, Lawful cx fun _ => Resolver.keepSubtype s t b :=
    fun b => .still (.bind (.update fun _ => ⟨_, _, _, _, _, _, rfl⟩) fun _ => .pure b)
  exact Composed.branch (keep false)
    (.bind ((Lawful.thorough cx).isSubtypeWithin .endless n up t) keep)

theorem Compared.of_verdict (compared : cx.Compared F gs m s t b) {b' : Bool}
    (verdict : s.verdict? t = some b') : b' = b :=
  have seen : cx.Compared F gs 0 s t b' := .seen verdict
  (seen.unique compared).2

/-- It is enough that the search one step up is made again. -/
theorem Compared.answers (compared : cx.Compared F gs m s t b)
    (climbs : s.verdict? t = none → cx.Replays F gs [] N []
      (fun o => (cx.asking o).widen s >>= (cx.asking o).climbSubtype n s t) b) :
    cx.Replays F gs [] N [] (fun o => (cx.asking o).isSubtypeWithin (n + 1) s t) b := by
  intro o T supplies D W c concurs unreached
  rcases Resolver.isSubtypeWithin_step s t c with ⟨b', verdict, answer⟩ | ⟨b', found, answer⟩ |
    ⟨b', verdict, keep⟩ | ⟨unseen, _, climb⟩
  · cases compared.of_verdict verdict
    exact (Retraces.pure concurs).congr fun _ => answer _ _
  · obtain ⟨_, _, before⟩ := concurs.compared s t b' found
    cases (before.unique compared).2
    exact (Retraces.pure concurs).congr fun _ => answer _ _
  · cases compared.of_verdict verdict
    exact (compared.keeps o T supplies D W c concurs unreached).congr fun _ => keep _ _
  · exact (climbs unseen o T supplies D W c concurs unreached).congr fun _ => climb _ _

/-- A comparison is made again with more fuel than it takes steps. -/
theorem Compared.replays (compared : cx.Compared F gs m s t b) (fuel : m < n) :
    cx.Replays F gs [] N [] (fun o => (cx.asking o).isSubtypeWithin n s t) b := by
  induction compared generalizing n with
  | seen verdict =>
    obtain ⟨n, rfl⟩ := Nat.exists_eq_succ_of_ne_zero (Nat.ne_zero_of_lt fuel)
    exact (Compared.seen verdict).answers fun unseen => by cases verdict.symm.trans unseen
  | @stuck s t unseen stands =>
    obtain ⟨n, rfl⟩ := Nat.exists_eq_succ_of_ne_zero (Nat.ne_zero_of_lt fuel)
    have compared := Compared.stuck unseen stands
    refine compared.answers fun _ => .bind (Y := []) ((Lawful.thorough cx).widen s)
      (climbSubtype_lawful n s t) stands.replays ?_
    simp only [Resolver.climbSubtype, if_pos]
    exact compared.keeps
  | @climb m s t u b unseen step other rest ih =>
    obtain ⟨n, rfl⟩ := Nat.exists_eq_succ_of_ne_zero (Nat.ne_zero_of_lt fuel)
    have compared := Compared.climb unseen step other rest
    refine compared.answers fun _ => .bind (Y := []) ((Lawful.thorough cx).widen s)
      (climbSubtype_lawful n s t) step.replays ?_
    simp only [Resolver.climbSubtype, if_neg other]
    exact .bind (Y := []) ((Lawful.thorough cx).isSubtypeWithin .endless n u t)
      (fun b => .still (.bind (.update fun _ => ⟨_, _, _, _, _, _, rfl⟩) fun _ => .pure b))
      (ih (Nat.lt_of_succ_lt_succ fuel)) compared.keeps

/-- Some findings tell whether `s` is below `t`. -/
def Ranks (cx : Context) (F : Checker) (s t : Ty) (b : Bool) : Prop :=
  ∃ gs n, cx.Compared F gs n s t b

theorem Ranks.consistent (yes : cx.Ranks F s t true) (no : cx.Ranks F s t false) : False := by
  obtain ⟨_, _, yes⟩ := yes
  obtain ⟨_, _, no⟩ := no
  cases (yes.unique no).2

theorem Advances.keep {X : List Entry} {ls : List Finding} (advances : cx.Advances F X gs ls c c')
    (compared : cx.Compared F (gs ++ ls) n s t b) :
    cx.Advances F X gs ls c { c' with subtypes := c'.subtypes.insert (s, t) b } := by
  refine advances.after { advances.course with
    settled := fun q concerns found =>
      advances.course.settled q concerns (by cases q <;> exact found)
    compared := fun s' t' b' found => ?_ } { (Checker.Grows.refl c').toWithin with }
  rw [Table.find?_insert] at found
  split at found
  · next same =>
    cases same
    cases found
    exact ⟨n, compared⟩
  · exact advances.course.compared s' t' b' found

namespace Guides

variable (guides : cx.Guides F o)
include guides

theorem widen_grows (run : (cx.asking o).widen s c = .ok (t, c')) : c.Grows c' := by
  cases s with
  | path x => exact guides.grows _ _ _ _ run
  | _ =>
    cases run
    exact .refl c

theorem widens (single : s.isSingleton = true) (run : (cx.asking o).widen s c = .ok (t, c'))
    (accepted : F.Accepted c') (course : cx.Course F gs c) :
    ∃ ls, cx.Advances F [] gs ls c c' ∧ cx.Climbs F (gs ++ ls) s t := by
  cases s with
  | intrinsic k => cases single
  | literal v =>
    cases run
    exact ⟨[], .refl course, .literal v⟩
  | path x => exact guides.leads (.typeOf x) trivial c t c' run accepted gs course

theorem isSubtypeWithin_grows (run : (cx.asking o).isSubtypeWithin n s t c = .ok (b, c')) :
    c.Grows c' := by
  induction n generalizing s c b c' with
  | zero => cases run
  | succ n ih =>
    have keep : ∀ {c₁ b₁}, Resolver.keepSubtype s t b₁ c₁ = .ok (b, c') → c₁.Grows c' := by
      intro c₁ b₁ run
      cases run
      exact { Checker.Grows.refl c₁ with }
    rcases Resolver.isSubtypeWithin_step s t c with ⟨_, _, answer⟩ | ⟨_, _, answer⟩ |
      ⟨_, _, kept⟩ | ⟨_, _, climb⟩
    · cases (answer _ n).symm.trans run
      exact .refl c
    · cases (answer _ n).symm.trans run
      exact .refl c
    · exact keep ((kept _ n).symm.trans run)
    · obtain ⟨up, c₁, widened, run⟩ := Check.bind_ok ((climb _ n).symm.trans run)
      refine (guides.widen_grows widened).trans ?_
      rw [Resolver.climbSubtype] at run
      split at run
      · exact keep run
      · obtain ⟨b₁, c₂, compared, run⟩ := Check.bind_ok run
        exact (ih compared).trans (keep run)

/-- What is compared in an accepted run can be told from the findings. -/
theorem compares (run : (cx.asking o).isSubtypeWithin n s t c = .ok (b, c'))
    (accepted : F.Accepted c') (course : cx.Course F gs c) :
    ∃ ls m, cx.Advances F [] gs ls c c' ∧ cx.Compared F (gs ++ ls) m s t b := by
  induction n generalizing s c b c' gs with
  | zero => cases run
  | succ n ih =>
    rcases Resolver.isSubtypeWithin_step s t c with ⟨b₁, verdict, answer⟩ | ⟨b₁, found, answer⟩ |
      ⟨b₁, verdict, kept⟩ | ⟨unseen, single, climb⟩
    · cases (answer _ n).symm.trans run
      exact ⟨[], 0, .refl course, .seen verdict⟩
    · cases (answer _ n).symm.trans run
      obtain ⟨m, compared⟩ := course.compared s t b found
      exact ⟨[], m, .refl course, compared.mono (List.subset_append_left _ _)⟩
    · cases (kept _ n).symm.trans run
      have compared : cx.Compared F (gs ++ []) 0 s t b := .seen verdict
      exact ⟨[], 0, (Advances.refl course).keep compared, compared⟩
    · obtain ⟨up, c₁, widened, run⟩ := Check.bind_ok ((climb _ n).symm.trans run)
      rw [Resolver.climbSubtype] at run
      split at run
      · next stands =>
        cases run
        obtain ⟨ls, advances, climbs⟩ := guides.widens single widened
          (accepted.before { Checker.Grows.refl c₁ with }) course
        have compared : cx.Compared F (gs ++ ls) 0 s t false := .stuck unseen (stands ▸ climbs)
        exact ⟨ls, 0, advances.keep compared, compared⟩
      · next other =>
        obtain ⟨b₁, c₂, compared, run⟩ := Check.bind_ok run
        cases run
        have keeps : c₂.Grows { c₂ with subtypes := c₂.subtypes.insert (s, t) b } :=
          { Checker.Grows.refl c₂ with }
        have grows := guides.isSubtypeWithin_grows compared
        obtain ⟨ls, advances, climbs⟩ := guides.widens single widened
          (accepted.before (grows.trans keeps)) course
        obtain ⟨ks, m, advances', rest⟩ := ih compared (accepted.before keeps) advances.course
        rw [List.append_assoc] at rest
        have whole : cx.Compared F (gs ++ (ls ++ ks)) (m + 1) s t b :=
          .climb unseen (climbs.mono (by simp)) other rest
        exact ⟨ls ++ ks, m + 1, (advances.trans advances').keep whole, whole⟩

end Guides

/-! ### Types -/

namespace Charts

variable (guides : cx.Guides F o)
include guides

theorem widen (t : Ty) : cx.Charts F o P [] N (fun o => (cx.asking o).widen t) fun _ => True := by
  cases t with
  | path x => exact (ask guides (q := .typeOf x) trivial).weaken id fun _ _ _ => trivial
  | _ => exact pure fun _ => trivial

theorem isSubtype (typed : ∀ x u, F.symbolTypes.find? x = some u → cx.Typable x) (s t : Ty) :
    cx.Charts F o P [] N (fun o => (cx.asking o).isSubtype s t) (cx.Ranks F s t) where
  lawful := (Lawful.thorough cx).isSubtype s t
  grows _ _ _ := guides.isSubtypeWithin_grows
  leads _ c b c' run accepted gs course := by
    obtain ⟨ls, m, advances, compared⟩ := guides.compares run accepted course
    exact ⟨ls, advances, compared.replays (Nat.lt_succ_of_le (compared.few typed)),
      _, _, compared⟩

end Charts

/-! ### Constants -/

section
variable (cx F)

/-- From every state in which the bindings `l` are evaluated, and below them none that rests on the
findings, an action gives a value or makes a detour. -/
def Retains (gs : List Finding) (N : List (Node Mark)) (l : List SymbolId)
    (act : Oracle → Check (Option Literal)) (v : Literal) : Prop :=
  ∀ o T, cx.Supplies F gs o T → ∀ D W c r, cx.Concurs F D W c →
    cx.Unreached F gs [] D { c with evaluating := r } → c.evaluating = l ++ r →
      cx.Retraces F o T [] N D W act c (some v)

/-- An action that, if `P` holds, gives values of what rests on findings in the sense of `R`, and so
do the bindings `l` that are evaluated meanwhile. -/
structure Evaluates (o : Oracle) (P : Prop) (N : List (Node Mark)) (l : List SymbolId)
    (act : Oracle → Check (Option Literal)) (R : List Finding → Prop) : Prop where
  mono : ∀ ks js, ks ⊆ js → R ks → R js
  lawful : Lawful cx act
  grows : ∀ c x c', act o c = .ok (x, c') → c.Grows c'
  leads : P → ∀ c v c', act o c = .ok (some v, c') → F.Accepted c' → ∀ gs, cx.Course F gs c →
    l ⊆ c.evaluating → (∀ w ∈ l, ∀ ks, cx.Rests F ks w → R ks) →
      ∃ ls, cx.Advances F [] gs ls c c' ∧ R (gs ++ ls) ∧ cx.Retains F (gs ++ ls) N l act v

end

section
variable {l : List SymbolId} {act : Oracle → Check (Option Literal)} {v : Literal}
  {R R' : List Finding → Prop} {hs : List Finding}

theorem Retains.mono (retains : cx.Retains F gs N l act v) (shorter : gs <+: hs) :
    cx.Retains F hs N l act v := by
  intro o T supplies D W c r concurs unreached within
  have sooner : cx.Unreached F gs [] D { c with evaluating := r } :=
    unreached.mono (by simpa using shorter.subset) shorter.subset
  exact retains o T (supplies.mono shorter) D W c r concurs sooner within

theorem Retains.andThen {f : Option Literal → Oracle → Check (Option Literal)} {w : Literal}
    (lawful : Lawful cx act) (lawful' : ∀ x, Lawful cx (f x)) (first : cx.Retains F gs N l act v)
    (rest : cx.Retains F gs N l (f (some v)) w) :
    cx.Retains F gs N l (fun o => act o >>= fun x => f x o) w := by
  intro o T supplies D W c r concurs unreached within
  refine (first o T supplies D W c r concurs unreached within).bind (lawful.candid o)
    (fun x => (lawful' x).loud supplies.loud) fun c₁ concurs₁ goals evaluating => ?_
  exact rest o T supplies D W c₁ r concurs₁ (unreached.moved goals rfl) (evaluating.trans within)

/-! What the constant of a binding rests on besides its type. -/

theorem rests_literal {x : SymbolId} (found : F.symbolTypes.find? x = some (.literal v)) :
    cx.Rests F gs x ↔ .goal (.typeOf x) ∈ gs ∧ True :=
  ⟨fun rests => ⟨rests.listed, trivial⟩, fun held => .literal found held.1⟩

theorem rests_path {x y : SymbolId} (found : F.symbolTypes.find? x = some (.path y)) :
    cx.Rests F gs x ↔ .goal (.typeOf x) ∈ gs ∧ cx.Rests F gs y := by
  refine ⟨fun rests => ⟨rests.listed, ?_⟩, fun held => .path found held.1 held.2⟩
  cases rests with
  | path found' _ next =>
    cases found.symm.trans found'
    exact next
  | _ => simp_all

theorem rests_init {x : SymbolId} {k : Kind} {d : ValDecl Mark}
    (found : F.symbolTypes.find? x = some (.intrinsic k))
    (decl : (cx.symbol x).decls.head? = some (.val d)) :
    cx.Rests F gs x ↔ .goal (.typeOf x) ∈ gs ∧ cx.RestsExpr F gs d.init := by
  refine ⟨fun rests => ⟨rests.listed, ?_⟩, fun held => .init found held.1 decl held.2⟩
  cases rests with
  | init _ _ decl' init =>
    cases decl.symm.trans decl'
    exact init
  | _ => simp_all

namespace Evaluates

theorem none (mono : ∀ ks js, ks ⊆ js → R ks → R js) :
    cx.Evaluates F o P N l (fun _ => Pure.pure Option.none) R where
  mono := mono
  lawful := .pure (Option.none : Option Literal)
  grows c x c' run := by
    cases run
    exact .refl c
  leads _ _ _ _ run := by cases run

theorem same (evaluates : cx.Evaluates F o P N l act R) (iff : ∀ ks, R ks ↔ R' ks) :
    cx.Evaluates F o P N l act R' := by
  obtain rfl : R = R' := funext fun ks => propext (iff ks)
  exact evaluates

/-- Where nothing is evaluated meanwhile, what the value rests on need not be known. -/
theorem any (evaluates : cx.Evaluates F o P N [] act R) :
    cx.Evaluates F o P N [] act fun _ => True where
  mono _ _ _ := id
  lawful := evaluates.lawful
  grows := evaluates.grows
  leads given c v c' run accepted gs course _ _ := by
    obtain ⟨ls, advances, _, retains⟩ :=
      evaluates.leads given c v c' run accepted gs course nofun nofun
    exact ⟨ls, advances, trivial, retains⟩

/-- A step that only enters a text gives a value of what rests on nothing. -/
theorem enters {a : Check (Option Literal)} {x : Option Literal} (enters : Check.Enters a x)
    (still : Still cx a) (rests : ∀ ks, R ks) : cx.Evaluates F o P N l (fun _ => a) R := by
  have charts : cx.Charts F o True [] [] (fun _ => a) (· = x) := .enters enters still
  refine ⟨fun _ js _ _ => rests js, charts.lawful, charts.grows,
    fun _ c v c' run accepted gs course _ _ => ?_⟩
  obtain ⟨ls, advances, _, rfl⟩ := charts.leads trivial c _ c' run accepted gs course
  exact ⟨ls, advances, rests _,
    fun _ _ _ _ _ _ _ concurs _ _ => .enters enters concurs⟩

theorem andThen {f : Option Literal → Oracle → Check (Option Literal)}
    (first : cx.Evaluates F o P N l act R) (rest : ∀ v, cx.Evaluates F o P N l (f (some v)) R')
    (mono : ∀ ks js, ks ⊆ js → R' ks → R' js)
    (stops : ∀ o, f Option.none o = Pure.pure Option.none) :
    cx.Evaluates F o P N l (fun o => act o >>= fun x => f x o) fun ks => R ks ∧ R' ks := by
  have lawful : ∀ x, Lawful cx (f x) := by
    intro x
    cases x with
    | some v => exact (rest v).lawful
    | none => exact funext stops ▸ .pure Option.none
  have grows : ∀ x c y c', f x o c = .ok (y, c') → c.Grows c' := by
    intro x c y c' run
    cases x with
    | some v => exact (rest v).grows c y c' run
    | none =>
      rw [stops] at run
      cases run
      exact .refl c
  refine ⟨fun ks js wider held => ⟨first.mono ks js wider held.1, mono ks js wider held.2⟩,
    first.lawful.bind lawful, fun c y c' run => ?_,
    fun given c w c' run accepted gs course within rests => ?_⟩
  · obtain ⟨x, c₁, run₁, run₂⟩ := Check.bind_ok run
    exact (first.grows c x c₁ run₁).trans (grows x c₁ y c' run₂)
  · obtain ⟨x, c₁, run₁, run₂⟩ := Check.bind_ok run
    cases x with
    | none =>
      rw [stops] at run₂
      cases run₂
    | some v =>
      have grows₁ := first.grows c _ c₁ run₁
      obtain ⟨ls, advances₁, own₁, retains₁⟩ := first.leads given c v c₁ run₁
        (accepted.before (grows _ c₁ _ c' run₂)) gs course within
          fun w member ks held => (rests w member ks held).1
      obtain ⟨ks, advances₂, own₂, retains₂⟩ :=
        (rest v).leads given c₁ w c' run₂ accepted (gs ++ ls) advances₁.course
          (grows₁.evaluating ▸ within) fun w member ks held => (rests w member ks held).2
      rw [List.append_assoc] at own₂ retains₂
      have longer : gs ++ ls <+: gs ++ (ls ++ ks) := ⟨ks, by simp⟩
      exact ⟨ls ++ ks, advances₁.trans advances₂, ⟨first.mono _ _ longer.subset own₁, own₂⟩,
        (retains₁.mono longer).andThen first.lawful lawful retains₂⟩

theorem evaluating (x : SymbolId) (inner : cx.Evaluates F o P N (x :: l) act R)
    (own : P → ∀ ks, cx.Rests F ks x → R ks) :
    cx.Evaluates F o P N l (fun o => Check.evaluating x (act o)) R where
  mono := inner.mono
  lawful := by
    refine .bind (.still (.update fun _ => ⟨_, _, _, _, _, _, rfl⟩)) fun _ => ?_
    refine inner.lawful.bind fun v => ?_
    exact .still (.bind (.update fun _ => ⟨_, _, _, _, _, _, rfl⟩) fun _ => .pure v)
  grows c v c' run := by
    obtain ⟨c₁, run₁, rfl⟩ := Check.evaluating_ok run
    have grows := inner.grows _ v c₁ run₁
    exact { grows with evaluating := congrArg List.tail grows.evaluating }
  leads given c v c' run accepted gs course within rests := by
    obtain ⟨c₁, run₁, rfl⟩ := Check.evaluating_ok run
    obtain ⟨ls, advances, holds, retains⟩ := inner.leads given _ v c₁ run₁
      { accepted with within := { accepted.within with } } gs { course with }
      (List.cons_subset_cons x within) (List.forall_mem_cons.mpr ⟨own given, rests⟩)
    have back : cx.Advances F [] gs ls c { c₁ with evaluating := c₁.evaluating.tail } :=
      ⟨{ advances.course with }, { advances.wrote with }, { advances.within with }⟩
    refine ⟨ls, back, holds, ?_⟩
    intro o T supplies D W c r concurs unreached within
    have same : ∀ o', Check.evaluating x (act o') c = _ :=
      fun o' => Check.evaluating_apply x (act o') c
    rcases retains o T supplies D W { c with evaluating := x :: c.evaluating } r
        (concurs.alike _ _ _ _) unreached (by rw [within]; rfl) with
      ⟨c₂, run₂, concurs₂, goals, evaluated⟩ | ⟨s, detours⟩
    · refine .inl ⟨{ c₂ with evaluating := c₂.evaluating.tail }, ?_, concurs₂.alike _ _ _ _, goals,
        congrArg List.tail evaluated⟩
      refine (same o).trans ?_
      rw [run₂]
      rfl
    · refine .inr ⟨s, detours.around same (fun y c₂ z c' ended => ?_) fun _ => id⟩
      cases ended
      exact fun d => id

/-- The constant of a binding, if that of what its type leads to can be told. -/
theorem constantOf (guides : cx.Guides F o) {x : SymbolId} {n : Nat}
    (after : ∀ t, ∃ R, cx.Evaluates F o (F.symbolTypes.find? x = some t) N l
      (fun o => (cx.asking o).constantAfter n x t) R ∧
      (F.symbolTypes.find? x = some t → ∀ ks, cx.Rests F ks x ↔ .goal (.typeOf x) ∈ ks ∧ R ks)) :
    cx.Evaluates F o P N l (fun o => (cx.asking o).constantOf (n + 1) x)
      fun ks => cx.Rests F ks x where
  mono _ _ wider := Rests.mono wider
  lawful := ((Lawful.thorough cx).anywhere.constants (n + 1)).1 x
  grows c v c' run := by
    rw [Resolver.constantOf_eq] at run
    split at run
    · cases run
      exact .refl c
    · obtain ⟨t, c₁, run₁, run₂⟩ := Check.bind_ok run
      obtain ⟨R, evaluates, _⟩ := after t
      exact (guides.grows (.typeOf x) c t c₁ run₁).trans (evaluates.grows c₁ v c' run₂)
  leads _ c v c' run accepted gs course within rests := by
    rw [Resolver.constantOf_eq] at run
    split at run
    · cases run
    next free =>
    rw [Bool.or_eq_true, not_or, Bool.not_eq_true, Bool.not_eq_true] at free
    obtain ⟨t, c₁, run₁, run₂⟩ := Check.bind_ok run
    obtain ⟨R, evaluates, same⟩ := after t
    have grows₁ := guides.grows (.typeOf x) c t c₁ run₁
    have grows₂ := evaluates.grows c₁ _ c' run₂
    obtain ⟨ls, advances₁, met⟩ := guides.leads (.typeOf x) trivial c t c₁ run₁
      (accepted.before grows₂) gs course
    cases met with
    | untyped untyped _ =>
      -- A stable symbol has a type or no declaration, and then no constant.
      have stable : (cx.symbol x).role.isStable = true := by
        have stable := (Bool.or_eq_false_iff.mp free.2).1
        rwa [cx.asking_toContext, Bool.not_eq_false'] at stable
      have none : (cx.symbol x).decls = [] := by
        by_contra some
        exact untyped ⟨Role.isBinding_of_isStable stable, some⟩
      simp only [Resolver.constantAfter, cx.asking_toContext, none] at run₂
      cases run₂
    | path found listed =>
      obtain ⟨ks, advances₂, holds, retains⟩ := evaluates.leads found c₁ v c' run₂ accepted
        (gs ++ ls) advances₁.course (grows₁.evaluating ▸ within) fun w member ks held =>
          ((same found ks).mp (rests w member ks held)).2
      have advances := advances₁.trans advances₂
      rw [List.append_assoc] at holds retains
      have listed : .goal (.typeOf x) ∈ gs ++ (ls ++ ks) := by
        rw [← List.append_assoc]
        exact List.mem_append_left ks listed
      have own : cx.Rests F (gs ++ (ls ++ ks)) x := (same found _).mpr ⟨listed, holds⟩
      refine ⟨ls ++ ks, advances, own, ?_⟩
      intro o' T supplies D W c₂ r concurs unreached local'
      have outside : c₂.evaluating.contains x = false := by
        rw [← Bool.not_eq_true, List.contains_iff_mem, local']
        intro member
        rcases List.mem_append.mp member with inside | below
        · have evaluated := List.contains_iff_mem.mpr (within inside)
          rw [free.1] at evaluated
          cases evaluated
        · exact unreached.evaluating x below own
      have demand : cx.Retraces F o' T [] N D W (fun o => (cx.asking o).typeOf x) c₂ t := by
        obtain ⟨js, later, whole⟩ := List.append_of_mem listed
        have before : js ++ [.goal (.typeOf x)] <+: gs ++ (ls ++ ks) :=
          ⟨later, by rw [whole, List.append_assoc, List.singleton_append]⟩
        have earlier : js ⊆ gs ++ (ls ++ ks) := ((List.prefix_append js _).trans before).subset
        have here : cx.Unreached F js [.goal (.typeOf x)] D { c₂ with evaluating := r } :=
          unreached.mono (by simpa using before.subset) earlier
        refine supplies.demand (q := .typeOf x) before trivial found concurs
          { here with evaluating := fun w evaluated held => ?_ }
        -- What is evaluated here rests on the type of `x`, which is not found yet.
        rw [local'] at evaluated
        rcases List.mem_append.mp evaluated with inside | below
        · have distinct := advances.course.distinct.sublist before.sublist
          exact List.disjoint_of_nodup_append distinct (rests w inside js held).listed
            (List.mem_singleton.mpr rfl)
        · exact here.evaluating w below held
      refine (demand.bind (c := c₂) (f := fun t o => (cx.asking o).constantAfter n x t)
        (((Lawful.thorough cx).typeOf x).candid o')
        (fun t => (after t).choose_spec.1.lawful.loud supplies.loud)
        fun c₃ concurs₃ goals evaluating => retains o' T supplies D W c₃ r concurs₃
          (unreached.moved goals rfl) (evaluating.trans local')).congr fun o' => ?_
      refine (Resolver.constantOf_eq _ n x c₂).trans (if_neg ?_)
      rw [outside, Bool.false_or]
      exact (Bool.not_eq_true _).mpr free.2

theorem apply (result : Except OpError Literal) :
    cx.Evaluates F o P N l (fun _ => Check.apply result) fun _ => True := by
  cases result with
  | error e => exact none fun _ _ _ => id
  | ok v =>
    refine enters (x := some v) (fun c => ?_) (.apply _) fun _ => trivial
    obtain ⟨names, interns, entered⟩ := Check.enterText_enters v c
    refine ⟨names, interns, ?_⟩
    rw [Check.apply, Check.bind_apply, entered]
    rfl

/-- Bindings and expressions have constants that rest on what is found. -/
theorem constants (guides : cx.Guides F o) (n : Nat) :
    (∀ x P l, cx.Evaluates F o P N l (fun o => (cx.asking o).constantOf n x)
      fun ks => cx.Rests F ks x) ∧
    ∀ e P l, cx.Evaluates F o P N l (fun o => (cx.asking o).constant n e)
      fun ks => cx.RestsExpr F ks e := by
  induction n with
  | zero => exact ⟨fun _ _ _ => none fun _ _ => .mono, fun _ _ _ => none fun _ _ => .mono⟩
  | succ n ih =>
    obtain ⟨ofSymbol, ofExpr⟩ := ih
    refine ⟨fun x P l => constantOf guides fun t => ?_, fun e P l => ?_⟩
    · cases t with
      | literal v =>
        exact ⟨fun _ => True, enters (x := some v) (fun _ => ⟨_, _, rfl⟩) (.pure _)
          fun _ => trivial, fun found _ => rests_literal found⟩
      | path y => exact ⟨_, ofSymbol y _ l, fun found _ => rests_path found⟩
      | intrinsic k =>
        simp only [Resolver.constantAfter, cx.asking_toContext]
        rcases head : (cx.symbol x).decls.head? with _ | d | _ | _ | _
        case some.val =>
          exact ⟨_, (ofExpr d.init _ (x :: l)).evaluating x fun found ks rests =>
            ((rests_init found head).mp rests).2, fun found _ => rests_init found head⟩
        all_goals exact ⟨fun _ => False, none fun _ _ _ => id, fun found _ =>
          ⟨fun rests => by cases rests <;> simp_all, fun rests => rests.2.elim⟩⟩
    · cases e with
      | lit l' =>
        exact enters (x := some l'.value) (fun _ => ⟨_, _, rfl⟩) (.pure _) fun _ => .lit l'
      | paren m e =>
        exact (ofExpr e P l).same fun ks => ⟨.paren, fun rests => by cases rests; assumption⟩
      | name x =>
        simp only [Resolver.constant, cx.asking_toContext]
        cases target : cx.symbolAt? x.mark.id with
        | none => exact none fun _ _ => .mono
        | some s =>
          refine (ofSymbol s P l).same fun ks => ⟨.name target, fun rests => ?_⟩
          cases rests with
          | name target' inner =>
            cases target.symm.trans target'
            exact inner
      | unary m op e =>
        refine ((ofExpr e P l).andThen (fun v => apply (op.eval v)) (fun _ _ _ => id)
          fun _ => rfl).same fun ks => ?_
        exact ⟨fun rests => .unary rests.1, fun rests => by cases rests; exact ⟨‹_›, trivial⟩⟩
      | bin m op a b =>
        refine ((ofExpr a P l).andThen (fun v => (ofExpr b P l).andThen
          (fun w => apply (op.eval v w)) (fun _ _ _ => id) fun _ => rfl)
          (fun _ _ wider rests => ⟨rests.1.mono wider, trivial⟩) fun _ => rfl).same fun ks => ?_
        exact ⟨fun rests => .bin rests.1 rests.2.1,
          fun rests => by cases rests; exact ⟨‹_›, ‹_›, trivial⟩⟩
      | _ => exact none fun _ _ => .mono

end Evaluates

end

theorem Retains.replays {act : Oracle → Check (Option Literal)} {v : Literal}
    (retains : cx.Retains F gs N [] act v) : cx.Replays F gs [] N [] act (some v) :=
  fun o T supplies D W c concurs unreached =>
    retains o T supplies D W c c.evaluating concurs unreached rfl

theorem Charts.evaluates {act : Oracle → Check β} {f : β → Oracle → Check (Option Literal)}
    {Q : β → Prop} (first : cx.Charts F o P [] N act Q)
    (rest : ∀ x, cx.Evaluates F o P N [] (f x) fun _ => True) :
    cx.Evaluates F o P N [] (fun o => act o >>= fun x => f x o) fun _ => True where
  mono _ _ _ := id
  lawful := first.lawful.bind fun x => (rest x).lawful
  grows c y c' run := by
    obtain ⟨x, c₁, run₁, run₂⟩ := Check.bind_ok run
    exact (first.grows c x c₁ run₁).trans ((rest x).grows c₁ y c' run₂)
  leads given c v c' run accepted gs course _ _ := by
    obtain ⟨x, c₁, run₁, run₂⟩ := Check.bind_ok run
    obtain ⟨ls, advances₁, replays, _⟩ := first.leads given c x c₁ run₁
      (accepted.before ((rest x).grows c₁ _ c' run₂)) gs course
    obtain ⟨ks, advances₂, _, retains⟩ :=
      (rest x).leads given c₁ v c' run₂ accepted (gs ++ ls) advances₁.course nofun nofun
    rw [List.append_assoc] at retains
    have longer : gs ++ ls ++ [] <+: gs ++ (ls ++ ks) := ⟨ks, by simp⟩
    refine ⟨ls ++ ks, advances₁.trans advances₂, trivial, ?_⟩
    intro o' T supplies D W c₂ r concurs unreached outside
    obtain rfl : c₂.evaluating = r := outside
    exact ((replays.mono longer nofun (List.Subset.refl N)).bind first.lawful
      (fun x => (rest x).lawful) retains.replays) o' T supplies D W c₂ concurs unreached

/-- A value that has to be there, and then the rest. -/
theorem Evaluates.charts {act : Oracle → Check (Option Literal)} {R : List Finding → Prop}
    {f : Option Literal → Oracle → Check β} {X : List Entry} {Q : β → Prop}
    (first : cx.Evaluates F o P N [] act R) (rest : ∀ v, cx.Charts F o P X N (f (some v)) Q)
    (fails : ∃ span problem y, problem.severity = .error ∧
      f Option.none = fun _ => do Check.report span problem; return y) :
    cx.Charts F o P X N (fun o => act o >>= fun x => f x o) Q := by
  obtain ⟨span, problem, y, error, fails⟩ := fails
  have reject : cx.Charts F o P X N (f Option.none) Q :=
    fails ▸ Charts.reject span error y
  have lawful : ∀ x, Lawful cx (f x) := by
    intro x
    cases x with
    | some v => exact (rest v).lawful
    | none => exact reject.lawful
  refine ⟨first.lawful.bind lawful, fun c z c' run => ?_,
    fun given c z c' run accepted gs course => ?_⟩
  · obtain ⟨x, c₁, run₁, run₂⟩ := Check.bind_ok run
    refine (first.grows c x c₁ run₁).trans ?_
    cases x with
    | some v => exact (rest v).grows c₁ z c' run₂
    | none => exact reject.grows c₁ z c' run₂
  · obtain ⟨x, c₁, run₁, run₂⟩ := Check.bind_ok run
    cases x with
    | none =>
      rw [fails] at run₂
      cases run₂
      exact (accepted.not_error (d := ⟨span, problem⟩) (beq_iff_eq.mpr error)
        Array.mem_push_self).elim
    | some v =>
      obtain ⟨ls, advances₁, _, retains⟩ := first.leads given c v c₁ run₁
        (accepted.before ((rest v).grows c₁ z c' run₂)) gs course nofun nofun
      obtain ⟨ks, advances₂, replays, holds⟩ :=
        (rest v).leads given c₁ z c' run₂ accepted (gs ++ ls) advances₁.course
      rw [List.append_assoc] at replays
      have longer : gs ++ ls <+: gs ++ (ls ++ ks) := ⟨ks, by simp⟩
      exact ⟨ls ++ ks, advances₁.trans advances₂,
        (retains.mono longer).replays.bind first.lawful lawful replays, holds⟩

end Context

end

end Solo

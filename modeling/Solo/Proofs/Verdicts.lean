import Mathlib.Data.Set.Basic
import Mathlib.Data.Set.Insert
import Mathlib.Logic.Relation
import Solo.Proofs.ErrorFree
import Solo.Proofs.Purity

/-!
# Verdicts of purity

A verdict does not depend on what was asked before. `Derivable` says without any order when a
function is pure: every expression that its body evaluates outside nested functions meets a
condition of its own, and every function called there is pure by the same rule. A judgement in
progress stands for no verdict; whoever meets it is called by the function that is in progress and
calls it, and on such a circle nothing is derivable.
-/

namespace Solo

/-! ### Constants -/

namespace Certified

variable {cx : Context} {F : Checker} (cert : Certified cx.toBoundProgram F)
include cert

/-- Whether an expression is a constant other than zero depends on what is being evaluated only. -/
theorem isNonZeroConstant_repeats (E : List SymbolId) (e : Expr Mark) :
    ∃ good, Repeats F E E (cx.resolver.isNonZeroConstant e) good := by
  obtain ⟨found, first⟩ := (cert.constants_repeat _).2 E e
  exact ⟨_, first.bind (.pure F E _)⟩

end Certified

/-! ### What is evaluated -/

mutual
def Expr.evaluated : Expr Mark → List (Expr Mark)
  | .lit l => [.lit l]
  | .name x => [.name x]
  | .paren m e => e.evaluated ++ [.paren m e]
  | .unary m op e => e.evaluated ++ [.unary m op e]
  | .bin m op a b => a.evaluated ++ (b.evaluated ++ [.bin m op a b])
  | .call m f args => exprsEvaluated args ++ [.call m f args]
  | .block m ss tail => stmtsEvaluated ss ++ tailEvaluated tail ++ [.block m ss tail]
  | .assign m x e => e.evaluated ++ [.assign m x e]
  | .cases m e arms => e.evaluated ++ armsEvaluated arms ++ [.cases m e arms]
  | .inhabitant m node => [.inhabitant m node]
  | .host m text => [.host m text]

def exprsEvaluated : List (Expr Mark) → List (Expr Mark)
  | [] => []
  | e :: es => e.evaluated ++ exprsEvaluated es

def tailEvaluated : Option (Expr Mark) → List (Expr Mark)
  | none => []
  | some e => e.evaluated

def armsEvaluated : List (Arm Mark) → List (Expr Mark)
  | [] => []
  | ⟨_, _, e⟩ :: arms => e.evaluated ++ armsEvaluated arms

def stmtEvaluated : Stmt Mark → List (Expr Mark)
  | .val ⟨_, _, _, _, e⟩ => e.evaluated
  | .typeAlias _ => []
  | .fn _ => []
  | .expr _ e => e.evaluated

def stmtsEvaluated : List (Stmt Mark) → List (Expr Mark)
  | [] => []
  | s :: ss => stmtEvaluated s ++ stmtsEvaluated ss
end

def Expr.CallsTo (F : Checker) (e : Expr Mark) (g : FnDecl Mark) : Prop :=
  ∃ m f args sig, e = .call m f args ∧ F.signatures.find? m.id = some sig ∧ sig.decl = g

/-- The body of a function calls another function, nested functions apart. -/
def Checker.Calls (F : Checker) (d g : FnDecl Mark) : Prop := ∃ e ∈ d.body.evaluated, e.CallsTo F g

/-! ### Conditions of single expressions -/

/-- Which functions are pure, and which bindings from outside each one reads. -/
abbrev Rulings := FnDecl Mark → Set SymbolId → Prop

/-- A read of a binding at a place comes after its declaration, if the owner contains that. -/
def InTime (p : BoundProgram) (owner : Option (FnDecl Mark)) (x : SymbolId) (place : Span) : Prop :=
  ∃ d, (p.symbol x).role.isBinding = true ∧ (p.symbol x).decls.head? = some d ∧
    (Owns owner d → d.mark.span.hi ≤ place.lo)

/-- A binding is declared outside the owner. -/
def IsOuter (p : BoundProgram) (owner : Option (FnDecl Mark)) (x : SymbolId) : Prop :=
  ∃ d, (p.symbol x).decls.head? = some d ∧ ¬Owns owner d

section
variable (cx : Context) (F : Checker) (V : Rulings) (owner : Option (FnDecl Mark))

/-- What an expression itself does is pure: its parts apart, and the times of its reads. -/
def Expr.Allowed : Expr Mark → Prop
  | .name x => ∃ s, cx.symbolAt? x.mark.id = some s
  | .bin _ op _ b =>
    op.divides = true → ∃ c, cx.resolver.isNonZeroConstant b F = .ok (true, c)
  | .call m _ _ => ∃ sig reads, F.signatures.find? m.id = some sig ∧ V sig.decl reads
  | .cases _ _ arms => arms.any (·.pat.isWildcard) = true
  | .assign _ _ _ => False
  | .host _ _ => False
  | _ => True

/-- The bindings that an expression itself reads, for a call those that the function reads. -/
def Expr.Reads : Expr Mark → SymbolId → Prop
  | .name x, s => cx.symbolAt? x.mark.id = some s
  | .call m _ _, s =>
    ∃ sig reads, F.signatures.find? m.id = some sig ∧ V sig.decl reads ∧ s ∈ reads
  | _, _ => False

/-- An expression in the body of an owner is pure, its parts apart. -/
def Expr.Sound (e : Expr Mark) : Prop :=
  e.Allowed cx F V ∧ ∀ x, e.Reads cx F V x → InTime cx.toBoundProgram owner x e.span

/-- The bindings from outside the owner that expressions read. -/
def outerReads (es : List (Expr Mark)) : Set SymbolId :=
  {x | ∃ e ∈ es, e.Reads cx F V x ∧ IsOuter cx.toBoundProgram owner x}

end

/-- By the rules a function is pure, and reads these bindings from outside: whatever its body
evaluates is pure, and the functions called there are pure by the rules. -/
inductive Derivable (cx : Context) (F : Checker) : Rulings
  | intro {d : FnDecl Mark} (V : Rulings) (callees : ∀ g reads, V g reads → Derivable cx F g reads)
    (sound : ∀ e ∈ d.body.evaluated, e.Sound cx F V (some d)) :
    Derivable cx F d (outerReads cx F V (some d) d.body.evaluated)

section
variable {cx : Context} {F : Checker} {V V' : Rulings} {owner : Option (FnDecl Mark)}
  {e : Expr Mark} {d g : FnDecl Mark} {reads reads' : Set SymbolId} {x : SymbolId}

namespace Expr

theorem Allowed.mono (allowed : e.Allowed cx F V)
    (keeps : ∀ g reads, e.CallsTo F g → V g reads → V' g reads) : e.Allowed cx F V' := by
  cases e with
  | call m f args =>
    obtain ⟨sig, reads, found, known⟩ := allowed
    exact ⟨sig, reads, found, keeps _ reads ⟨m, f, args, sig, rfl, found, rfl⟩ known⟩
  | _ => exact allowed

/-- If two rulings agree where both rule, an expression that both allow reads the same. -/
theorem Reads.of_allowed (read : e.Reads cx F V x) (allowed : e.Allowed cx F V')
    (agree : ∀ g reads reads', V g reads → V' g reads' → reads = reads') : e.Reads cx F V' x := by
  cases e with
  | call m f args =>
    obtain ⟨sig, reads, found, known, member⟩ := read
    obtain ⟨sig', reads', found', known'⟩ := allowed
    cases found.symm.trans found'
    cases agree _ _ _ known known'
    exact ⟨sig, reads, found, known', member⟩
  | _ => exact read

theorem Sound.mono (sound : e.Sound cx F V owner)
    (keeps : ∀ g reads, e.CallsTo F g → V g reads → V' g reads)
    (agree : ∀ g reads reads', V g reads → V' g reads' → reads = reads') :
    e.Sound cx F V' owner :=
  ⟨sound.1.mono keeps, fun x read => sound.2 x (read.of_allowed sound.1
    fun g reads reads' known known' => (agree g reads' reads known' known).symm)⟩

end Expr

namespace Derivable

/-- What a function reads from outside is determined. -/
theorem unique (derivable : Derivable cx F d reads) (derivable' : Derivable cx F d reads') :
    reads = reads' := by
  induction derivable generalizing reads' with
  | intro V callees sound ih =>
    obtain ⟨V', callees', sound'⟩ := derivable'
    have agree : ∀ g reads reads', V g reads → V' g reads' → reads = reads' :=
      fun g reads reads' known known' => ih g reads known (callees' g reads' known')
    ext x
    refine exists_congr fun e => and_congr_right fun member => and_congr_left fun _ => ⟨?_, ?_⟩
    · exact fun read => read.of_allowed (sound' e member).1 agree
    · exact fun read => read.of_allowed (sound e member).1
        fun g reads reads' known known' => (agree g reads' reads known' known).symm

/-- Nothing that calls itself through others is pure by the rules. -/
theorem acyclic (derivable : Derivable cx F d reads) : ¬Relation.TransGen F.Calls d d := by
  induction derivable with
  | @intro d V callees sound ih =>
    intro circle
    obtain ⟨g, ⟨_, member, m, f, args, sig, rfl, found, rfl⟩, back⟩ :=
      Relation.TransGen.head'_iff.mp circle
    obtain ⟨sig', reads', found', known⟩ := (sound _ member).1
    cases found.symm.trans found'
    exact ih _ _ known (.tail' back ⟨_, member, m, f, args, sig, rfl, found, rfl⟩)

/-- A function is pure by the rules if and only if its body is pure, given what the rules say of
the functions it calls. -/
theorem iff_sound :
    (∃ reads, Derivable cx F d reads) ↔
      ∀ e ∈ d.body.evaluated, e.Sound cx F (Derivable cx F) (some d) := by
  constructor
  · rintro ⟨_, V, callees, sound⟩ e member
    exact (sound e member).mono (fun g reads _ => callees g reads)
      fun g reads reads' known derivable => (callees g reads known).unique derivable
  · exact fun sound => ⟨_, .intro _ (fun _ _ => id) sound⟩

end Derivable

end

/-! ### Judgements in progress -/

/-- What an entry says of a function, while those of `S` are being judged. -/
def Ruled (cx : Context) (F : Checker) (S : Set (FnDecl Mark)) (d : FnDecl Mark) :
    Option Purity → Prop
  | none => d ∉ S
  | some .judging => d ∈ S
  | some (.pure reads) => d ∉ S ∧ Derivable cx F d {x | x ∈ reads}
  | some .impure => d ∉ S ∧ ∀ reads, ¬Derivable cx F d reads

/-- A state with the tables of `F` in which the functions of `S` are being judged, and all verdicts
are those of the rules. -/
structure Poised (cx : Context) (F : Checker) (S : Set (FnDecl Mark)) (c : Checker) : Prop where
  like : F.Like c
  evaluating : c.evaluating = F.evaluating
  ruled : ∀ d, .stmt (.fn d) ∈ cx.program.nodes → Ruled cx F S d (c.purities.find? d.mark.id)

/-- What the rules say of the functions that are not being judged. -/
def known (cx : Context) (F : Checker) (S : Set (FnDecl Mark)) : Rulings :=
  fun d reads => d ∉ S ∧ Derivable cx F d reads

/-- An entry that is no good verdict is of a function of which nothing is known. -/
theorem Ruled.not_known {cx : Context} {F : Checker} {S : Set (FnDecl Mark)} {d : FnDecl Mark}
    {v : Purity} (ruled : Ruled cx F S d (some v)) (bad : ¬∃ reads, v = .pure reads)
    (reads : Set SymbolId) : ¬known cx F S d reads := by
  cases v with
  | pure reads => exact absurd ⟨reads, rfl⟩ bad
  | judging => exact fun rule => rule.1 ruled
  | impure => exact fun rule => ruled.2 reads rule.2

section
variable (cx : Context) (F : Checker) (S : Set (FnDecl Mark)) (owner : Option (FnDecl Mark))

/-- A judgement while the functions of `S` are being judged: it is good just if the given
expressions are pure by what is known, and have no outside reads if those are not collected. If it
is good, their outside reads are collected. -/
def Sifts (a : Judge Bool) (es : List (Expr Mark)) : Prop :=
  (∀ f ∈ S, ∀ e ∈ es, ∀ g, e.CallsTo F g → Relation.TransGen F.Calls f g) →
  ∀ s c good s' c', Poised cx F S c → a s c = .ok ((good, s'), c') →
    Poised cx F S c' ∧
    (good = true ↔ (∀ e ∈ es, e.Sound cx F (known cx F S) owner) ∧
      (s = none → outerReads cx F (known cx F S) owner es = ∅)) ∧
    (good = true → (s' = none ↔ s = none) ∧
      ∀ x, x ∈ reads? s' ↔ x ∈ reads? s ∨ x ∈ outerReads cx F (known cx F S) owner es)

/-- A judgement of functions by the rules: it is good just if its entry has a verdict that is. -/
def Rules (judge : FnDecl Mark → Check Bool) : Prop :=
  ∀ S : Set (FnDecl Mark), ∀ d, .stmt (.fn d) ∈ cx.program.nodes →
    (∀ f ∈ S, Relation.TransGen F.Calls f d) → ∀ c good c', Poised cx F S c →
    judge d c = .ok (good, c') →
    Poised cx F S c' ∧ ∃ v, c'.purities.find? d.mark.id = some v ∧
      (good = true ↔ ∃ reads, v = .pure reads)

end

theorem Judge.bind_ok {α β : Type} {a : Judge α} {f : α → Judge β}
    {s s' : Option (List SymbolId)} {c c' : Checker} {y : β}
    (run : (a >>= f) s c = .ok ((y, s'), c')) :
    ∃ x s₁ c₁, a s c = .ok ((x, s₁), c₁) ∧ f x s₁ c₁ = .ok ((y, s'), c') := by
  obtain ⟨⟨x, s₁⟩, c₁, first, rest⟩ :=
    Check.bind_ok (a := a s) (f := fun r : α × Option (List SymbolId) => f r.1 r.2) run
  exact ⟨x, s₁, c₁, first, rest⟩

theorem Judge.lift_ok {α : Type} {a : Check α} {s s' : Option (List SymbolId)} {c c' : Checker}
    {x : α} (run : (liftM a : Judge α) s c = .ok ((x, s'), c')) : a c = .ok (x, c') ∧ s' = s := by
  obtain ⟨y, c₁, first, rest⟩ := Check.bind_ok (a := a) (f := fun x => Pure.pure (x, s)) run
  cases rest
  exact ⟨first, rfl⟩

section
variable {cx : Context} {F : Checker} {S : Set (FnDecl Mark)} {owner : Option (FnDecl Mark)}
  {V : Rulings}

theorem outerReads_append (es es' : List (Expr Mark)) :
    outerReads cx F V owner (es ++ es') = outerReads cx F V owner es ∪ outerReads cx F V owner es' := by
  ext x
  simp only [outerReads, List.mem_append, or_and_right, exists_or]
  rfl

namespace Sifts

variable {a b : Judge Bool} {es es' : List (Expr Mark)}

theorem yes (quiet : ∀ e ∈ es, e.Allowed cx F (known cx F S) ∧
      ∀ x, ¬e.Reads cx F (known cx F S) x) : Sifts cx F S owner (Pure.pure true) es := by
  intro _ s c good s' c' poised run
  cases run
  have empty : outerReads cx F (known cx F S) owner es = ∅ :=
    Set.eq_empty_iff_forall_notMem.mpr fun x ⟨e, member, read, _⟩ => (quiet e member).2 x read
  refine ⟨poised, ⟨fun _ => ⟨fun e member => ⟨(quiet e member).1, fun x read => ?_⟩, fun _ => empty⟩,
    fun _ => rfl⟩, fun _ => ⟨.rfl, fun x => ?_⟩⟩
  · exact absurd read ((quiet e member).2 x)
  · rw [empty, Set.mem_empty_iff_false, or_false]

theorem no {e : Expr Mark} (member : e ∈ es) (fails : ¬e.Allowed cx F (known cx F S)) :
    Sifts cx F S owner (Pure.pure false) es := by
  intro _ s c good s' c' poised run
  cases run
  exact ⟨poised, ⟨nofun, fun holds => absurd (holds.1 e member).1 fails⟩, nofun⟩

theorem andThen (first : Sifts cx F S owner a es) (second : Sifts cx F S owner b es') :
    Sifts cx F S owner (.andThen a b) (es ++ es') := by
  intro reach s c good s' c' poised run
  have reach₁ := fun f inside e member => reach f inside e (List.mem_append_left es' member)
  have reach₂ := fun f inside e member => reach f inside e (List.mem_append_right es member)
  obtain ⟨good₁, s₁, c₁, run₁, run₂⟩ := Judge.bind_ok run
  obtain ⟨poised₁, good_iff, collects⟩ := first reach₁ s c good₁ s₁ c₁ poised run₁
  rw [List.forall_mem_append, outerReads_append, Set.union_empty_iff]
  cases good₁ with
  | false =>
    cases run₂
    refine ⟨poised₁, ⟨nofun, fun ⟨sound, empty⟩ => ?_⟩, nofun⟩
    exact good_iff.mpr ⟨sound.1, fun absent => (empty absent).1⟩
  | true =>
    obtain ⟨sound, empty⟩ := good_iff.mp rfl
    obtain ⟨same, collected⟩ := collects rfl
    obtain ⟨poised₂, good_iff₂, collects₂⟩ := second reach₂ s₁ c₁ good s' c' poised₁ run₂
    refine ⟨poised₂, good_iff₂.trans ⟨?_, ?_⟩, fun holds => ?_⟩
    · rintro ⟨sound', empty'⟩
      exact ⟨⟨sound, sound'⟩, fun absent => ⟨empty absent, empty' (same.mpr absent)⟩⟩
    · rintro ⟨⟨_, sound'⟩, both⟩
      exact ⟨sound', fun absent => (both (same.mp absent)).2⟩
    · obtain ⟨same₂, collected₂⟩ := collects₂ holds
      refine ⟨same₂.trans same, fun x => ?_⟩
      rw [collected₂, collected, Set.mem_union, or_assoc]

/-- An expression that itself is allowed and reads nothing. -/
theorem snoc {e : Expr Mark} (sifts : Sifts cx F S owner a es)
    (allowed : e.Allowed cx F (known cx F S)) (quiet : ∀ x, ¬e.Reads cx F (known cx F S) x) :
    Sifts cx F S owner a (es ++ [e]) := by
  have alone : outerReads cx F (known cx F S) owner [e] = ∅ := by
    refine Set.eq_empty_iff_forall_notMem.mpr fun x ⟨k, member, read, _⟩ => quiet x ?_
    rwa [List.mem_singleton.mp member] at read
  intro reach
  have sifted := sifts fun f inside k member => reach f inside k (List.mem_append_left _ member)
  rw [List.forall_mem_append, List.forall_mem_singleton, outerReads_append, alone, Set.union_empty,
    and_iff_left ⟨allowed, fun x read => absurd read (quiet x)⟩]
  exact sifted

end Sifts

/-! ### Reads -/

/-- A judgement of reads at a place: it is good just if all of them come in time, and none is of an
outer binding if those are not collected. If it is good, the outer bindings are collected. -/
def SiftsReads (cx : Context) (owner : Option (FnDecl Mark)) (place : Span) (a : Judge Bool)
    (xs : List SymbolId) : Prop :=
  ∀ s c good s' c', a s c = .ok ((good, s'), c') → c' = c ∧
    (good = true ↔ ∀ x ∈ xs, InTime cx.toBoundProgram owner x place ∧
      (s = none → ¬IsOuter cx.toBoundProgram owner x)) ∧
    (good = true → (s' = none ↔ s = none) ∧
      ∀ y, y ∈ reads? s' ↔ y ∈ reads? s ∨ (y ∈ xs ∧ IsOuter cx.toBoundProgram owner y))

namespace SiftsReads

variable {place : Span}

theorem single (x : SymbolId) :
    SiftsReads cx owner place (cx.resolver.readIsPure owner x place) [x] := by
  unfold Resolver.readIsPure
  dsimp only
  split
  · next d binding head =>
    have declared : ∀ {d'}, (cx.symbol x).decls.head? = some d' → d' = d :=
      fun head' => Option.some.inj (head'.symm.trans head)
    split
    · next own =>
      have inner : ¬IsOuter cx.toBoundProgram owner x := by
        rintro ⟨d', head', outside⟩
        exact outside (declared head' ▸ own)
      intro s c good s' c' run
      cases run
      refine ⟨rfl, ?_, fun _ => ⟨.rfl, fun y => ?_⟩⟩
      · rw [decide_eq_true_iff]
        simp only [List.mem_singleton, forall_eq]
        constructor
        · exact fun before => ⟨⟨d, binding, head, fun _ => before⟩, fun _ => inner⟩
        · rintro ⟨⟨d', _, head', before⟩, _⟩
          exact declared head' ▸ before (declared head' ▸ own)
      · rw [List.mem_singleton]
        exact ⟨.inl, fun here => here.elim id fun ⟨same, outer⟩ => absurd (same ▸ outer) inner⟩
    · next outside =>
      have outer : IsOuter cx.toBoundProgram owner x := ⟨d, head, outside⟩
      have timely : InTime cx.toBoundProgram owner x place :=
        ⟨d, binding, head, fun own => absurd own outside⟩
      intro s c good s' c' run
      cases s with
      | none =>
        cases run
        refine ⟨rfl, ⟨nofun, fun holds => ?_⟩, nofun⟩
        exact absurd outer ((holds x List.mem_cons_self).2 rfl)
      | some reads =>
        change (if (!reads.contains x) = true then _ else _ : Judge Bool) (some reads) c = _ at run
        have sure : ∀ y ∈ [x], InTime cx.toBoundProgram owner y place ∧
            (some reads = none → ¬IsOuter cx.toBoundProgram owner y) := by
          simp only [List.mem_singleton, forall_eq]
          exact ⟨timely, nofun⟩
        cases contained : reads.contains x with
        | true =>
          rw [contained] at run
          cases run
          refine ⟨rfl, ⟨fun _ => sure, fun _ => rfl⟩, fun _ => ⟨.rfl, fun y => ?_⟩⟩
          refine ⟨.inl, fun here => here.elim id fun ⟨same, _⟩ => ?_⟩
          rw [List.mem_singleton.mp same]
          exact List.contains_iff_mem.mp contained
        | false =>
          rw [contained] at run
          cases run
          refine ⟨rfl, ⟨fun _ => sure, fun _ => rfl⟩, fun _ => ⟨⟨nofun, nofun⟩, fun y => ?_⟩⟩
          change y ∈ reads ++ [x] ↔ y ∈ reads ∨ _
          rw [List.mem_append]
          refine or_congr_right ⟨fun same => ⟨same, ?_⟩, And.left⟩
          exact List.mem_singleton.mp same ▸ outer
  · next unbound =>
    intro s c good s' c' run
    cases run
    refine ⟨rfl, ⟨nofun, fun holds => ?_⟩, nofun⟩
    obtain ⟨d, binding, head, _⟩ := (holds x List.mem_cons_self).1
    exact absurd head (unbound d binding)

theorem allM (xs : List SymbolId) :
    SiftsReads cx owner place (xs.allM fun x => cx.resolver.readIsPure owner x place) xs := by
  induction xs with
  | nil =>
    intro s c good s' c' run
    cases run
    exact ⟨rfl, by simp, fun _ => by simp⟩
  | cons x xs ih =>
    rw [Judge.allM_cons]
    intro s c good s' c' run
    obtain ⟨good₁, s₁, c₁, run₁, run₂⟩ := Judge.bind_ok run
    obtain ⟨rfl, good_iff, collects⟩ := single x s c good₁ s₁ c₁ run₁
    simp only [List.mem_singleton, forall_eq] at good_iff collects
    rw [List.forall_mem_cons]
    cases good₁ with
    | false =>
      cases run₂
      exact ⟨rfl, ⟨nofun, fun holds => good_iff.mpr holds.1⟩, nofun⟩
    | true =>
      obtain ⟨same, collected⟩ := collects rfl
      obtain ⟨rfl, good_iff₂, collects₂⟩ := ih s₁ c₁ good s' c' run₂
      refine ⟨rfl, ?_, fun holds => ?_⟩
      · rw [good_iff₂, same, and_iff_right (good_iff.mp rfl)]
      · obtain ⟨same₂, collected₂⟩ := collects₂ holds
        refine ⟨same₂.trans same, fun y => ?_⟩
        rw [collected₂, collected, List.mem_cons, or_and_right, or_assoc]

/-- Where an expression itself is allowed, a judgement of its reads is one of it. -/
theorem sifts {a : Judge Bool} {e : Expr Mark} {xs : List SymbolId}
    (judged : SiftsReads cx owner e.span a xs) (allowed : e.Allowed cx F (known cx F S))
    (reads : ∀ x, e.Reads cx F (known cx F S) x ↔ x ∈ xs) : Sifts cx F S owner a [e] := by
  have outer : ∀ x, x ∈ outerReads cx F (known cx F S) owner [e] ↔
      x ∈ xs ∧ IsOuter cx.toBoundProgram owner x := by
    intro x
    rw [← reads]
    exact ⟨fun ⟨k, member, read⟩ => List.mem_singleton.mp member ▸ read,
      fun read => ⟨e, List.mem_cons_self, read⟩⟩
  intro _ s c good s' c' poised run
  obtain ⟨rfl, good_iff, collects⟩ := judged s c good s' c' run
  refine ⟨poised, ?_, fun holds => ?_⟩
  · rw [good_iff, List.forall_mem_singleton, Set.eq_empty_iff_forall_notMem]
    constructor
    · exact fun timely => ⟨⟨allowed, fun x read => (timely x ((reads x).mp read)).1⟩,
        fun absent x read => (timely x ((outer x).mp read).1).2 absent ((outer x).mp read).2⟩
    · exact fun ⟨sound, empty⟩ x member => ⟨sound.2 x ((reads x).mpr member),
        fun absent outside => empty absent x ((outer x).mpr ⟨member, outside⟩)⟩
  · obtain ⟨same, collected⟩ := collects holds
    exact ⟨same, fun x => by rw [collected, outer]⟩

end SiftsReads

theorem Poised.step {c c' : Checker} (poised : Poised cx F S c) (like : F.Like c')
    (evaluating : c'.evaluating = F.evaluating) (purities : c'.purities = c.purities) :
    Poised cx F S c' :=
  ⟨like, evaluating, purities ▸ poised.ruled⟩

end

/-! ### Trees -/

namespace Certified

variable {cx : Context} {F : Checker} {S : Set (FnDecl Mark)} {judge : FnDecl Mark → Check Bool}

section
variable (cert : Certified cx.toBoundProgram F) (owner : Option (FnDecl Mark))
  (rules : Rules cx F judge)
include cert

theorem siftsDivisor {m : Mark} {op : BinOp} {a b : Expr Mark} :
    Sifts cx F S owner (do if op.divides then cx.resolver.isNonZeroConstant b else return true)
      [.bin m op a b] := by
  have quiet : ∀ x, ¬(Expr.bin m op a b).Reads cx F (known cx F S) x := fun _ => id
  split
  · next divides =>
    obtain ⟨found, repeats⟩ := cert.isNonZeroConstant_repeats F.evaluating b
    obtain ⟨c₀, answer, _⟩ := repeats F (.refl F) rfl
    have allowed_iff : (Expr.bin m op a b).Allowed cx F (known cx F S) ↔ found = true := by
      constructor
      · intro allowed
        obtain ⟨c₁, nonZero⟩ := allowed divides
        cases answer.symm.trans nonZero
        rfl
      · rintro rfl _
        exact ⟨c₀, answer⟩
    intro reach s c good s' c' poised run
    obtain ⟨asked, rfl⟩ := Judge.lift_ok run
    obtain ⟨c₁, asked', like, evaluating, purities⟩ := repeats c poised.like poised.evaluating
    cases asked.symm.trans asked'
    have poised' := poised.step like evaluating purities
    cases found with
    | true =>
      exact (Sifts.yes (List.forall_mem_singleton.mpr ⟨allowed_iff.mpr rfl, quiet⟩)) reach
        s' c' true s' c' poised' rfl
    | false =>
      exact (Sifts.no List.mem_cons_self fun allowed => Bool.false_ne_true (allowed_iff.mp allowed))
        reach s' c' false s' c' poised' rfl
  · next safe =>
    exact .yes (List.forall_mem_singleton.mpr ⟨fun divides => absurd divides safe, quiet⟩)

include rules

omit cert in
theorem siftsCall {m : Mark} {f : Ident Mark} {args : List (Expr Mark)} {sig : Signature}
    (found : F.signatures.find? m.id = some sig) (node : .stmt (.fn sig.decl) ∈ cx.program.nodes) :
    Sifts cx F S owner (do
      if ← judge sig.decl then
        (← Check.outerReads sig.decl).allM fun x => cx.resolver.readIsPure owner x m.span
      else return false) [.call m f args] := by
  intro reach s c good s' c' poised run
  obtain ⟨good₁, s₁, c₁, lifted, rest⟩ := Judge.bind_ok run
  obtain ⟨judged, rfl⟩ := Judge.lift_ok lifted
  have reach₁ : ∀ g ∈ S, Relation.TransGen F.Calls g sig.decl := fun g inside =>
    reach g inside _ List.mem_cons_self _ ⟨m, f, args, sig, rfl, found, rfl⟩
  obtain ⟨poised₁, v, entry, good_iff⟩ := rules S sig.decl node reach₁ c good₁ c₁ poised judged
  have ruled := poised₁.ruled sig.decl node
  rw [entry] at ruled
  cases good₁ with
  | false =>
    refine Sifts.no List.mem_cons_self (fun allowed => ?_) reach s₁ c₁ good s' c' poised₁ rest
    obtain ⟨sig', reads, found', rule⟩ := allowed
    cases found.symm.trans found'
    exact ruled.not_known (fun good => Bool.false_ne_true (good_iff.mpr good)) reads rule
  | true =>
    obtain ⟨reads, rfl⟩ := good_iff.mp rfl
    have rule : known cx F S sig.decl {x | x ∈ reads} := ruled
    obtain ⟨outer, s₂, c₂, lifted', rest⟩ := Judge.bind_ok rest
    obtain ⟨asked, rfl⟩ := Judge.lift_ok lifted'
    rw [Check.outerReads, Check.get_bind, entry] at asked
    cases asked
    have allowed : (Expr.call m f args).Allowed cx F (known cx F S) := ⟨sig, _, found, rule⟩
    refine SiftsReads.sifts (.allM reads) allowed (fun x => ?_) reach _ _ good s' c' poised₁ rest
    constructor
    · rintro ⟨sig', reads', found', rule', member⟩
      cases found.symm.trans found'
      have same := rule'.2.unique rule.2
      rw [same] at member
      exact member
    · exact fun member => ⟨sig, _, found, rule, member⟩

set_option linter.unusedSectionVars false

mutual
theorem siftsExpr : ∀ e : Expr Mark, e.nodes ⊆ cx.program.nodes →
    Sifts cx F S owner (cx.resolver.exprIsPure judge owner e) e.evaluated
  | .lit _, _ => .yes (List.forall_mem_singleton.mpr ⟨trivial, fun _ => id⟩)
  | .inhabitant _ _, _ => .yes (List.forall_mem_singleton.mpr ⟨trivial, fun _ => id⟩)
  | .name x, _ => by
    rw [Resolver.exprIsPure]
    split
    · next s target =>
      refine (SiftsReads.single s).sifts ⟨s, target⟩ fun y => ?_
      rw [List.mem_singleton]
      exact ⟨fun read => Option.some.inj (read.symm.trans target), fun same => same ▸ target⟩
    · next unknown =>
      refine .no List.mem_cons_self ?_
      rintro ⟨s, target⟩
      cases unknown.symm.trans target
  | .paren _ e, inside => (siftsExpr e (Answers.below_left inside)).snoc trivial fun _ => id
  | .unary _ _ e, inside => (siftsExpr e (Answers.below_left inside)).snoc trivial fun _ => id
  | .bin _ _ a b, inside =>
    (siftsExpr a (Answers.below_left (Answers.below_left inside))).andThen
      ((siftsExpr b (Answers.below_right (Answers.below_left inside))).andThen
        (siftsDivisor cert owner))
  | .block _ ss tail, inside =>
    ((siftsStmts ss (Answers.below_left (Answers.below_left inside))).andThen
      (siftsTail tail (Answers.below_right (Answers.below_left inside)))).snoc trivial fun _ => id
  | .cases _ e arms, inside => by
    rw [Resolver.exprIsPure]
    split
    · next wild =>
      exact ((siftsExpr e (Answers.below_left (Answers.below_left inside))).andThen
        (siftsArms arms (Answers.below_right (Answers.below_left inside)))).snoc wild fun _ => id
    · next open_ => exact .no (List.mem_append_right _ List.mem_cons_self) open_
  | .call m f args, inside => by
    intro reach s c good s' c' poised run
    rw [Resolver.exprIsPure, Check.getThe_bind, poised.like.signatures] at run
    cases found : F.signatures.find? m.id with
    | none =>
      rw [found] at run
      refine Sifts.no (List.mem_append_right _ List.mem_cons_self) ?_ reach s c good s' c' poised run
      rintro ⟨sig, reads, found', _⟩
      cases found.symm.trans found'
    | some sig =>
      rw [found] at run
      have node := (cert.callee (inside (Expr.mem_nodes _)) found).2
      exact (siftsExprs args (List.cons_subset.mp (Answers.below_left inside)).2).andThen
        (siftsCall owner rules found node) reach s c good s' c' poised run
  | .assign _ _ _, _ => .no (List.mem_append_right _ List.mem_cons_self) id
  | .host _ _, _ => .no List.mem_cons_self id

theorem siftsExprs : ∀ es : List (Expr Mark), exprsNodes es ⊆ cx.program.nodes →
    Sifts cx F S owner (cx.resolver.exprsArePure judge owner es) (exprsEvaluated es)
  | [], _ => .yes nofun
  | e :: es, inside =>
    (siftsExpr e (Answers.below_left inside)).andThen (siftsExprs es (Answers.below_right inside))

theorem siftsTail : ∀ tail : Option (Expr Mark), tailNodes tail ⊆ cx.program.nodes →
    Sifts cx F S owner (cx.resolver.tailIsPure judge owner tail) (tailEvaluated tail)
  | none, _ => .yes nofun
  | some e, inside => siftsExpr e inside

theorem siftsArms : ∀ arms : List (Arm Mark), armsNodes arms ⊆ cx.program.nodes →
    Sifts cx F S owner (cx.resolver.armsArePure judge owner arms) (armsEvaluated arms)
  | [], _ => .yes nofun
  | ⟨_, _, e⟩ :: arms, inside =>
    (siftsExpr e (Answers.below_right (Answers.below_left (Answers.below_left inside)))).andThen
      (siftsArms arms (Answers.below_right inside))

theorem siftsStmt : ∀ s : Stmt Mark, s.nodes ⊆ cx.program.nodes →
    Sifts cx F S owner (cx.resolver.stmtIsPure judge owner s) (stmtEvaluated s)
  | .val ⟨_, _, _, _, e⟩, inside => siftsExpr e (Answers.below_right (Answers.below_left inside))
  | .typeAlias _, _ => .yes nofun
  | .fn _, _ => .yes nofun
  | .expr _ e, inside => siftsExpr e (Answers.below_left inside)

theorem siftsStmts : ∀ ss : List (Stmt Mark), stmtsNodes ss ⊆ cx.program.nodes →
    Sifts cx F S owner (cx.resolver.stmtsArePure judge owner ss) (stmtsEvaluated ss)
  | [], _ => .yes nofun
  | s :: ss, inside =>
    (siftsStmt s (Answers.below_left inside)).andThen (siftsStmts ss (Answers.below_right inside))
end

end

/-! ### Functions -/

section
variable (cert : Certified cx.toBoundProgram F)
include cert

theorem poised_insert {S' : Set (FnDecl Mark)} {d : FnDecl Mark} {v : Purity} {c : Checker}
    (node : .stmt (.fn d) ∈ cx.program.nodes) (poised : Poised cx F S c)
    (own : Ruled cx F S' d (some v)) (others : ∀ g, g ≠ d → (g ∈ S' ↔ g ∈ S)) :
    Poised cx F S' { c with purities := c.purities.insert d.mark.id v } where
  like := poised.like.update (f := fun c => { c with purities := c.purities.insert d.mark.id v })
    fun _ => ⟨_, _, _, _, rfl⟩
  evaluating := poised.evaluating
  ruled := by
    intro g node'
    by_cases same : g.mark.id = d.mark.id
    · cases cert.bound.node_unique node' node same
      rwa [Table.find?_insert_self]
    · have ruled := poised.ruled g node'
      have inside := others g fun eq => same (congrArg (·.mark.id) eq)
      rw [Table.find?_insert_other _ _ same]
      cases entry : c.purities.find? g.mark.id with
      | none => rwa [entry, Ruled, ← inside] at ruled
      | some v => cases v <;> rwa [entry, Ruled, ← inside] at ruled

omit cert in
/-- Nothing that is pure by the rules calls what is being judged, since it would be on a circle of
calls. -/
theorem sound_known {d : FnDecl Mark} (reach : ∀ f ∈ S, Relation.TransGen F.Calls f d)
    (derivable : ∃ reads, Derivable cx F d reads) :
    ∀ e ∈ d.body.evaluated, e.Sound cx F (known cx F (insert d S)) (some d) := by
  intro e member
  refine (Derivable.iff_sound.mp derivable e member).mono (fun g reads calls rule => ⟨?_, rule⟩)
    fun g reads reads' rule rule' => rule.unique rule'.2
  obtain ⟨_, derivable⟩ := derivable
  rintro (rfl | inside)
  · exact derivable.acyclic (.single ⟨e, member, calls⟩)
  · exact derivable.acyclic (.head ⟨e, member, calls⟩ (reach g inside))

/-- The body of a function is judged by the rules. -/
theorem judgesBody (rules : Rules cx F judge) {d : FnDecl Mark}
    (node : .stmt (.fn d) ∈ cx.program.nodes) (reach : ∀ f ∈ S, Relation.TransGen F.Calls f d)
    {c c' : Checker} {good : Bool} {s : Option (List SymbolId)}
    (poised : Poised cx F (insert d S) c)
    (run : cx.resolver.exprIsPure judge (some d) d.body (some []) c = .ok ((good, s), c')) :
    Poised cx F (insert d S) c' ∧ (good = true → Derivable cx F d {x | x ∈ s.getD []}) ∧
      (good = false → ∀ reads, ¬Derivable cx F d reads) := by
  have body : d.body.nodes ⊆ cx.program.nodes := by
    obtain ⟨m, x, qs, result, e⟩ := d
    exact fun k below => Program.mem_below node
      (List.mem_append_left _ (List.mem_append_right _ below))
  have reached : ∀ f ∈ insert d S, ∀ e ∈ d.body.evaluated, ∀ g, e.CallsTo F g →
      Relation.TransGen F.Calls f g := by
    rintro f (rfl | inside) e member g calls
    · exact .single ⟨e, member, calls⟩
    · exact .tail (reach f inside) ⟨e, member, calls⟩
  obtain ⟨poised', good_iff, collects⟩ :=
    siftsExpr cert (some d) rules d.body body reached (some []) c good s c' poised run
  refine ⟨poised', fun holds => ?_, ?_⟩
  · obtain ⟨sound, _⟩ := good_iff.mp holds
    have reads : {x | x ∈ s.getD []} =
        outerReads cx F (known cx F (insert d S)) (some d) d.body.evaluated := by
      ext x
      exact ((collects holds).2 x).trans (or_iff_right List.not_mem_nil)
    rw [reads]
    exact .intro _ (fun _ _ rule => rule.2) sound
  · rintro rfl reads derivable
    exact Bool.false_ne_true (good_iff.mpr ⟨sound_known reach ⟨reads, derivable⟩, nofun⟩)

theorem rules (n : Nat) : Rules cx F (cx.resolver.fnIsPureWithin n) := by
  induction n with
  | zero => exact fun _ _ _ _ _ _ _ _ run => nomatch run
  | succ n ih =>
    intro S d node reach c good c' poised run
    have ruled := poised.ruled d node
    rw [Resolver.fnIsPureWithin, Check.get_bind] at run
    cases entry : c.purities.find? d.mark.id with
    | some v =>
      rw [entry] at run
      cases v <;> cases run <;> exact ⟨poised, _, entry, by simp⟩
    | none =>
      rw [entry] at run ruled
      obtain ⟨_, c₁, begun, run⟩ := Check.bind_ok run
      cases begun
      have poised₁ : Poised cx F (insert d S)
          { c with purities := c.purities.insert d.mark.id .judging } :=
        cert.poised_insert node poised (Set.mem_insert d S) fun g apart =>
          Set.mem_insert_iff.trans (or_iff_right apart)
      obtain ⟨⟨holds, s⟩, c₂, body, run⟩ := Check.bind_ok run
      obtain ⟨poised₂, pure, impure⟩ := cert.judgesBody ih node reach poised₁ body
      obtain ⟨_, c₃, ended, run⟩ := Check.bind_ok run
      cases ended
      cases run
      have others : ∀ g, g ≠ d → (g ∈ S ↔ g ∈ insert d S) := fun g apart =>
        (Set.mem_insert_iff.trans (or_iff_right apart)).symm
      cases good with
      | true =>
        exact ⟨cert.poised_insert node poised₂ ⟨ruled, pure rfl⟩ others, _,
          Table.find?_insert_self .., by simp⟩
      | false =>
        exact ⟨cert.poised_insert node poised₂ ⟨ruled, impure rfl⟩ others, _,
          Table.find?_insert_self .., by simp⟩

end

end Certified

/-! ### Sequences of questions -/

inductive PurityQuery where
  | fn (d : FnDecl Mark)
  /-- About an expression in the body of an owner or, without one, at the top level. -/
  | expr (owner : Option (FnDecl Mark)) (e : Expr Mark)

namespace PurityQuery

/-- The question is about a node of the program. -/
def Within (p : BoundProgram) : PurityQuery → Prop
  | fn d => .stmt (.fn d) ∈ p.program.nodes
  | expr _ e => .expr e ∈ p.program.nodes

def ask (r : Resolver) : PurityQuery → Check Bool
  | fn d => r.fnIsPure d
  | expr owner e => r.isPureWithin owner e

/-- The answer by the rules. An expression that is judged by itself reads nothing from outside. -/
def Holds (cx : Context) (F : Checker) : PurityQuery → Prop
  | fn d => ∃ reads, Derivable cx F d reads
  | expr owner e => (∀ k ∈ e.evaluated, k.Sound cx F (Derivable cx F) owner) ∧
    outerReads cx F (Derivable cx F) owner e.evaluated = ∅

end PurityQuery

def Purity.Same : Purity → Purity → Prop
  | .pure reads, .pure reads' => ∀ x, x ∈ reads ↔ x ∈ reads'
  | .impure, .impure => True
  | _, _ => False

section
variable {cx : Context} {F : Checker} {c c' : Checker}

theorem known_empty : known cx F ∅ = Derivable cx F := by
  funext d reads
  simp [known]

theorem Certified.poised (cert : Certified cx.toBoundProgram F) : Poised cx F ∅ F := by
  refine ⟨.refl F, rfl, fun d _ => ?_⟩
  rw [cert.purities]
  exact Set.notMem_empty d

theorem Ruled.same {d : FnDecl Mark} {v v' : Purity} (ruled : Ruled cx F ∅ d (some v))
    (ruled' : Ruled cx F ∅ d (some v')) : v.Same v' := by
  cases v with
  | judging => exact absurd ruled (Set.notMem_empty d)
  | pure reads =>
    cases v' with
    | judging => exact absurd ruled' (Set.notMem_empty d)
    | pure reads' => exact fun x => Set.ext_iff.mp (ruled.2.unique ruled'.2) x
    | impure => exact absurd ruled.2 (ruled'.2 _)
  | impure =>
    cases v' with
    | judging => exact absurd ruled' (Set.notMem_empty d)
    | pure reads' => exact absurd ruled'.2 (ruled.2 _)
    | impure => trivial

variable (cert : Certified cx.toBoundProgram F) (sized : cx.program.nodes.length ≤ cx.nodeCount)
include cert sized

/-- A function that is asked about gets the verdict of the rules. -/
theorem Poised.fnIsPure (poised : Poised cx F ∅ c) {d : FnDecl Mark}
    (node : .stmt (.fn d) ∈ cx.program.nodes) :
    ∃ good c' v, cx.resolver.fnIsPure d c = .ok (good, c') ∧ Poised cx F ∅ c' ∧
      c'.purities.find? d.mark.id = some v ∧ Ruled cx F ∅ d (some v) ∧
      (good = true ↔ ∃ reads, Derivable cx F d reads) := by
  obtain ⟨good, c', run, judged, _⟩ :=
    cert.fnIsPure d node c poised.like (Certified.unjudged_lt_nodeCount sized c)
  obtain ⟨poised', v, entry, good_iff⟩ :=
    cert.rules _ ∅ d node (fun f inside => absurd inside (Set.notMem_empty f)) c good c' poised run
  have ruled := poised'.ruled d node
  rw [entry] at ruled
  refine ⟨good, c', v, run, poised', entry, ruled, ?_⟩
  constructor
  · intro holds
    obtain ⟨reads, rfl⟩ := good_iff.mp holds
    exact ⟨_, ruled.2⟩
  · rintro ⟨reads, derivable⟩
    by_contra bad
    exact ruled.not_known (fun good => bad (good_iff.mpr good)) reads
      ⟨Set.notMem_empty d, derivable⟩

theorem Poised.ask (poised : Poised cx F ∅ c) {query : PurityQuery}
    (within : query.Within cx.toBoundProgram) :
    ∃ good c', query.ask cx.resolver c = .ok (good, c') ∧ Poised cx F ∅ c' ∧
      (good = true ↔ query.Holds cx F) := by
  cases query with
  | fn d =>
    obtain ⟨good, c', _, run, poised', _, _, holds⟩ := poised.fnIsPure cert sized within
    exact ⟨good, c', run, poised', holds⟩
  | expr owner e =>
    have inside : e.nodes ⊆ cx.program.nodes := fun _ below => Program.mem_below within below
    obtain ⟨good, c', run, _, _⟩ := cert.isPureWithin sized owner inside poised.like
    obtain ⟨⟨good', s⟩, c₁, judged, ended⟩ := Check.bind_ok run
    cases ended
    obtain ⟨poised', good_iff, _⟩ := cert.siftsExpr owner (cert.rules _) e inside
      (fun f inside => absurd inside (Set.notMem_empty f)) none c good s c' poised judged
    rw [known_empty] at good_iff
    refine ⟨good, c', run, poised', good_iff.trans ?_⟩
    exact and_congr_right fun _ => forall_prop_of_true rfl

/-- Each of several questions gets the answer of the rules. -/
theorem Poised.askAll (poised : Poised cx F ∅ c) {queries : List PurityQuery}
    (within : ∀ query ∈ queries, query.Within cx.toBoundProgram) :
    ∃ answers c', queries.mapM (·.ask cx.resolver) c = .ok (answers, c') ∧ Poised cx F ∅ c' ∧
      List.Forall₂ (fun query good => good = true ↔ query.Holds cx F) queries answers := by
  induction queries generalizing c with
  | nil => exact ⟨[], c, rfl, poised, .nil⟩
  | cons query queries ih =>
    obtain ⟨own, rest⟩ := List.forall_mem_cons.mp within
    obtain ⟨good, c₁, run, poised₁, holds⟩ := poised.ask cert sized own
    obtain ⟨answers, c₂, runs, poised₂, all⟩ := ih poised₁ rest
    refine ⟨good :: answers, c₂, ?_, poised₂, .cons holds all⟩
    rw [List.mapM_cons]
    exact (Check.bind_eq run).trans (Check.bind_eq runs)

end

/-- What the rules say of a function that has a verdict. -/
structure RuledBy (cx : Context) (F : Checker) (d : FnDecl Mark) (good : Bool) (v : Purity) :
    Prop where
  /-- It is pure just if that can be derived. -/
  derivable : good = true ↔ ∃ reads, Derivable cx F d reads
  reads : ∀ reads, v = .pure reads → Derivable cx F d {x | x ∈ reads}
  /-- It is pure just if nothing in its body is wrong and the functions called there are pure. -/
  sound : good = true ↔ ∀ e ∈ d.body.evaluated, e.Sound cx F (Derivable cx F) (some d)
  circle : Relation.TransGen F.Calls d d → good = false

theorem Ruled.by {cx : Context} {F : Checker} {d : FnDecl Mark} {good : Bool} {v : Purity}
    (ruled : Ruled cx F ∅ d (some v)) (holds : good = true ↔ ∃ reads, Derivable cx F d reads) :
    RuledBy cx F d good v where
  derivable := holds
  reads := by
    rintro reads rfl
    exact ruled.2
  sound := holds.trans Derivable.iff_sound
  circle := by
    intro circle
    refine (Bool.not_eq_true _).mp fun yes => ?_
    obtain ⟨reads, derivable⟩ := holds.mp yes
    exact derivable.acyclic circle

/-! ### Programs without errors -/

/-- After a check without an error, questions about purity in any number and order are answered as
if each of them were the first one. The same goes for the verdict that is kept of a function, with
its outside reads; and that is the one of the rules, without any judgement in progress. -/
theorem Draft.purity_order_free (d : Draft) (options : Options) (q : Checked)
    (passes : d.Passes options q) (queries : List PurityQuery)
    (within : ∀ query ∈ queries, query.Within (d.context options).toBoundProgram) :
    let cx := d.context options
    ∃ answers c, queries.mapM (·.ask cx.resolver) q.checker = .ok (answers, c) ∧
      List.Forall₂ (fun query good => ∃ c', query.ask cx.resolver q.checker = .ok (good, c'))
        queries answers ∧
      ∀ g, .stmt (.fn g) ∈ cx.program.nodes → ∃ good c' v,
        cx.resolver.fnIsPure g q.checker = .ok (good, c') ∧
        c'.purities.find? g.mark.id = some v ∧ RuledBy cx q.checker g good v ∧
        (∀ v', c.purities.find? g.mark.id = some v' → v'.Same v) ∧
        ∃ c₁ v₁, cx.resolver.fnIsPure g c = .ok (good, c₁) ∧
          c₁.purities.find? g.mark.id = some v₁ ∧ v₁.Same v := by
  intro cx
  obtain ⟨_, cert⟩ := passes.certified
  have sized := d.sized options
  obtain ⟨answers, c, run, poised, all⟩ := cert.poised.askAll cert sized within
  refine ⟨answers, c, run, ?_, fun g node => ?_⟩
  · refine (List.forall₂_and_left _ _ |>.mpr ⟨within, all⟩).imp ?_
    rintro query good ⟨own, holds⟩
    obtain ⟨good', c', asked, _, holds'⟩ := cert.poised.ask cert sized own
    have same : good' = good := Bool.eq_iff_iff.mpr (holds'.trans holds.symm)
    exact ⟨c', same ▸ asked⟩
  · obtain ⟨good, c', v, asked, _, entry, ruled, holds⟩ := cert.poised.fnIsPure cert sized node
    obtain ⟨good₁, c₁, v₁, asked₁, _, entry₁, ruled₁, holds₁⟩ := poised.fnIsPure cert sized node
    have same : good₁ = good := Bool.eq_iff_iff.mpr (holds₁.trans holds.symm)
    refine ⟨good, c', v, asked, entry, ruled.by holds, fun v' known => ?_, c₁, v₁, same ▸ asked₁,
      entry₁, ruled₁.same ruled⟩
    have ruled' := poised.ruled g node
    rw [known] at ruled'
    exact ruled'.same ruled

/-- A draft with two functions on a circle of calls, one of which is called from outside it, and one
that reads a later binding. -/
def Draft.roundabout : Draft where
  text := "def f(): Int = g() def g(): Int = f() def h(): Int = f() def k(): Int = x val x: Int = 1"
  stmts :=
    [.fn ⟨[], ⟨[], "f"⟩, [], some (.refer [] ⟨[], "Int"⟩), .call [] ⟨[], "g"⟩ []⟩,
      .fn ⟨[], ⟨[], "g"⟩, [], some (.refer [] ⟨[], "Int"⟩), .call [] ⟨[], "f"⟩ []⟩,
      .fn ⟨[], ⟨[], "h"⟩, [], some (.refer [] ⟨[], "Int"⟩), .call [] ⟨[], "f"⟩ []⟩,
      .fn ⟨[], ⟨[], "k"⟩, [], some (.refer [] ⟨[], "Int"⟩), .name ⟨[], "x"⟩⟩,
      .val ⟨[], .val, ⟨[], "x"⟩, some (.refer [] ⟨[], "Int"⟩), .lit ⟨[], .int 1⟩⟩]

/-- Only the function off the circle is pure, in whatever order the four are asked about. -/
theorem Draft.purity_order_free_roundabout : ∃ q answers c, roundabout.Passes default q ∧
    ((roundabout.context default).program.functions.map PurityQuery.fn).mapM
      (·.ask (roundabout.context default).resolver) q.checker = .ok (answers, c) ∧
    answers = [false, false, false, true] ∧
    List.Forall₂ (fun query good => ∃ c', query.ask (roundabout.context default).resolver q.checker =
      .ok (good, c')) ((roundabout.context default).program.functions.map PurityQuery.fn) answers := by
  have served : ((roundabout.context default).checked.toOption.any fun q => !q.hasErrors &&
      match ((roundabout.context default).program.functions.map PurityQuery.fn).mapM
        (·.ask (roundabout.context default).resolver) q.checker with
      | .error _ => false
      | .ok (answers, _) => answers == [false, false, false, true]) = true := by decide +kernel
  cases checked : (roundabout.context default).checked with
  | error e =>
    rw [checked] at served
    cases served
  | ok q =>
    simp only [checked, Except.toOption, Option.any_some, Bool.and_eq_true,
      Bool.not_eq_true'] at served
    obtain ⟨clean, served⟩ := served
    split at served
    · cases served
    next answers c run =>
    have passes : roundabout.Passes default q := ⟨checked, clean⟩
    obtain ⟨answers', c', run', first, _⟩ := purity_order_free roundabout default q passes
      ((roundabout.context default).program.functions.map PurityQuery.fn)
      (List.forall_mem_map.mpr fun g inside => Program.node_of_function inside)
    cases run.symm.trans run'
    exact ⟨q, answers, c, passes, run, eq_of_beq served, first⟩

end Solo

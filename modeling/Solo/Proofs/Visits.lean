import Solo.Proofs.Underway

/-!
# Safe visits

A visit to a part of the program is `Safe` if it leaves the checker `Tidy` and never comes upon an
entry that is there already. Given an oracle that meets demands safely, every single question of the
checker is answered so; a demand is made only for what is declared around the place of the visit.
-/

namespace Solo

/-- An action that ends in a tidy state in which `W` is still to be written, or endlessly widens. -/
def Context.Safe (cx : Context) (A : List (Expr Mark)) (W : List Entry) (c : Checker) {α : Type}
    (a : Check α) (Q : α → Checker → Prop) : Prop :=
  match a c with
  | .ok (x, c') => cx.Tidy A W c' ∧ c.Later c' ∧ Q x c'
  | .error e => e = .endless

/-- An action that gives no answers: it enters texts, literals and singletons of literals, and
changes subtypes, constants in progress and reports. -/
def Silent {α : Type} (a : Check α) (Q : α → Prop) : Prop :=
  ∀ c, ∃ x c', a c = .ok (x, c') ∧ c.SameAnswers c' ∧ Q x

namespace Silent

variable {α β : Type} {a : Check α} {P : α → Prop} {Q : β → Prop}

theorem pure {x : α} (holds : P x) : Silent (Pure.pure x) P :=
  fun c => ⟨x, c, rfl, ⟨rfl, rfl, rfl, rfl, rfl, rfl, fun _ => id⟩, holds⟩

theorem bind {f : α → Check β} (first : Silent a P) (rest : ∀ x, P x → Silent (f x) Q) :
    Silent (a >>= f) Q := by
  intro c
  obtain ⟨x, c₁, run, same, holds⟩ := first c
  obtain ⟨y, c₂, run', same', holds'⟩ := rest x holds c₁
  refine ⟨y, c₂, ?_, same.trans same', holds'⟩
  rw [Check.bind_apply, run]
  exact run'

theorem get : Silent MonadState.get fun _ => True :=
  fun c => ⟨c, c, rfl, ⟨rfl, rfl, rfl, rfl, rfl, rfl, fun _ => id⟩, trivial⟩

theorem update {f : Checker → Checker} (same : ∀ c : Checker, c.SameAnswers (f c)) :
    Silent (modify f) fun _ => True :=
  fun c => ⟨(), f c, rfl, same c, trivial⟩

theorem report (span : Span) (problem : Problem) : Silent (Check.report span problem) fun _ => True :=
  update fun _ => ⟨rfl, rfl, rfl, rfl, rfl, rfl, fun _ => id⟩

theorem enterText (v : Literal) : Silent (Check.enterText v) fun _ => True := by
  cases v with
  | str s => exact update fun _ => ⟨rfl, rfl, rfl, rfl, rfl, rfl, fun _ => id⟩
  | _ => exact pure trivial

theorem enterLiteral (v : Literal) : Silent (Check.enterLiteral v) fun _ => True := by
  refine fun c => ⟨_, _, rfl, ⟨rfl, rfl, rfl, rfl, rfl, rfl, fun x entered => ?_⟩, trivial⟩
  rwa [Checker.types, c.interns.internLiteral_types v] at entered

theorem literalType (v : Literal) :
    Silent (Check.enterType (.literal v)) fun u => u = .literal v := by
  refine fun c => ⟨_, _, rfl, ⟨rfl, rfl, rfl, rfl, rfl, rfl, fun x entered => ?_⟩, rfl⟩
  obtain ⟨e, member, own⟩ := Array.mem_map.mp entered
  rcases InternCache.mem_literalType member with old | new
  · exact Array.mem_map.mpr ⟨e, old, own⟩
  · cases new.symm.trans own

theorem isPursuing (goal : Goal) : Silent (Check.isPursuing goal) fun _ => True :=
  bind get fun _ _ => pure trivial

theorem apply (result : Except OpError Literal) : Silent (Check.apply result) fun _ => True := by
  cases result with
  | error e => exact pure trivial
  | ok v => exact bind (enterText v) fun _ _ => pure trivial

end Silent

namespace Context.Safe

variable {cx : Context} {A : List (Expr Mark)} {V W : List Entry} {c c₁ : Checker} {α β : Type}
  {a b : Check α} {P Q : α → Checker → Prop} {R : β → Checker → Prop}

theorem pure {x : α} (tidy : cx.Tidy A W c) (holds : Q x c) : cx.Safe A W c (Pure.pure x) Q :=
  ⟨tidy, .refl c, holds⟩

theorem endless : cx.Safe A W c (throw .endless) Q := rfl

theorem congr (safe : cx.Safe A W c a Q) (same : b c = a c) : cx.Safe A W c b Q := by
  rwa [Safe, same]

theorem of_run {x : α} (run : a c = .ok (x, c₁)) (tidy : cx.Tidy A W c₁) (later : c.Later c₁)
    (holds : Q x c₁) : cx.Safe A W c a Q := by
  rw [Safe, run]
  exact ⟨tidy, later, holds⟩

theorem of_fault (fault : a c = .error .endless) : cx.Safe A W c a Q := by
  rw [Safe, fault]

theorem cases (safe : cx.Safe A W c a Q) :
    (∃ x c₁, a c = .ok (x, c₁) ∧ cx.Tidy A W c₁ ∧ c.Later c₁ ∧ Q x c₁) ∨
      a c = .error .endless := by
  rw [Safe] at safe
  cases run : a c with
  | error e =>
    rw [run] at safe
    exact .inr (congrArg _ safe)
  | ok r =>
    rw [run] at safe
    exact .inl ⟨r.1, r.2, rfl, safe⟩

theorem bind {B : List (Expr Mark)} {f : α → Check β} (first : cx.Safe B W c a Q)
    (rest : ∀ x c₁, cx.Tidy B W c₁ → c.Later c₁ → Q x c₁ → cx.Safe A V c₁ (f x) R) :
    cx.Safe A V c (a >>= f) R := by
  rcases first.cases with ⟨x, c₁, run, tidy, later, holds⟩ | fault
  · have both : (a >>= f) c = f x c₁ := by
      rw [Check.bind_apply, run]
      rfl
    rcases (rest x c₁ tidy later holds).cases with ⟨y, c₂, run', tidy', later', holds'⟩ | fault
    · exact .of_run (both.trans run') tidy' (later.trans later') holds'
    · exact .of_fault (both.trans fault)
  · refine .of_fault ?_
    rw [Check.bind_apply, fault]
    rfl

theorem weaken (safe : cx.Safe A W c a P)
    (gives : ∀ x c', cx.Tidy A W c' → c.Later c' → P x c' → Q x c') : cx.Safe A W c a Q := by
  rcases safe.cases with ⟨x, c₁, run, tidy, later, holds⟩ | fault
  · exact .of_run run tidy later (gives x c₁ tidy later holds)
  · exact .of_fault fault

/-- What an action ends with is what its run ends with. -/
theorem run (safe : cx.Safe A W c a Q) :
    cx.Safe A W c a fun x c' => Q x c' ∧ a c = .ok (x, c') := by
  rcases safe.cases with ⟨x, c₁, run, tidy, later, holds⟩ | fault
  · exact .of_run run tidy later ⟨holds, run⟩
  · exact .of_fault fault

theorem get {f : Checker → Check α} (rest : cx.Safe A W c (f c) Q) :
    cx.Safe A W c (MonadState.get >>= f) Q := rest

theorem ite {q : Prop} [Decidable q] (yes : q → cx.Safe A W c a Q) (no : ¬q → cx.Safe A W c b Q) :
    cx.Safe A W c (if q then a else b) Q := by
  split
  · next holds => exact yes holds
  · next fails => exact no fails

theorem silent {S : α → Prop} (tidy : cx.Tidy A W c) (silent : Silent a S) :
    cx.Safe A W c a fun x _ => S x := by
  obtain ⟨x, c', run, same, holds⟩ := silent c
  exact .of_run run (tidy.alike same) same.later holds

theorem after {S : β → Prop} {first : Check β} {f : β → Check α} (tidy : cx.Tidy A W c)
    (silent : Silent first S)
    (rest : ∀ x c₁, cx.Tidy A W c₁ → c.Later c₁ → S x → cx.Safe A V c₁ (f x) Q) :
    cx.Safe A V c (first >>= f) Q :=
  bind (Safe.silent tidy silent) rest

theorem reject (tidy : cx.Tidy A W c) (span : Span) (problem : Problem) {x : α}
    (holds : ∀ c', Q x c') : cx.Safe A W c (do Check.report span problem; return x) Q :=
  after tidy (.report span problem) fun _ _ tidy' _ _ => pure tidy' (holds _)

theorem allM {f : β → Check Bool} : ∀ {xs : List β} {c : Checker}, cx.Tidy A W c →
    (∀ x ∈ xs, ∀ c₁, cx.Tidy A W c₁ → c.Later c₁ → cx.Safe A W c₁ (f x) fun _ _ => True) →
    cx.Safe A W c (xs.allM f) fun _ _ => True
  | [], _, tidy, _ => pure tidy trivial
  | x :: xs, c, tidy, each => by
    simp only [List.allM]
    refine (each x List.mem_cons_self c tidy (.refl c)).bind fun b c₁ tidy₁ later _ => ?_
    cases b with
    | false => exact pure tidy₁ trivial
    | true =>
      exact allM tidy₁ fun y member c₂ tidy₂ later₂ =>
        each y (List.mem_cons_of_mem x member) c₂ tidy₂ (later.trans later₂)

theorem filterM {f : β → Check Bool} {xs : List β} (tidy : cx.Tidy A W c)
    (each : ∀ x ∈ xs, ∀ c₁, cx.Tidy A W c₁ → c.Later c₁ → cx.Safe A W c₁ (f x) fun _ _ => True) :
    cx.Safe A W c (xs.filterM f) fun ys _ => ∀ y ∈ ys, y ∈ xs := by
  have filterAux : ∀ (ys acc : List β) (c₁ : Checker), cx.Tidy A W c₁ → c.Later c₁ → ys ⊆ xs →
      acc ⊆ xs → cx.Safe A W c₁ (ys.filterAuxM f acc) fun zs _ => zs ⊆ xs := by
    intro ys
    induction ys with
    | nil => exact fun acc c₁ tidy₁ _ _ inside => pure tidy₁ inside
    | cons y ys ih =>
      intro acc c₁ tidy₁ later rest inside
      obtain ⟨member, rest⟩ := List.cons_subset.mp rest
      refine (each y member c₁ tidy₁ later).bind fun b c₂ tidy₂ later₂ _ => ?_
      refine ih (cond b (y :: acc) acc) c₂ tidy₂ (later.trans later₂) rest ?_
      cases b with
      | true => exact List.cons_subset.mpr ⟨member, inside⟩
      | false => exact inside
  refine (filterAux xs [] c tidy (.refl c) (List.Subset.refl _) (List.nil_subset _)).bind
    fun ys c₁ tidy₁ _ inside => pure tidy₁ ?_
  exact fun y member => inside (List.mem_reverse.mp member)

theorem mapM {f : β → Check α} (stable : ∀ y c₁ c₂, c₁.Later c₂ → P y c₁ → P y c₂) :
    ∀ {xs : List β} {c : Checker}, cx.Tidy A W c →
      (∀ x ∈ xs, ∀ c₁, cx.Tidy A W c₁ → c.Later c₁ → cx.Safe A W c₁ (f x) P) →
      cx.Safe A W c (xs.mapM f) fun ys c' => ∀ y ∈ ys, P y c'
  | [], c, tidy, _ => by
    rw [List.mapM_nil]
    exact pure tidy nofun
  | x :: xs, c, tidy, each => by
    rw [List.mapM_cons]
    refine (each x List.mem_cons_self c tidy (.refl c)).bind fun y c₁ tidy₁ later own => ?_
    refine (mapM stable tidy₁ fun z member c₂ tidy₂ later₂ =>
      each z (List.mem_cons_of_mem x member) c₂ tidy₂ (later.trans later₂)).bind
        fun ys c₂ tidy₂ later₂ rest => pure tidy₂ ?_
    exact List.forall_mem_cons.mpr ⟨stable y c₁ c₂ later₂ own, rest⟩

end Context.Safe

namespace Context

variable (cx : Context)

/-- A node at a place around which everything is begun. -/
structure Open (A : List (Expr Mark)) (c : Checker) (L : List (Node Mark)) (n : Node Mark) :
    Prop where
  place : cx.At L n
  around : ∀ k ∈ L, Entered A c k

/-- A type that names only what is begun. -/
def Lives (A : List (Expr Mark)) (t : Ty) (c : Checker) : Prop := cx.LiveTy (Entered A c) t

/-- A demand for a declaration around which everything is begun. -/
def Fair (A : List (Expr Mark)) (c : Checker) : Demand → Prop
  | .typeOf x | .aliasTarget x _ => cx.Live (Entered A c) x
  | .signature d => ∃ L, cx.Open A c L (.stmt (.fn d))

/-- An answer names only what is begun, and the goal that it is for is handled. -/
def Fit (A : List (Expr Mark)) (c : Checker) : (q : Demand) → q.Answer → Prop
  | .typeOf x, t => cx.Lives A t c ∧ (cx.Typable x → c.Handled (.typeOf x))
  | .aliasTarget _ _, t => cx.Lives A t c
  | .signature d, sig =>
    cx.LiveSignature (Entered A c) sig ∧ (d.result = none → c.Handled (.resultOf d.mark.id))

end Context

/-- An oracle that meets demands safely. -/
structure Careful (cx : Context) (o : Oracle) : Prop where
  meets : ∀ (q : Demand) {A : List (Expr Mark)} {W : List Entry} {c : Checker}, cx.Tidy A W c →
    cx.Fair A c q → cx.Safe A W c (o q) fun a c' => cx.Fit A c' q a
  spares : SparesTypes (cx.asking o)

section
variable {cx : Context} {A : List (Expr Mark)} {W : List Entry} {c c₁ : Checker}
  {L : List (Node Mark)} {n k : Node Mark}

namespace Context

theorem Lives.later {t : Ty} (live : cx.Lives A t c) (later : c.Later c₁) : cx.Lives A t c₁ :=
  live.mono fun _ entered => entered.later later

theorem Open.later (opened : cx.Open A c L n) (later : c.Later c₁) : cx.Open A c₁ L n :=
  ⟨opened.place, fun k inside => (opened.around k inside).later later⟩

theorem Open.part (opened : cx.Open A c L n) (begun : Entered A c n) (part : k ∈ n.parts) :
    cx.Open A c (n :: L) k :=
  ⟨opened.place.part part, List.forall_mem_cons.mpr ⟨begun, opened.around⟩⟩

theorem Open.live (opened : cx.Open A c L n) {x : Ident Mark} {s : SymbolId}
    (finds : cx.Finds L x) (target : cx.symbolAt? x.mark.id = some s) :
    cx.Live (Entered A c) s :=
  (finds s target).live fun k inside => opened.around k (scopesOf_subset L inside)

end Context

namespace Context.Safe

theorem enterLiteral (v : Literal) (tidy : cx.Tidy A W c) :
    cx.Safe A W c (Check.enterType (.literal v)) (cx.Lives A) := by
  refine (Safe.silent tidy (.literalType v)).weaken fun u _ _ _ same => ?_
  subst same
  exact .literal _

theorem enterPath {x : SymbolId} (tidy : cx.Tidy A W c) (live : cx.Live (Entered A c) x) :
    cx.Safe A W c (Check.enterType (.path x)) (cx.Lives A) :=
  .of_run rfl (tidy.enterPath live) ⟨fun _ => id, fun g => by cases g <;> exact id, rfl⟩
    (.path live)

theorem recordType (ground : cx.Grounded) {q : Pat Mark} {t : Ty}
    (tidy : cx.Tidy A (.pattern q.mark.id :: W) c) (place : cx.At L (.pat q))
    (live : cx.Lives A t c) (admits : q.Admits t) :
    cx.Safe A W c (Check.recordType q.mark.id t) fun _ _ => True := by
  have new : c.nodeTypes.contains q.mark.id = false := tidy.awaited _ List.mem_cons_self
  have insert : c.nodeTypes.insertNew q.mark.id t = c.nodeTypes.insert q.mark.id t := by
    rw [Table.insertNew, new]
    rfl
  have written := tidy.recordType ground place live admits
  rw [Checker.note, insert] at written
  refine get ?_
  rw [new]
  exact ⟨written, ⟨fun i before => Table.contains_insert.mpr (.inl before),
    fun g => by cases g <;> exact id, rfl⟩, trivial⟩

theorem recordWitness (ground : cx.Grounded) {i : NodeId} (tidy : cx.Tidy A (.witness i :: W) c)
    (w : Witness) : cx.Safe A W c (Check.recordWitness i w) fun _ _ => True := by
  have new : c.witnesses.contains i = false := tidy.awaited _ List.mem_cons_self
  refine get ?_
  rw [new]
  exact ⟨tidy.recordWitness ground, ⟨fun _ => id, fun g => by cases g <;> exact id, rfl⟩, trivial⟩

theorem recordSignature (ground : cx.Grounded) {m : Mark} {f : Ident Mark}
    {args : List (Expr Mark)} {sig : Signature} (tidy : cx.Tidy A (.signature m.id :: W) c)
    (place : cx.At L (.expr (.call m f args))) (live : cx.LiveSignature (Entered A c) sig) :
    cx.Safe A W c (Check.recordSignature m.id sig) fun _ _ => True := by
  have new : c.signatures.contains m.id = false := tidy.awaited _ List.mem_cons_self
  refine get ?_
  rw [new]
  refine ⟨tidy.recordSignature ground place live, ⟨fun _ => id, fun g => ?_, rfl⟩, trivial⟩
  cases g with
  | resultOf d => exact fun settled => Table.contains_insert.mpr (.inl settled)
  | _ => exact id

theorem onceType (ground : cx.Grounded) {node : TyNode Mark} {find : Check Ty}
    (tidy : cx.Tidy A W c) (place : cx.At L (.ty node)) (finds : cx.Safe A W c find (cx.Lives A)) :
    cx.Safe A W c (Check.once node.mark.id find) (cx.Lives A) := by
  refine get ?_
  cases found : c.nodeTypes.find? node.mark.id with
  | some t => exact pure tidy (tidy.live.nodeTypes _ t found)
  | none =>
    refine finds.bind fun t c₁ tidy₁ _ live => ?_
    refine ⟨tidy₁.note ground place nofun (fun e member same => ?_) live, Checker.later_note,
      live.later Checker.later_note⟩
    obtain ⟨K, place'⟩ := tidy₁.trail.place member
    cases (ground.place_unique place' place same).2

/-- An expression that is not under way is begun and ended, unless it has its type. -/
theorem onceExpr (ground : cx.Grounded) {e : Expr Mark} {find : Check Ty} (tidy : cx.Tidy A W c)
    (opened : cx.Open A c L (.expr e)) (new : e ∉ A)
    (owned : ∀ g, L.head?.bind cx.inferred? = some g → c.Handled g)
    (finds : cx.Tidy (e :: A) (e.entries ++ W) c → cx.Safe (e :: A) W c find (cx.Lives (e :: A))) :
    cx.Safe A W c (Check.once e.id find) (cx.Lives A) := by
  refine get ?_
  cases found : c.nodeTypes.find? e.id with
  | some t => exact pure tidy (tidy.live.nodeTypes _ t found)
  | none =>
    -- The search runs with `e` under way, so nothing on its way can type `e` or write its entries.
    have entered := tidy.enter ground opened.place opened.around new
      (Table.contains_eq_false.mpr found) owned
    refine (finds entered).bind fun t c₁ tidy₁ _ live => ?_
    exact ⟨tidy₁.leave ground tidy.awaiting live, Checker.later_note,
      BoundProgram.LiveTy.mono live fun n => .ended t⟩

end Context.Safe

end

namespace Careful

open Context (Safe)
open Context.Safe (get ite silent after reject enterLiteral)

variable {cx : Context} {o : Oracle} {A : List (Expr Mark)} {W : List Entry} {c : Checker}
  {L : List (Node Mark)} (careful : Careful cx o)
include careful

/-! ### Types -/

theorem typeOf {x : SymbolId} (tidy : cx.Tidy A W c) (live : cx.Live (Entered A c) x) :
    cx.Safe A W c ((cx.asking o).typeOf x) fun t c' =>
      cx.Lives A t c' ∧ (cx.Typable x → c'.Handled (.typeOf x)) :=
  careful.meets (.typeOf x) tidy live

theorem widen {t : Ty} (tidy : cx.Tidy A W c) (live : cx.Lives A t c) :
    cx.Safe A W c ((cx.asking o).widen t) (cx.Lives A) := by
  cases t with
  | intrinsic k => exact .pure tidy live
  | literal v => exact .pure tidy (.intrinsic _)
  | path x => exact (careful.typeOf tidy (live x rfl)).weaken fun _ _ _ _ holds => holds.1

theorem baseWithin (steps : Nat) {t : Ty} (tidy : cx.Tidy A W c) (live : cx.Lives A t c) :
    cx.Safe A W c ((cx.asking o).baseWithin steps t) fun _ _ => True := by
  induction steps generalizing t c with
  | zero =>
    refine ite (fun _ => ?_) fun _ => .pure tidy trivial
    exact (careful.widen tidy live).bind fun _ _ tidy₁ _ _ => .pure tidy₁ trivial
  | succ steps ih =>
    refine ite (fun _ => ?_) fun _ => .pure tidy trivial
    refine (careful.widen tidy live).bind fun u _ tidy₁ _ live₁ => ?_
    exact ite (fun _ => .pure tidy₁ trivial) fun _ => ih tidy₁ live₁

theorem baseKind {t : Ty} (tidy : cx.Tidy A W c) (live : cx.Lives A t c) :
    cx.Safe A W c ((cx.asking o).baseKind t) fun _ _ => True :=
  (careful.baseWithin _ tidy live).bind fun _ _ tidy₁ _ _ => .pure tidy₁ trivial

theorem isSubtypeWithin (steps : Nat) {s : Ty} (t : Ty) (tidy : cx.Tidy A W c)
    (live : cx.Lives A s c) :
    cx.Safe A W c ((cx.asking o).isSubtypeWithin steps s t) fun _ _ => True := by
  induction steps generalizing s c with
  | zero => exact .endless
  | succ steps ih =>
    have keep : ∀ (b : Bool) {c : Checker}, cx.Tidy A W c → cx.Safe A W c (do
        modify fun c => { c with subtypes := c.subtypes.insert (s, t) b }
        return b) fun _ _ => True := fun b c tidy =>
      after tidy (.update fun _ => ⟨rfl, rfl, rfl, rfl, rfl, rfl, fun _ => id⟩) fun _ _ tidy₁ _ _ =>
        .pure tidy₁ trivial
    refine ite (fun _ => .pure tidy trivial) fun _ => get ?_
    cases c.subtypes.find? (s, t) with
    | some b => exact .pure tidy trivial
    | none =>
      refine ite (fun _ => keep true tidy) fun _ => ?_
      have climb : cx.Safe A W c (do
          let up ← (cx.asking o).widen s
          if up = s then do
            let b ← (Pure.pure false : Check Bool)
            modify fun c => { c with subtypes := c.subtypes.insert (s, t) b }
            return b
          else do
            let b ← (cx.asking o).isSubtypeWithin steps up t
            modify fun c => { c with subtypes := c.subtypes.insert (s, t) b }
            return b) fun _ _ => True := by
        refine (careful.widen tidy live).bind fun up _ tidy₁ _ live₁ => ?_
        exact ite (fun _ => keep false tidy₁) fun _ =>
          (ih tidy₁ live₁).bind fun b _ tidy₂ _ _ => keep b tidy₂
      cases s with
      | intrinsic j =>
        cases t with
        | _ => exact keep _ tidy
      | _ =>
        cases t with
        | intrinsic k => exact climb
        | _ => exact keep _ tidy

theorem isSubtype {s : Ty} (t : Ty) (tidy : cx.Tidy A W c) (live : cx.Lives A s c) :
    cx.Safe A W c ((cx.asking o).isSubtype s t) fun _ _ => True :=
  careful.isSubtypeWithin _ t tidy live

theorem lubWithin (steps : Nat) {s t : Ty} (tidy : cx.Tidy A W c) (live : cx.Lives A s c)
    (live' : cx.Lives A t c) : cx.Safe A W c ((cx.asking o).lubWithin steps s t) (cx.Lives A) := by
  induction steps generalizing s t c with
  | zero => exact .endless
  | succ steps ih =>
    refine (careful.isSubtype t tidy live).bind fun _ c₁ tidy₁ later₁ _ => ?_
    refine ite (fun _ => .pure tidy₁ (live'.later later₁)) fun _ => ?_
    refine (careful.isSubtype s tidy₁ (live'.later later₁)).bind fun _ c₂ tidy₂ later₂ _ => ?_
    have later := later₁.trans later₂
    refine ite (fun _ => .pure tidy₂ (live.later later)) fun _ => ?_
    refine (careful.widen tidy₂ (live.later later)).bind fun _ c₃ tidy₃ later₃ up => ?_
    refine (careful.widen tidy₃ (live'.later (later.trans later₃))).bind
      fun _ c₄ tidy₄ later₄ up' => ?_
    exact ite (fun _ => .pure tidy₄ (.intrinsic _)) fun _ => ih tidy₄ (up.later later₄) up'

theorem lub {s t : Ty} (tidy : cx.Tidy A W c) (live : cx.Lives A s c) (live' : cx.Lives A t c) :
    cx.Safe A W c ((cx.asking o).lub s t) (cx.Lives A) :=
  careful.lubWithin _ tidy live live'

theorem checkAssignable {s : Ty} (t : Ty) (span : Span) (tidy : cx.Tidy A W c)
    (live : cx.Lives A s c) :
    cx.Safe A W c ((cx.asking o).checkAssignable s t span) fun _ _ => True := by
  refine (careful.isSubtype t tidy live).bind fun b _ tidy₁ _ _ => ?_
  cases b with
  | true => exact .pure tidy₁ trivial
  | false => exact silent tidy₁ (.report span _)

/-! ### Type nodes -/

variable (nested : cx.WellNested)
include nested

theorem typeOfReference {m : Mark} {x : Ident Mark} (tidy : cx.Tidy A W c)
    (opened : cx.Open A c L (.ty (.refer m x))) :
    cx.Safe A W c ((cx.asking o).typeOfReference m x) (cx.Lives A) := by
  simp only [Resolver.typeOfReference, cx.asking_toContext]
  cases target : cx.targets.find? x.mark.id with
  | none => exact .pure tidy (.intrinsic _)
  | some s =>
    refine ite (fun _ => .pure tidy (.intrinsic _)) fun real => ite (fun _ => ?_) fun _ => ?_
    · exact careful.meets (.aliasTarget s x.mark.span) tidy
        (opened.live (nested.resolved L _ opened.place) (Binding.symbolAt?_of_target target real))
    · exact reject tidy _ _ fun _ => .intrinsic _

omit careful in
theorem typeOfPath {m : Mark} {x : Ident Mark} (span : Span) (tidy : cx.Tidy A W c)
    (opened : cx.Open A c L (.ty (.singleton m (.name x)))) :
    cx.Safe A W c ((cx.asking o).typeOfPath x span) (cx.Lives A) := by
  simp only [Resolver.typeOfPath, cx.asking_toContext]
  cases target : cx.symbolAt? x.mark.id with
  | none => exact .pure tidy (.intrinsic _)
  | some s =>
    refine after tidy (.isPursuing (.typeOf s)) fun pursuing c₁ tidy₁ later _ => ?_
    refine ite (fun _ => reject tidy₁ _ _ fun _ => .intrinsic _) fun _ => ?_
    cases stable : cx.stablePath s with
    | error problem => exact reject tidy₁ _ _ fun _ => .intrinsic _
    | ok t =>
      obtain rfl : t = .path s := by
        rw [Context.stablePath] at stable
        split at stable <;> cases stable
        rfl
      have live := opened.live (nested.resolved L _ opened.place) target
      exact .enterPath tidy₁ (live.mono fun n entered => entered.later later)

omit careful in
theorem typeOfOperand {m : Mark} {e : Expr Mark} (tidy : cx.Tidy A W c)
    (opened : cx.Open A c L (.ty (.singleton m e))) :
    cx.Safe A W c ((cx.asking o).typeOfOperand m e) (cx.Lives A) := by
  cases e with
  | lit l => exact enterLiteral l.value tidy
  | name x => exact typeOfPath nested m.span tidy opened
  | _ => exact reject tidy _ _ fun _ => .intrinsic _

omit careful nested in
theorem typeOfLiteral (m : Mark) (v : Literal) (dot : Bool) (tidy : cx.Tidy A W c) :
    cx.Safe A W c ((cx.asking o).typeOfLiteral m v dot) (cx.Lives A) := by
  simp only [Resolver.typeOfLiteral, cx.asking_toContext]
  exact ite (fun _ => after tidy (.report m.span _) fun _ _ tidy₁ _ _ => enterLiteral v tidy₁)
    fun _ => enterLiteral v tidy

theorem typeOfNode : ∀ {node : TyNode Mark} {L : List (Node Mark)}, cx.Tidy A W c →
    cx.Open A c L (.ty node) → cx.Safe A W c ((cx.asking o).typeOfNode node) (cx.Lives A)
  | .refer _ _, _, tidy, opened =>
    .onceType nested.toGrounded tidy opened.place (careful.typeOfReference nested tidy opened)
  | .singleton _ _, _, tidy, opened =>
    .onceType nested.toGrounded tidy opened.place (typeOfOperand nested tidy opened)
  | .lit m l dot, _, tidy, opened =>
    .onceType nested.toGrounded tidy opened.place (typeOfLiteral m l.value dot tidy)
  | .paren _ _, _, tidy, opened =>
    .onceType nested.toGrounded tidy opened.place
      (typeOfNode tidy (opened.part nofun List.mem_cons_self))

/-! ### Constants -/

/-- An initializer may be evaluated before it is typed; only the scopes around it have to be
begun. -/
theorem constants (steps : Nat) :
    (∀ {x : SymbolId} {c : Checker}, cx.Tidy A W c → cx.Live (Entered A c) x →
      cx.Safe A W c ((cx.asking o).constantOf steps x) fun _ _ => True) ∧
    ∀ {e : Expr Mark} {L : List (Node Mark)} {c : Checker}, cx.Tidy A W c → cx.At L (.expr e) →
      (∀ k ∈ scopesOf L, Entered A c k) →
      cx.Safe A W c ((cx.asking o).constant steps e) fun _ _ => True := by
  induction steps with
  | zero => exact ⟨fun tidy _ => .pure tidy trivial, fun tidy _ _ => .pure tidy trivial⟩
  | succ steps ih =>
    obtain ⟨ofSymbol, ofExpr⟩ := ih
    refine ⟨fun {x c} tidy live => ?_, fun {e L c} tidy place around => ?_⟩
    · simp only [Resolver.constantOf, cx.asking_toContext]
      refine get (ite (fun _ => .pure tidy trivial) fun _ => ?_)
      refine ite (fun _ => .pure tidy trivial) fun _ => ?_
      refine (careful.typeOf tidy live).bind fun t c₁ tidy₁ later₁ answer => ?_
      cases t with
      | literal v => exact .pure tidy₁ trivial
      | path y => exact ofSymbol tidy₁ (answer.1 y rfl)
      | intrinsic k =>
        rcases head : (cx.symbol x).decls.head? with _ | _ | _ | _ | _
        case some.val d =>
          obtain ⟨L, place, inside⟩ := live _ (List.mem_of_mem_head? head)
          refine after tidy₁ (.update fun _ => ⟨rfl, rfl, rfl, rfl, rfl, rfl, fun _ => id⟩)
            fun _ c₂ tidy₂ later₂ _ => ?_
          refine (ofExpr tidy₂ (place.part (k := .expr d.init) (by simp [Decl.node, Node.parts]))
            fun n around => ?_).bind fun v _ tidy₃ _ _ => ?_
          · exact (inside n (scopesOf_subset L around)).later (later₁.trans later₂)
          · exact after tidy₃ (.update fun _ => ⟨rfl, rfl, rfl, rfl, rfl, rfl, fun _ => id⟩)
              fun _ _ tidy₄ _ _ => .pure tidy₄ trivial
        all_goals exact .pure tidy₁ trivial
    · cases e with
      | lit l => exact .pure tidy trivial
      | paren m e => exact ofExpr tidy (place.part List.mem_cons_self) around
      | name x =>
        simp only [Resolver.constant, cx.asking_toContext]
        cases target : cx.symbolAt? x.mark.id with
        | none => exact .pure tidy trivial
        | some s =>
          exact ofSymbol tidy (BoundProgram.Sees.live (nested.resolved L _ place s target) around)
      | unary m op e =>
        refine (ofExpr tidy (place.part List.mem_cons_self) around).bind fun v _ tidy₁ _ _ => ?_
        cases v with
        | none => exact .pure tidy₁ trivial
        | some v => exact silent tidy₁ (.apply _)
      | bin m op a b =>
        refine (ofExpr tidy (place.part List.mem_cons_self) around).bind fun v _ tidy₁ later₁ _ => ?_
        cases v with
        | none => exact .pure tidy₁ trivial
        | some v =>
          refine (ofExpr tidy₁ (place.part (List.mem_cons_of_mem _ List.mem_cons_self))
            fun n inside => (around n inside).later later₁).bind fun w _ tidy₂ _ _ => ?_
          cases w with
          | none => exact .pure tidy₂ trivial
          | some w => exact silent tidy₂ (.apply _)
      | _ => exact .pure tidy trivial

theorem inhabitantWithin (steps : Nat) {t : Ty} (tidy : cx.Tidy A W c) (live : cx.Lives A t c) :
    cx.Safe A W c ((cx.asking o).inhabitantWithin steps t) fun _ _ => True := by
  induction steps generalizing t c with
  | zero =>
    rcases t with k | v | x
    · cases k <;> exact .pure tidy trivial
    · exact .pure tidy trivial
    · exact .pure tidy trivial
  | succ steps ih =>
    rcases t with k | v | x
    · cases k <;> exact .pure tidy trivial
    · exact .pure tidy trivial
    · simp only [Resolver.inhabitantWithin, cx.asking_toContext]
      refine (careful.typeOf tidy (live x rfl)).bind fun declared c₁ tidy₁ later₁ answer => ?_
      refine ite (fun _ => ?_) fun _ => ?_
      · refine (ih tidy₁ answer.1).bind fun result _ tidy₂ _ _ => ?_
        cases result <;> exact .pure tidy₂ trivial
      · have live₁ := (live x rfl).mono fun n entered => entered.later later₁
        refine ((careful.constants nested steps).1 tidy₁ live₁).bind fun result _ tidy₂ _ _ => ?_
        cases result <;> exact .pure tidy₂ trivial

theorem inhabitant {t : Ty} (tidy : cx.Tidy A W c) (live : cx.Lives A t c) :
    cx.Safe A W c ((cx.asking o).inhabitant t) fun _ _ => True := by
  refine (careful.inhabitantWithin nested _ tidy live).bind fun found _ tidy₁ _ _ => ?_
  cases found with
  | ok v => exact after tidy₁ (.enterLiteral v) fun _ _ tidy₂ _ _ => .pure tidy₂ trivial
  | error problem => exact .pure tidy₁ trivial

/-! ### Overloads -/

omit nested

theorem allSubtypes : ∀ {ss ts : List Ty} {c : Checker}, cx.Tidy A W c →
    (∀ s ∈ ss, cx.Lives A s c) →
    cx.Safe A W c ((cx.asking o).allSubtypes ss ts) fun _ _ => True
  | [], _, _, tidy, _ => .pure tidy trivial
  | _ :: _, [], _, tidy, _ => .pure tidy trivial
  | s :: ss, t :: ts, _, tidy, live => by
    obtain ⟨own, rest⟩ := List.forall_mem_cons.mp live
    refine (careful.isSubtype t tidy own).bind fun _ c₁ tidy₁ later _ => ?_
    exact ite (fun _ => allSubtypes tidy₁ fun u member => (rest u member).later later)
      fun _ => .pure tidy₁ trivial

theorem reportArgument : ∀ {spans : List Span} {ss ts : List Ty} {c : Checker}, cx.Tidy A W c →
    (∀ s ∈ ss, cx.Lives A s c) →
    cx.Safe A W c ((cx.asking o).reportArgument spans ss ts) fun _ _ => True
  | [], _, _, _, tidy, _ => .pure tidy trivial
  | _ :: _, [], _, _, tidy, _ => .pure tidy trivial
  | _ :: _, _ :: _, [], _, tidy, _ => .pure tidy trivial
  | span :: spans, s :: ss, t :: ts, _, tidy, live => by
    obtain ⟨own, rest⟩ := List.forall_mem_cons.mp live
    refine (careful.isSubtype t tidy own).bind fun _ c₁ tidy₁ later _ => ?_
    exact ite (fun _ => reportArgument tidy₁ fun u member => (rest u member).later later)
      fun _ => silent tidy₁ (.report span _)

theorem reportNoMatch (call : Call) (sigs : List Signature) {args : List Ty}
    (tidy : cx.Tidy A W c) (live : ∀ t ∈ args, cx.Lives A t c) :
    cx.Safe A W c ((cx.asking o).reportNoMatch call sigs args) fun _ _ => True := by
  rcases sigs with _ | ⟨only, _ | ⟨next, sigs⟩⟩
  · exact silent tidy (.report call.span _)
  · exact ite (fun _ => silent tidy (.report call.span _))
      fun _ => careful.reportArgument tidy live
  · exact silent tidy (.report call.span _)

theorem isMostSpecific {sig : Signature} (others : List Signature) (tidy : cx.Tidy A W c)
    (live : cx.LiveSignature (Entered A c) sig) :
    cx.Safe A W c ((cx.asking o).isMostSpecific sig others) fun _ _ => True := by
  refine Safe.allM tidy fun other _ c₁ tidy₁ later => ?_
  exact ite (fun _ => .pure tidy₁ trivial) fun _ => careful.allSubtypes tidy₁ fun t member =>
    Context.Lives.later (live.params t member) later

theorem selectOverload (call : Call) {sigs : List Signature} {args : List Ty}
    (tidy : cx.Tidy A W c) (signed : ∀ sig ∈ sigs, cx.LiveSignature (Entered A c) sig)
    (live : ∀ t ∈ args, cx.Lives A t c) :
    cx.Safe A W c ((cx.asking o).selectOverload call sigs args) fun found c' =>
      ∀ sig, found = some sig → cx.LiveSignature (Entered A c') sig := by
  have chosen : ∀ {sig} {c' : Checker}, sig ∈ sigs → c.Later c' →
      ∀ sig', some sig = some sig' → cx.LiveSignature (Entered A c') sig' := by
    intro sig c' member later sig' same
    cases same
    exact (signed sig member).mono fun n entered => entered.later later
  refine ite (fun _ => .pure tidy nofun) fun _ => ?_
  refine (Safe.filterM tidy fun sig _ c₁ tidy₁ later => careful.allSubtypes tidy₁ fun t member =>
    (live t member).later later).bind fun applicable c₁ tidy₁ later₁ among => ?_
  have inside : ∀ sig ∈ applicable, sig ∈ sigs := fun sig member =>
    (List.mem_filter.mp (among sig member)).1
  rcases applicable with _ | ⟨only, _ | ⟨next, rest⟩⟩
  · refine (careful.reportNoMatch call sigs tidy₁ fun t member =>
      (live t member).later later₁).bind fun _ _ tidy₂ _ _ => .pure tidy₂ nofun
  · exact .pure tidy₁ (chosen (inside only List.mem_cons_self) later₁)
  · refine (Safe.filterM tidy₁ fun sig member c₂ tidy₂ later₂ => ?_).bind
      fun best c₂ tidy₂ later₂ among' => ?_
    · exact careful.isMostSpecific _ tidy₂
        ((signed sig (inside sig member)).mono fun n entered => entered.later (later₁.trans later₂))
    · rcases best with _ | ⟨best, _ | ⟨second, rest⟩⟩
      · exact reject tidy₂ _ _ fun _ => nofun
      · exact .pure tidy₂ (chosen (inside best (among' best List.mem_cons_self))
          (later₁.trans later₂))
      · exact reject tidy₂ _ _ fun _ => nofun

/-! ### Single expressions -/

omit careful in
theorem typeOfResult (folded : Option (Except OpError Literal)) (k : Kind)
    (tidy : cx.Tidy A W c) : cx.Safe A W c (Resolver.typeOfResult folded k) (cx.Lives A) := by
  rcases folded with _ | _ | v
  · exact .pure tidy (.intrinsic k)
  · exact .pure tidy (.intrinsic k)
  · exact after tidy (.enterText v) fun _ _ tidy₁ _ _ => enterLiteral v tidy₁

theorem typeOfUnary (span : Span) (op : UnaryOp) {t : Ty} (tidy : cx.Tidy A W c)
    (live : cx.Lives A t c) :
    cx.Safe A W c ((cx.asking o).typeOfUnary span op t) (cx.Lives A) := by
  refine ite (fun _ => .pure tidy (.intrinsic _)) fun _ => ?_
  refine (careful.baseKind tidy live).bind fun k _ tidy₁ _ _ => ?_
  cases op.resultKind k with
  | none => exact reject tidy₁ _ _ fun _ => .intrinsic _
  | some j => exact typeOfResult _ j tidy₁

theorem typeOfBinary (span : Span) (op : BinOp) {s t : Ty} (tidy : cx.Tidy A W c)
    (live : cx.Lives A s c) (live' : cx.Lives A t c) :
    cx.Safe A W c ((cx.asking o).typeOfBinary span op s t) (cx.Lives A) := by
  refine ite (fun _ => .pure tidy (.intrinsic _)) fun _ => ?_
  refine (careful.baseKind tidy live).bind fun j _ tidy₁ later _ => ?_
  refine (careful.baseKind tidy₁ (live'.later later)).bind fun k _ tidy₂ _ _ => ?_
  cases op.resultKind j k with
  | none => exact reject tidy₂ _ _ fun _ => .intrinsic _
  | some i =>
    cases s with
    | literal v =>
      cases t with
      | literal w => exact typeOfResult _ i tidy₂
      | _ => exact .pure tidy₂ (.intrinsic i)
    | _ => exact .pure tidy₂ (.intrinsic i)

variable (nested : cx.WellNested)
include nested

theorem typeOfName {x : Ident Mark} (expected : Option Ty) (tidy : cx.Tidy A W c)
    (opened : cx.Open A c L (.expr (.name x))) :
    cx.Safe A W c ((cx.asking o).typeOfName x expected) (cx.Lives A) := by
  simp only [Resolver.typeOfName, cx.asking_toContext]
  cases target : cx.symbolAt? x.mark.id with
  | none => exact .pure tidy (.intrinsic _)
  | some s =>
    have live := opened.live (nested.resolved L _ opened.place) target
    refine ite (fun _ => reject tidy _ _ fun _ => .intrinsic _) fun _ => ?_
    refine (careful.typeOf tidy live).bind fun declared c₁ tidy₁ later ⟨found, _⟩ => ?_
    refine ite (fun _ => .pure tidy₁ (.path ?_)) fun _ => .pure tidy₁ found
    exact live.mono fun n entered => entered.later later

omit nested in
theorem signaturesOf {x : SymbolId} (tidy : cx.Tidy A W c) (live : cx.Live (Entered A c) x) :
    cx.Safe A W c ((cx.asking o).signaturesOf x) fun sigs c' =>
      ∀ sig ∈ sigs, cx.LiveSignature (Entered A c') sig := by
  refine Safe.mapM (fun _ _ _ later signed => signed.mono fun n entered => entered.later later) tidy
    fun d member c₁ tidy₁ later => ?_
  obtain ⟨L, place, around⟩ := live (.fn d) (Decl.mem_fns.mp member)
  exact (careful.meets (.signature d) tidy₁
    ⟨L, place, fun n inside => (around n inside).later later⟩).weaken fun _ _ _ _ holds => holds.1

theorem typeOfInhabitant {m : Mark} {node : TyNode Mark}
    (tidy : cx.Tidy A (.witness m.id :: W) c) (opened : cx.Open A c L (.ty node)) :
    cx.Safe A W c ((cx.asking o).typeOfInhabitant m node) (cx.Lives A) := by
  refine (careful.typeOfNode nested tidy opened).bind fun t c₁ tidy₁ _ live => ?_
  refine ite (fun _ => .pure (tidy₁.drop (List.sublist_cons_self _ _)) live) fun _ => ?_
  refine (careful.inhabitant nested tidy₁ live).bind fun found c₂ tidy₂ later₂ _ => ?_
  cases found with
  | ok w =>
    refine (Safe.recordWitness nested.toGrounded tidy₂ w).bind fun _ _ tidy₃ later₃ _ => ?_
    exact .pure tidy₃ (live.later (later₂.trans later₃))
  | error problem =>
    refine after (tidy₂.drop (List.sublist_cons_self _ _)) (.report _ _) fun _ _ tidy₃ later₃ _ => ?_
    exact .pure tidy₃ (live.later (later₂.trans later₃))

theorem checkPat {scrutinee : Ty} {q : Pat Mark} (tidy : cx.Tidy A (.pattern q.mark.id :: W) c)
    (opened : cx.Open A c L (.pat q)) (live : cx.Lives A scrutinee c) :
    cx.Safe A W c ((cx.asking o).checkPat scrutinee q) fun _ _ => True := by
  have compare : ∀ {t : Ty} {c₁ : Checker}, cx.Tidy A (.pattern q.mark.id :: W) c₁ → c.Later c₁ →
      cx.Lives A t c₁ → q.Admits t → cx.Safe A W c₁
        (Resolver.checkPat.check (cx.asking o) scrutinee q.mark t) fun _ _ => True := by
    intro t c₁ tidy₁ later found admits
    refine (Safe.recordType nested.toGrounded tidy₁ opened.place found admits).bind
      fun _ c₂ tidy₂ later₂ _ => ?_
    refine ite (fun _ => .pure tidy₂ trivial) fun _ => ?_
    refine (careful.isSubtype scrutinee tidy₂ (found.later later₂)).bind
      fun _ c₃ tidy₃ later₃ _ => ?_
    refine ite (fun _ => .pure tidy₃ trivial) fun _ => ?_
    refine (careful.isSubtype t tidy₃ (live.later ((later.trans later₂).trans later₃))).bind
      fun _ _ tidy₄ _ _ => ?_
    exact ite (fun _ => .pure tidy₄ trivial) fun _ => silent tidy₄ (.report _ _)
  cases q with
  | wildcard m => exact .pure (tidy.drop (List.sublist_cons_self _ _)) trivial
  | lit m l =>
    refine after tidy (.literalType l.value) fun t c₁ tidy₁ later same => ?_
    subst same
    exact compare tidy₁ later (.literal _) rfl
  | typed m node =>
    exact (careful.typeOfNode nested tidy (opened.part nofun List.mem_cons_self)).bind
      fun t c₁ tidy₁ later found => compare tidy₁ later found trivial

end Careful

end Solo

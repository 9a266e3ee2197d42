import Solo.Proofs.Coherence

/-!
# Questions keep a checker coherent

Every single step keeps a checker coherent, and so does every question about types, constants,
overloads and single expressions, given an oracle that meets demands so.
-/

namespace Solo

theorem Check.once_congr {i : NodeId} {find find' : Check Ty} {c : Checker}
    (same : find c = find' c) : Check.once i find c = Check.once i find' c := by
  rw [once, once, get_bind, get_bind]
  cases c.nodeTypes.find? i with
  | some t => rfl
  | none =>
    dsimp only
    rw [bind_apply, bind_apply, same]

namespace Context.Upholds

variable {cx : Context} {c c₁ : Checker} {α β : Type} {a b : Check α} {P Q : α → Checker → Prop}
  {R : β → Checker → Prop}

theorem pure {x : α} (coherent : cx.Coherent c) (holds : Q x c) :
    cx.Upholds c (Pure.pure x) Q := by
  intro y c' run
  cases run
  exact ⟨coherent, .refl coherent.orderly, holds⟩

theorem throw (e : Fault) : cx.Upholds c (MonadExcept.throw e) Q := nofun

theorem congr (upholds : cx.Upholds c a Q) (same : b c = a c) : cx.Upholds c b Q :=
  fun x c' run => upholds x c' (same.symm.trans run)

theorem bind {f : α → Check β} (first : cx.Upholds c a Q)
    (rest : ∀ x c₁, cx.Coherent c₁ → cx.Onward c c₁ → Q x c₁ → cx.Upholds c₁ (f x) R) :
    cx.Upholds c (a >>= f) R := by
  intro y c' run
  obtain ⟨x, c₁, run₁, run₂⟩ := Check.bind_ok run
  obtain ⟨coherent, onward, holds⟩ := first x c₁ run₁
  obtain ⟨coherent', onward', holds'⟩ := rest x c₁ coherent onward holds y c' run₂
  exact ⟨coherent', onward.trans onward', holds'⟩

theorem weaken (upholds : cx.Upholds c a P)
    (gives : ∀ x c', cx.Coherent c' → cx.Onward c c' → P x c' → Q x c') : cx.Upholds c a Q := by
  intro x c' run
  obtain ⟨coherent, onward, holds⟩ := upholds x c' run
  exact ⟨coherent, onward, gives x c' coherent onward holds⟩

/-- What an action ends with is what its run ends with. -/
theorem run (upholds : cx.Upholds c a Q) :
    cx.Upholds c a fun x c' => Q x c' ∧ a c = .ok (x, c') := by
  intro x c' run
  obtain ⟨coherent, onward, holds⟩ := upholds x c' run
  exact ⟨coherent, onward, holds, run⟩

theorem get {f : Checker → Check α} (rest : cx.Upholds c (f c) Q) :
    cx.Upholds c (MonadState.get >>= f) Q := rest

theorem ite {q : Prop} [Decidable q] (yes : q → cx.Upholds c a Q) (no : ¬q → cx.Upholds c b Q) :
    cx.Upholds c (if q then a else b) Q := by
  split
  · next holds => exact yes holds
  · next fails => exact no fails

theorem modify {f : Checker → Checker} {Q : Unit → Checker → Prop} (coherent : cx.Coherent (f c))
    (onward : cx.Onward c (f c)) (holds : Q () (f c)) :
    cx.Upholds c (modify f) Q := by
  intro x c' run
  cases run
  exact ⟨coherent, onward, holds⟩

theorem writeNew {e : Fault} {present : Bool} {f : Checker → Checker} {Q : Unit → Checker → Prop}
    (write : present = false → cx.Upholds c (MonadState.modifyGet fun c => ((), f c)) Q) :
    cx.Upholds c (do
      if present then MonadExcept.throw e
      MonadState.modifyGet fun c => ((), f c)) Q := by
  cases present with
  | true => exact bind (throw e) (Q := fun _ _ => False) fun _ _ _ _ => False.elim
  | false => exact write rfl

theorem allM {f : β → Check Bool} : ∀ {xs : List β} {c : Checker}, cx.Coherent c →
    (∀ x c₁, cx.Coherent c₁ → cx.Upholds c₁ (f x) fun _ _ => True) →
    cx.Upholds c (xs.allM f) fun _ _ => True
  | [], _, coherent, _ => pure coherent trivial
  | x :: xs, c, coherent, each => by
    simp only [List.allM]
    refine (each x c coherent).bind fun b c₁ coherent₁ _ _ => ?_
    cases b with
    | false => exact pure coherent₁ trivial
    | true => exact allM coherent₁ each

theorem filterM {f : β → Check Bool} {xs : List β} (coherent : cx.Coherent c)
    (each : ∀ x c₁, cx.Coherent c₁ → cx.Upholds c₁ (f x) fun _ _ => True) :
    cx.Upholds c (xs.filterM f) fun ys _ => ∀ y ∈ ys, y ∈ xs := by
  have filterAux : ∀ (ys acc : List β) (c₁ : Checker), cx.Coherent c₁ → ys ⊆ xs → acc ⊆ xs →
      cx.Upholds c₁ (ys.filterAuxM f acc) fun zs _ => zs ⊆ xs := by
    intro ys
    induction ys with
    | nil => exact fun acc c₁ coherent₁ _ inside => pure coherent₁ inside
    | cons y ys ih =>
      intro acc c₁ coherent₁ rest inside
      obtain ⟨member, rest⟩ := List.cons_subset.mp rest
      refine (each y c₁ coherent₁).bind fun b c₂ coherent₂ _ _ => ?_
      refine ih (cond b (y :: acc) acc) c₂ coherent₂ rest ?_
      cases b with
      | true => exact List.cons_subset.mpr ⟨member, inside⟩
      | false => exact inside
  refine (filterAux xs [] c coherent (List.Subset.refl _) (List.nil_subset _)).bind
    fun ys c₁ coherent₁ _ inside => pure coherent₁ ?_
  exact fun y member => inside (List.mem_reverse.mp member)

theorem mapM {f : β → Check α} (stable : ∀ y c₁ c₂, cx.Onward c₁ c₂ → P y c₁ → P y c₂) :
    ∀ {xs : List β} {c : Checker}, cx.Coherent c →
      (∀ x ∈ xs, ∀ c₁, cx.Coherent c₁ → cx.Upholds c₁ (f x) P) →
      cx.Upholds c (xs.mapM f) fun ys c' => ∀ y ∈ ys, P y c'
  | [], c, coherent, _ => by
    rw [List.mapM_nil]
    exact pure coherent nofun
  | x :: xs, c, coherent, each => by
    rw [List.mapM_cons]
    refine (each x List.mem_cons_self c coherent).bind fun y c₁ coherent₁ onward own => ?_
    refine (mapM stable coherent₁ fun z member => each z (List.mem_cons_of_mem x member)).bind
      fun ys c₂ coherent₂ onward₂ rest => pure coherent₂ ?_
    exact List.forall_mem_cons.mpr ⟨stable y c₁ c₂ onward₂ own, rest⟩

/-! ### Single steps -/

variable (ground : cx.Grounded) (coherent : cx.Coherent c)
include ground coherent

theorem aside {f : Checker → Checker} {purities : Table NodeId Purity} {evaluating : List SymbolId}
    {diagnostics : Array Diagnostic} (same : f c = { c with purities, evaluating, diagnostics }) :
    cx.Upholds c (MonadState.modifyGet fun c => ((), f c)) fun _ _ => True := by
  refine modify ?_ ?_ trivial
  · rw [same]
    exact coherent.entered ground (.refl _) coherent.filed.aside
  · rw [same]
    exact .framed coherent.orderly ground ⟨rfl, rfl, rfl, fun _ _ => rfl⟩
      ⟨⟨.refl _, .refl _⟩, .refl _, fun _ => .inl⟩

theorem report (span : Span) (problem : Problem) :
    cx.Upholds c (Check.report span problem) fun _ _ => True :=
  aside ground coherent rfl

theorem reject (span : Span) (problem : Problem) {x : α} (holds : ∀ c', cx.Coherent c' → Q x c') :
    cx.Upholds c (do Check.report span problem; return x) Q :=
  (report ground coherent span problem).bind fun _ c' coherent' _ _ =>
    pure coherent' (holds c' coherent')

theorem evaluating (f : List SymbolId → List SymbolId) :
    cx.Upholds c (MonadState.modifyGet fun c : Checker =>
      ((), { c with evaluating := f c.evaluating })) fun _ _ => True :=
  aside ground coherent rfl

theorem spell {f : Checker → Checker} {names : Roster String} {Q : Unit → Checker → Prop}
    (same : f c = { c with names }) (grown : c.names.Extends names) (holds : Q () (f c)) :
    cx.Upholds c (MonadState.modifyGet fun c => ((), f c)) Q := by
  refine modify ?_ ?_ holds
  · rw [same]
    exact coherent.entered ground grown (coherent.filed.spell grown)
  · rw [same]
    exact .framed coherent.orderly ground ⟨rfl, rfl, rfl, fun _ _ => rfl⟩
      ⟨⟨grown, .refl _⟩, .refl _, fun _ => .inl⟩

theorem enterText (v : Literal) :
    cx.Upholds c (Check.enterText v) fun _ c' => v.Spelled c'.names := by
  cases v with
  | str s =>
    refine spell ground coherent rfl (Roster.extends_insert _ s) fun s' same => ?_
    cases same
    exact Roster.mem_insert_self _ s
  | _ => exact pure coherent nofun

theorem apply (result : Except OpError Literal) :
    cx.Upholds c (Check.apply result) fun found c' => ∀ v, found = some v → v.Spelled c'.names := by
  cases result with
  | error e => exact pure coherent nofun
  | ok v =>
    refine (enterText ground coherent v).bind fun _ _ coherent₁ _ spelled => pure coherent₁ ?_
    intro w same
    cases same
    exact spelled

/-- Literals or types are entered, but no singleton of a binding. -/
theorem intern {enter : InternCache → α × InternCache}
    (grown : c.interns.Extends (enter c.interns).2) (ok : (enter c.interns).2.Consistent)
    (texts : ∀ v ∈ (enter c.interns).2.literals, v ∈ c.interns.literals ∨ v.Spelled c.names)
    (paths : ∀ e ∈ (enter c.interns).2.types, ∀ x, e.ty = .path x → e ∈ c.interns.types)
    (holds : Q (enter c.interns).1 { c with interns := (enter c.interns).2 }) :
    cx.Upholds c (Check.intern enter) Q := by
  intro x c' run
  cases run
  refine ⟨coherent.entered ground (.refl _) (coherent.filed.intern grown ok texts),
    .framed coherent.orderly ground ⟨rfl, rfl, rfl, fun _ _ => rfl⟩
      ⟨⟨.refl _, grown⟩, .refl _, fun y inside => .inl ?_⟩, holds⟩
  obtain ⟨e, member, own⟩ := Ty.filed_iff.mp inside
  exact Ty.filed_iff.mpr ⟨e, paths e member y own, own⟩

theorem enterLiteral {v : Literal} (spelled : v.Spelled c.names) :
    cx.Upholds c (Check.enterLiteral v) fun i c' => c'.interns.literals[i]? = some v := by
  have consistent := coherent.filed.interns
  refine intern ground coherent (c.interns.internLiteral_extends v) (consistent.internLiteral v)
    (fun w inside => ?_) (fun e member _ _ => c.interns.internLiteral_types v ▸ member)
    (consistent.internLiteral_entry v)
  rcases InternCache.mem_literals_internLiteral inside with old | rfl
  · exact .inl old
  · exact .inr spelled

theorem literalType {v : Literal} (spelled : v.Spelled c.names) :
    cx.Upholds c (Check.intern (·.literalType v)) fun e c' =>
      e ∈ c'.interns.types ∧ e.ty = .literal v := by
  have consistent := coherent.filed.interns
  refine intern ground coherent (c.interns.literalType_extends v) (consistent.literalType v)
    (fun w inside => ?_) (fun e inside x path => ?_) (consistent.literalType_entry v)
  · rw [c.interns.literalType_literals] at inside
    rcases InternCache.mem_literals_internLiteral inside with old | rfl
    · exact .inl old
    · exact .inr spelled
  · rcases InternCache.mem_literalType inside with old | new
    · exact old
    · cases new.symm.trans path

theorem enterType {v : Literal} (spelled : v.Spelled c.names) :
    cx.Upholds c (Check.enterType (.literal v)) Ty.Filed :=
  (literalType ground coherent spelled).bind fun e _ coherent₁ _ entry =>
    pure coherent₁ (Ty.filed_iff.mpr ⟨e, entry⟩)

theorem note {n : Node Mark} {t : Ty} (node : n ∈ cx.program.nodes) (own : t.Filed c)
    (declared : ∀ m ss tail, n = .expr (.block m ss tail) → ∀ s ∈ ss, cx.SoughtBy c s) :
    cx.Upholds c (MonadState.modifyGet fun c : Checker => ((), c.note n.mark.id t))
      fun _ c' => t.Filed c' :=
  modify (coherent.note ground node own declared)
    (.framed coherent.orderly ground ⟨rfl, rfl, rfl, fun _ _ => rfl⟩
      ⟨⟨.refl _, .refl _⟩, .insertNew _ _ _, fun _ => .inl⟩) own

theorem once {n : Node Mark} {find : Check Ty} (node : n ∈ cx.program.nodes)
    (finds : cx.Upholds c find fun t c' => t.Filed c' ∧
      ∀ m ss tail, n = .expr (.block m ss tail) → ∀ s ∈ ss, cx.SoughtBy c' s) :
    cx.Upholds c (Check.once n.mark.id find) Ty.Filed := by
  refine get ?_
  cases found : c.nodeTypes.find? n.mark.id with
  | some t => exact pure coherent (coherent.filed.nodeTypes _ t found)
  | none =>
    refine finds.bind fun t c₁ coherent₁ _ ⟨own, declared⟩ => ?_
    exact (note ground coherent₁ node own declared).bind fun _ _ coherent₂ _ own₂ =>
      pure coherent₂ own₂

theorem onceFlat {n : Node Mark} {find : Check Ty} (node : n ∈ cx.program.nodes)
    (flat : ∀ m ss tail, n ≠ .expr (.block m ss tail)) (finds : cx.Upholds c find Ty.Filed) :
    cx.Upholds c (Check.once n.mark.id find) Ty.Filed :=
  once ground coherent node (finds.weaken fun _ _ _ _ own =>
    ⟨own, fun m ss tail same => absurd same (flat m ss tail)⟩)

theorem onceExpr {e : Expr Mark} {find : Check Ty} (inside : e.nodes ⊆ cx.program.nodes)
    (flat : ∀ m ss tail, e ≠ .block m ss tail) (finds : cx.Upholds c find Ty.Filed) :
    cx.Upholds c (Check.once e.mark.id find) Ty.Filed :=
  onceFlat ground coherent (inside e.mem_nodes)
    (fun m ss tail same => flat m ss tail (Node.expr.inj same)) finds

theorem recordType {q : Pat Mark} {t : Ty} (node : .pat q ∈ cx.program.nodes) (own : t.Filed c) :
    cx.Upholds c (Check.recordType q.mark.id t) fun _ _ => True := by
  refine get (writeNew fun new => ?_)
  have insert : c.nodeTypes.insertNew q.mark.id t = c.nodeTypes.insert q.mark.id t := by
    rw [Table.insertNew, new]
    rfl
  have noted := coherent.note ground (n := .pat q) node own (by rintro _ _ _ ⟨⟩)
  have onward : cx.Onward c (c.note q.mark.id t) :=
    .framed coherent.orderly ground ⟨rfl, rfl, rfl, fun _ _ => rfl⟩
      ⟨⟨.refl _, .refl _⟩, .insertNew _ _ _, fun _ => .inl⟩
  change cx.Coherent (c.note q.mark.id t) at noted
  rw [Checker.note, insert] at noted onward
  exact modify noted onward trivial

theorem recordWitness {i : NodeId} {w : Witness} (own : w.Filed c) :
    cx.Upholds c (Check.recordWitness i w) fun _ _ => True := by
  have frame : cx.Frame c { c with witnesses := c.witnesses.insert i w } :=
    ⟨rfl, rfl, rfl, fun _ _ => rfl⟩
  have filed : Checker.Filed { c with witnesses := c.witnesses.insert i w } := by
    refine coherent.filed.grow ⟨.refl _, .refl _⟩ coherent.filed.interns (fun _ => .inl)
      (fun _ _ => .inl) (fun _ _ => .inl) (fun _ _ => .inl) (fun _ _ => .inl) fun j w' found => ?_
    rw [Table.find?_insert] at found
    split at found
    · cases found
      exact .inr { own with }
    · exact .inl found
  exact get (writeNew fun _ => modify
    (coherent.framed ground frame (.refl _) filed (fun _ _ _ => .inl) fun _ _ _ _ => .inl)
    (.framed coherent.orderly ground frame ⟨⟨.refl _, .refl _⟩, .refl _, fun _ => .inl⟩)
    trivial)

theorem recordSignature {m : Mark} {f : Ident Mark} {args : List (Expr Mark)} {sig : Signature}
    (node : .expr (.call m f args) ∈ cx.program.nodes) (own : sig.Filed c) :
    cx.Upholds c (Check.recordSignature m.id sig) fun _ _ => True := by
  have frame : cx.Frame c { c with signatures := c.signatures.insert m.id sig } :=
    ⟨rfl, rfl, rfl, fun i other => Table.find?_insert_other _ _ (other m f args node).symm⟩
  have filed : Checker.Filed { c with signatures := c.signatures.insert m.id sig } := by
    refine coherent.filed.grow ⟨.refl _, .refl _⟩ coherent.filed.interns (fun _ => .inl)
      (fun _ _ => .inl) (fun _ _ => .inl) (fun _ _ => .inl) (fun j sig' found => ?_) fun _ _ => .inl
    rw [Table.find?_insert] at found
    split at found
    · cases found
      exact .inr { own with }
    · exact .inl found
  exact get (writeNew fun _ => modify
    (coherent.framed ground frame (.refl _) filed (fun _ _ _ => .inl) fun _ _ _ _ => .inl)
    (.framed coherent.orderly ground frame ⟨⟨.refl _, .refl _⟩, .refl _, fun _ => .inl⟩)
    trivial)

theorem keepSubtype {s t : Ty} {b : Bool} (compares : cx.Compares c s t b) :
    cx.Upholds c (Resolver.keepSubtype s t b) fun b c' => cx.Compares c' s t b := by
  have frame : cx.Frame c { c with subtypes := c.subtypes.insert (s, t) b } :=
    ⟨rfl, rfl, rfl, fun _ _ => rfl⟩
  have kept := compares.kept (frame.follows ground coherent.orderly)
  refine (modify (Q := fun _ c' => cx.Compares c' s t b) (coherent.framed ground frame (.refl _)
    coherent.filed.aside (fun s' t' b' found => ?_) fun _ _ _ _ => .inl)
    (.framed coherent.orderly ground frame ⟨⟨.refl _, .refl _⟩, .refl _, fun _ => .inl⟩)
    kept).bind fun _ _ coherent₁ _ own => pure coherent₁ own
  rw [Table.find?_insert] at found
  split at found
  · next same =>
    cases same
    cases found
    exact .inr kept
  · exact .inl found

end Context.Upholds

theorem Resolver.inhabitantWithin_kind (r : Resolver) (n : Nat) (k : Kind) :
    r.inhabitantWithin n (.intrinsic k) = Pure.pure
      (if k = .unit then .ok .unit else if k = .null then .ok .null
        else .error (.noSingleInhabitant (.intrinsic k))) := by
  cases n <;> cases k <;> rfl

theorem Context.stablePath_ok {cx : Context} {x : SymbolId} {t : Ty}
    (stable : cx.stablePath x = .ok t) : t = .path x := by
  rw [stablePath] at stable
  split at stable <;> cases stable
  rfl

/-! ### Oracles that keep a checker coherent -/

def Node.literal? : Node Mark → Option Literal
  | .expr (.lit l) | .ty (.lit _ l _) | .pat (.lit _ l) => some l.value
  | _ => none

namespace Context

variable (cx : Context)

/-- The text of every string in the program is a name of it. -/
def Spelled : Prop := ∀ n ∈ cx.program.nodes, ∀ v, n.literal? = some v → v.Spelled cx.names

/-- An answer is entered, and the parameters of a function with a signature are sought. -/
def Fits : (q : Demand) → q.Answer → Checker → Prop
  | .typeOf _, t, c | .aliasTarget _ _, t, c => Ty.Filed t c
  | .signature d, sig, c => Signature.Filed sig c ∧ cx.SoughtParams c d.params

end Context

/-- An oracle that keeps promises and keeps a checker coherent. -/
structure Keeper (cx : Context) (o : Oracle) : Prop where
  faithful : Faithful cx o
  meets : ∀ q, cx.Poses q → ∀ c, cx.Coherent c → cx.Upholds c (o q) (cx.Fits q)

namespace Keeper

open Context (Upholds)
open Context.Upholds (get ite)

variable {cx : Context} {o : Oracle} {c : Checker} (keeper : Keeper cx o) (ground : cx.Grounded)
include keeper

/-! ### Types -/

theorem typeOf (x : SymbolId) (coherent : cx.Coherent c) :
    cx.Upholds c ((cx.asking o).typeOf x) fun t c' => t.Filed c' ∧ cx.TypePromised c' x t := by
  intro t c' run
  obtain ⟨coherent', onward, filed⟩ := keeper.meets (.typeOf x) trivial c coherent t c' run
  obtain ⟨_, _, promised⟩ :=
    keeper.faithful.meets (.typeOf x) trivial c coherent.orderly t c' run
  exact ⟨coherent', onward, filed, promised⟩

theorem widen (t : Ty) (coherent : cx.Coherent c) :
    cx.Upholds c ((cx.asking o).widen t) fun u c' => u.Filed c' ∧ cx.Rises c' t u := by
  cases t with
  | intrinsic k => exact .pure coherent ⟨coherent.filed.kinds k, rfl⟩
  | literal v => exact .pure coherent ⟨coherent.filed.kinds _, rfl⟩
  | path x => exact keeper.typeOf x coherent

theorem baseWithin (steps : Nat) (t : Ty) (coherent : cx.Coherent c) :
    cx.Upholds c ((cx.asking o).baseWithin steps t) fun _ _ => True := by
  induction steps generalizing t c with
  | zero =>
    refine ite (fun _ => ?_) fun _ => .pure coherent trivial
    exact (keeper.widen t coherent).bind fun _ _ coherent₁ _ _ => .pure coherent₁ trivial
  | succ steps ih =>
    refine ite (fun _ => ?_) fun _ => .pure coherent trivial
    refine (keeper.widen t coherent).bind fun u _ coherent₁ _ _ => ?_
    exact ite (fun _ => .pure coherent₁ trivial) fun _ => ih u coherent₁

theorem baseKind (t : Ty) (coherent : cx.Coherent c) :
    cx.Upholds c ((cx.asking o).baseKind t) fun _ _ => True :=
  (keeper.baseWithin _ t coherent).bind fun _ _ coherent₁ _ _ => .pure coherent₁ trivial

include ground

/-- A coherent checker judges by its own promises. -/
theorem judges : cx.Judges (cx.asking o) cx.Coherent cx.Onward id where
  refl _ coherent := .refl coherent.orderly
  trans _ _ _ := .trans
  follows _ _ onward := onward.follows
  compared _ coherent := coherent.compared
  widen c coherent s u c₁ run := by
    obtain ⟨coherent', onward, _, rises⟩ := keeper.widen s coherent u c₁ run
    exact ⟨coherent', onward, rises⟩
  keep c coherent s t b compares := by
    obtain ⟨kept, onward, _⟩ := Upholds.keepSubtype ground coherent compares b _ rfl
    exact ⟨kept, onward⟩

theorem isSubtype (s t : Ty) (coherent : cx.Coherent c) :
    cx.Upholds c ((cx.asking o).isSubtype s t) fun b c' => cx.Compares c' s t b :=
  fun _ _ => (keeper.judges ground).isSubtypeWithin coherent

theorem lubWithin (steps : Nat) {s t : Ty} (coherent : cx.Coherent c) (own : s.Filed c)
    (own' : t.Filed c) : cx.Upholds c ((cx.asking o).lubWithin steps s t) Ty.Filed := by
  induction steps generalizing s t c with
  | zero => exact .throw _
  | succ steps ih =>
    refine (keeper.isSubtype ground s t coherent).bind fun _ c₁ coherent₁ onward₁ _ => ?_
    refine ite (fun _ => .pure coherent₁ (own'.mono onward₁.toExtends)) fun _ => ?_
    refine (keeper.isSubtype ground t s coherent₁).bind fun _ c₂ coherent₂ onward₂ _ => ?_
    refine ite (fun _ => .pure coherent₂ (own.mono (onward₁.trans onward₂).toExtends)) fun _ => ?_
    refine (keeper.widen s coherent₂).bind fun _ c₃ coherent₃ _ up => ?_
    refine (keeper.widen t coherent₃).bind fun _ c₄ coherent₄ onward₄ up' => ?_
    exact ite (fun _ => .pure coherent₄ (coherent₄.filed.kinds _)) fun _ =>
      ih coherent₄ (up.1.mono onward₄.toExtends) up'.1

theorem lub {s t : Ty} (coherent : cx.Coherent c) (own : s.Filed c) (own' : t.Filed c) :
    cx.Upholds c ((cx.asking o).lub s t) Ty.Filed :=
  keeper.lubWithin ground _ coherent own own'

theorem checkAssignable (s t : Ty) (span : Span) (coherent : cx.Coherent c) :
    cx.Upholds c ((cx.asking o).checkAssignable s t span) fun _ _ => True := by
  refine (keeper.isSubtype ground s t coherent).bind fun b _ coherent₁ _ _ => ?_
  cases b with
  | true => exact .pure coherent₁ trivial
  | false => exact .report ground coherent₁ span _

/-! ### Type nodes -/

theorem typeOfReference (m : Mark) (x : Ident Mark) (coherent : cx.Coherent c) :
    cx.Upholds c ((cx.asking o).typeOfReference m x) Ty.Filed := by
  simp only [Resolver.typeOfReference, cx.asking_toContext]
  cases cx.targets.find? x.mark.id with
  | none => exact .pure coherent (coherent.filed.kinds _)
  | some s =>
    refine ite (fun _ => .pure coherent (coherent.filed.kinds _)) fun _ => ?_
    refine ite (fun _ => ?_) fun _ => ?_
    · exact keeper.meets (.aliasTarget s x.mark.span) trivial c coherent
    · exact .reject ground coherent _ _ fun _ coherent' => coherent'.filed.kinds _

omit keeper in
/-- The singleton of a binding is entered together with the type of its node. -/
theorem oncePath {n : Node Mark} (s : SymbolId) (coherent : cx.Coherent c)
    (node : n ∈ cx.program.nodes) (flat : ∀ m ss tail, n ≠ .expr (.block m ss tail)) :
    cx.Upholds c (Check.once n.mark.id (Check.enterType (.path s))) Ty.Filed := by
  refine get ?_
  cases found : c.nodeTypes.find? n.mark.id with
  | some t => exact .pure coherent (coherent.filed.nodeTypes _ t found)
  | none =>
    have consistent := coherent.filed.interns
    have entered : cx.Coherent { c with interns := (c.interns.pathType s).2 } :=
      coherent.entered ground (.refl _) (coherent.filed.pathType s)
    have own : (Ty.path s).Filed { c with interns := (c.interns.pathType s).2 } :=
      Ty.filed_iff.mpr ⟨_, consistent.pathType_entry s⟩
    have noted := entered.note ground node own fun m ss tail same => absurd same (flat m ss tail)
    intro t c' run
    cases run
    refine ⟨noted, .framed coherent.orderly ground ⟨rfl, rfl, rfl, fun _ _ => rfl⟩
      ⟨⟨.refl _, c.interns.pathType_extends s⟩, .insertNew _ _ _, fun x inside => ?_⟩, own⟩
    obtain ⟨e, member, path⟩ := Ty.filed_iff.mp inside
    rcases InternCache.mem_pathType member with old | new
    · exact .inl (Ty.filed_iff.mpr ⟨e, old, path⟩)
    · cases new.symm.trans path
      exact .inr ⟨n.mark.id, Table.find?_insertNew_self found⟩

omit keeper in
theorem typeOfOperand {m : Mark} {e : Expr Mark} (spelled : cx.Spelled) (coherent : cx.Coherent c)
    (node : .ty (.singleton m e) ∈ cx.program.nodes) :
    cx.Upholds c (Check.once m.id ((cx.asking o).typeOfOperand m e)) Ty.Filed := by
  have flat : ∀ m' ss tail, Node.ty (.singleton m e) ≠ .expr (.block m' ss tail) := by
    rintro _ _ _ ⟨⟩
  have plain : ∀ {find : Check Ty}, cx.Upholds c find Ty.Filed →
      cx.Upholds c (Check.once m.id find) Ty.Filed := fun finds =>
    .onceFlat ground coherent (n := .ty (.singleton m e)) node flat finds
  have rejected : ∀ span problem,
      cx.Upholds c (do Check.report span problem; return Ty.error) Ty.Filed := fun span problem =>
    .reject ground coherent span problem fun _ coherent' => coherent'.filed.kinds _
  cases e with
  | lit l =>
    have inside : .expr (.lit l) ∈ cx.program.nodes :=
      Program.mem_below node (List.mem_append_left _ (Expr.mem_nodes _))
    exact plain (.enterType ground coherent ((spelled _ inside _ rfl).mono coherent.names))
  | name x =>
    simp only [Resolver.typeOfOperand, Resolver.typeOfPath, cx.asking_toContext]
    cases cx.symbolAt? x.mark.id with
    | none => exact plain (.pure coherent (coherent.filed.kinds _))
    | some s =>
      dsimp only
      have once : ∀ {f : Bool → Check Ty}, (∀ b, cx.Upholds c (Check.once m.id (f b)) Ty.Filed) →
          cx.Upholds c (Check.once m.id (Check.isPursuing (.typeOf s) >>= f)) Ty.Filed :=
        fun each => (each (c.pursuits.any (·.goal = .typeOf s))).congr (Check.once_congr rfl)
      refine once fun pursuing => ?_
      cases pursuing with
      | true => exact plain (rejected _ _)
      | false =>
        cases stable : cx.stablePath s with
        | error problem => exact plain (rejected _ _)
        | ok t =>
          cases Context.stablePath_ok stable
          exact oncePath ground (n := .ty (.singleton m (.name x))) s coherent node flat
  | _ => exact plain (rejected _ _)

omit keeper in
theorem typeOfLiteral {v : Literal} (m : Mark) (dot : Bool) (coherent : cx.Coherent c)
    (spelled : v.Spelled c.names) :
    cx.Upholds c ((cx.asking o).typeOfLiteral m v dot) Ty.Filed := by
  simp only [Resolver.typeOfLiteral, cx.asking_toContext]
  refine ite (fun _ => ?_) fun _ => .enterType ground coherent spelled
  exact (Upholds.report ground coherent m.span _).bind fun _ _ coherent₁ onward _ =>
    .enterType ground coherent₁ (spelled.mono onward.names)

theorem typeOfNode (spelled : cx.Spelled) : ∀ {node : TyNode Mark}, cx.Coherent c →
    .ty node ∈ cx.program.nodes → cx.Upholds c ((cx.asking o).typeOfNode node) Ty.Filed
  | .refer m x, coherent, inside =>
    .onceFlat ground coherent (n := .ty (.refer m x)) inside nofun
      (keeper.typeOfReference ground m x coherent)
  | .singleton _ _, coherent, inside => typeOfOperand ground spelled coherent inside
  | .lit m l dot, coherent, inside =>
    .onceFlat ground coherent (n := .ty (.lit m l dot)) inside nofun
      (typeOfLiteral ground m dot coherent ((spelled _ inside _ rfl).mono coherent.names))
  | .paren m t, coherent, inside =>
    .onceFlat ground coherent (n := .ty (.paren m t)) inside nofun
      (typeOfNode spelled coherent (Program.mem_below inside (List.mem_append_left _ t.mem_nodes)))

/-! ### Constants -/

omit keeper ground in
/-- The literal of an entered singleton is spelled out. -/
theorem spelled_of_filed {v : Literal} (coherent : cx.Coherent c) (own : (Ty.literal v).Filed c) :
    v.Spelled c.names :=
  coherent.filed.texts v (coherent.filed.literals own)

/-- The text of a constant is entered, if its expression stands in the program. -/
theorem constants (spelled : cx.Spelled) (steps : Nat) :
    (∀ (x : SymbolId) {c : Checker}, cx.Coherent c →
      cx.Upholds c ((cx.asking o).constantOf steps x) fun found c' =>
        ∀ v, found = some v → v.Spelled c'.names) ∧
    ∀ (e : Expr Mark) {c : Checker}, cx.Coherent c →
      cx.Upholds c ((cx.asking o).constant steps e) fun found c' =>
        .expr e ∈ cx.program.nodes → ∀ v, found = some v → v.Spelled c'.names := by
  have known : ∀ {v : Literal} {c : Checker}, v.Spelled c.names →
      ∀ w, some v = some w → w.Spelled c.names := by
    intro v c own w same
    cases same
    exact own
  have unknown : ∀ {c : Checker}, cx.Coherent c → cx.Upholds c (pure none) fun found c' =>
      ∀ v : Literal, found = some v → v.Spelled c'.names :=
    fun coherent => .pure coherent (by rintro _ ⟨⟩)
  have unread : ∀ {e : Expr Mark} {c : Checker}, cx.Coherent c →
      cx.Upholds c (pure none) fun found c' =>
        .expr e ∈ cx.program.nodes → ∀ v : Literal, found = some v → v.Spelled c'.names :=
    fun coherent => (unknown coherent).weaken fun _ _ _ _ found _ => found
  induction steps with
  | zero => exact ⟨fun _ _ coherent => unknown coherent, fun _ _ coherent => unread coherent⟩
  | succ steps ih =>
    obtain ⟨ofSymbol, ofExpr⟩ := ih
    refine ⟨fun x {c} coherent => ?_, fun e {c} coherent => ?_⟩
    · simp only [Resolver.constantOf, cx.asking_toContext]
      refine get (ite (fun _ => unknown coherent) fun _ => ?_)
      refine ite (fun _ => unknown coherent) fun _ => ?_
      refine (keeper.typeOf x coherent).bind fun t c₁ coherent₁ _ typed => ?_
      cases t with
      | literal v => exact .pure coherent₁ (known (spelled_of_filed coherent₁ typed.1))
      | path y => exact ofSymbol y coherent₁
      | intrinsic k =>
        rcases head : (cx.symbol x).decls.head? with _ | _ | _ | _ | _
        case some.val d =>
          have node := ground.decl x _ (List.mem_of_mem_head? head)
          have init : .expr d.init ∈ cx.program.nodes := by
            obtain ⟨m, kind, name, ty, e⟩ := d
            exact Program.mem_below node
              (List.mem_append_left _ (List.mem_append_right _ e.mem_nodes))
          refine (Upholds.evaluating ground coherent₁ (x :: ·)).bind fun _ c₂ coherent₂ _ _ => ?_
          refine (ofExpr d.init coherent₂).bind fun v c₃ coherent₃ _ found => ?_
          exact (Upholds.evaluating ground coherent₃ List.tail).bind fun _ _ coherent₄ onward₄ _ =>
            .pure coherent₄ fun w same => (found init w same).mono onward₄.names
        all_goals exact unknown coherent₁
    · cases e with
      | lit l =>
        exact .pure coherent fun inside => known ((spelled _ inside _ rfl).mono coherent.names)
      | paren m e =>
        exact (ofExpr e coherent).weaken fun _ _ _ _ found inside =>
          found (Program.mem_below inside (List.mem_append_left _ e.mem_nodes))
      | name x =>
        simp only [Resolver.constant, cx.asking_toContext]
        cases cx.symbolAt? x.mark.id with
        | none => exact unread coherent
        | some s => exact (ofSymbol s coherent).weaken fun _ _ _ _ found _ => found
      | unary m op e =>
        refine (ofExpr e coherent).bind fun v _ coherent₁ _ _ => ?_
        cases v with
        | none => exact unread coherent₁
        | some v => exact (Upholds.apply ground coherent₁ _).weaken fun _ _ _ _ found _ => found
      | bin m op a b =>
        refine (ofExpr a coherent).bind fun v _ coherent₁ _ _ => ?_
        cases v with
        | none => exact unread coherent₁
        | some v =>
          refine (ofExpr b coherent₁).bind fun w _ coherent₂ _ _ => ?_
          cases w with
          | none => exact unread coherent₂
          | some w => exact (Upholds.apply ground coherent₂ _).weaken fun _ _ _ _ found _ => found
      | _ => exact unread coherent

theorem inhabitantWithin (spelled : cx.Spelled) (steps : Nat) {t : Ty} (coherent : cx.Coherent c)
    (own : t.Filed c) : cx.Upholds c ((cx.asking o).inhabitantWithin steps t) fun found c' =>
      ∀ v, found = .ok v → v.Spelled c'.names := by
  have plain : ∀ {v : Literal} {c : Checker}, v.Spelled c.names →
      ∀ w, (.ok v : Except Problem Literal) = .ok w → w.Spelled c.names := by
    intro v c known w same
    cases same
    exact known
  have unknown : ∀ {problem : Problem} {c : Checker}, ∀ v : Literal,
      (.error problem : Except Problem Literal) = .ok v → v.Spelled c.names := by
    rintro _ _ _ ⟨⟩
  have atKind : ∀ {c : Checker} steps k, cx.Coherent c →
      cx.Upholds c ((cx.asking o).inhabitantWithin steps (.intrinsic k)) fun found c' =>
        ∀ v, found = .ok v → v.Spelled c'.names := by
    intro c steps k coherent
    rw [Resolver.inhabitantWithin_kind]
    refine .pure coherent fun v same => ?_
    split at same
    · cases same
      rintro _ ⟨⟩
    · split at same <;> cases same
      rintro _ ⟨⟩
  induction steps generalizing t c with
  | zero =>
    rcases t with k | v | x
    · exact atKind 0 k coherent
    · exact .pure coherent (plain (spelled_of_filed coherent own))
    · exact .pure coherent unknown
  | succ steps ih =>
    rcases t with k | v | x
    · exact atKind _ k coherent
    · exact .pure coherent (plain (spelled_of_filed coherent own))
    · simp only [Resolver.inhabitantWithin, cx.asking_toContext]
      refine (keeper.typeOf x coherent).bind fun declared c₁ coherent₁ _ typed => ?_
      refine ite (fun _ => ?_) fun _ => ?_
      · refine (ih coherent₁ typed.1).bind fun result _ coherent₂ _ found => ?_
        cases result with
        | ok v => exact .pure coherent₂ (plain (found v rfl))
        | error _ => exact .pure coherent₂ unknown
      · refine ((keeper.constants ground spelled steps).1 x coherent₁).bind
          fun result _ coherent₂ _ found => ?_
        cases result with
        | some v => exact .pure coherent₂ (plain (found v rfl))
        | none => exact .pure coherent₂ unknown

theorem inhabitant (spelled : cx.Spelled) {t : Ty} (coherent : cx.Coherent c) (own : t.Filed c) :
    cx.Upholds c ((cx.asking o).inhabitant t) fun found c' =>
      ∀ w, found = .ok w → w.Filed c' := by
  refine (keeper.inhabitantWithin ground spelled _ coherent own).bind
    fun found c₁ coherent₁ onward₁ known => ?_
  cases found with
  | error problem => exact .pure coherent₁ nofun
  | ok v =>
    refine (Upholds.enterLiteral ground coherent₁ (known v rfl)).bind
      fun i c₂ coherent₂ onward₂ entry => .pure coherent₂ fun w same => ?_
    cases same
    exact ⟨own.mono (onward₁.trans onward₂).toExtends, entry⟩

/-! ### Overloads -/

theorem allSubtypes : ∀ (ss ts : List Ty) {c : Checker}, cx.Coherent c →
    cx.Upholds c ((cx.asking o).allSubtypes ss ts) fun _ _ => True
  | [], _, _, coherent => .pure coherent trivial
  | _ :: _, [], _, coherent => .pure coherent trivial
  | s :: ss, t :: ts, _, coherent => by
    refine (keeper.isSubtype ground s t coherent).bind fun _ c₁ coherent₁ _ _ => ?_
    exact ite (fun _ => allSubtypes ss ts coherent₁) fun _ => .pure coherent₁ trivial

theorem reportArgument : ∀ (spans : List Span) (ss ts : List Ty) {c : Checker}, cx.Coherent c →
    cx.Upholds c ((cx.asking o).reportArgument spans ss ts) fun _ _ => True
  | [], _, _, _, coherent => .pure coherent trivial
  | _ :: _, [], _, _, coherent => .pure coherent trivial
  | _ :: _, _ :: _, [], _, coherent => .pure coherent trivial
  | span :: spans, s :: ss, t :: ts, _, coherent => by
    refine (keeper.isSubtype ground s t coherent).bind fun _ c₁ coherent₁ _ _ => ?_
    exact ite (fun _ => reportArgument spans ss ts coherent₁)
      fun _ => .report ground coherent₁ span _

theorem reportNoMatch (call : Call) (sigs : List Signature) (args : List Ty)
    (coherent : cx.Coherent c) :
    cx.Upholds c ((cx.asking o).reportNoMatch call sigs args) fun _ _ => True := by
  rcases sigs with _ | ⟨only, _ | ⟨next, sigs⟩⟩
  · exact .report ground coherent call.span _
  · exact ite (fun _ => .report ground coherent call.span _)
      fun _ => keeper.reportArgument ground _ _ _ coherent
  · exact .report ground coherent call.span _

theorem isMostSpecific (sig : Signature) (others : List Signature) (coherent : cx.Coherent c) :
    cx.Upholds c ((cx.asking o).isMostSpecific sig others) fun _ _ => True :=
  .allM coherent fun _ _ coherent₁ =>
    ite (fun _ => .pure coherent₁ trivial) fun _ => keeper.allSubtypes ground _ _ coherent₁

theorem selectOverload (call : Call) (sigs : List Signature) (args : List Ty)
    (coherent : cx.Coherent c) :
    cx.Upholds c ((cx.asking o).selectOverload call sigs args) fun found _ =>
      ∀ sig, found = some sig → sig ∈ sigs := by
  have chosen : ∀ {sig : Signature}, sig ∈ sigs → ∀ sig', some sig = some sig' → sig' ∈ sigs := by
    intro sig member sig' same
    cases same
    exact member
  refine ite (fun _ => .pure coherent nofun) fun _ => ?_
  refine (Upholds.filterM coherent fun _ _ coherent₁ =>
    keeper.allSubtypes ground _ _ coherent₁).bind fun applicable c₁ coherent₁ _ among => ?_
  have inside : ∀ sig ∈ applicable, sig ∈ sigs := fun sig member =>
    (List.mem_filter.mp (among sig member)).1
  rcases applicable with _ | ⟨only, _ | ⟨next, rest⟩⟩
  · exact (keeper.reportNoMatch ground call sigs args coherent₁).bind
      fun _ _ coherent₂ _ _ => .pure coherent₂ nofun
  · exact .pure coherent₁ (chosen (inside only List.mem_cons_self))
  · refine (Upholds.filterM coherent₁ fun sig _ coherent₂ =>
      keeper.isMostSpecific ground sig _ coherent₂).bind fun best c₂ coherent₂ _ among' => ?_
    rcases best with _ | ⟨best, _ | ⟨second, rest⟩⟩
    · exact .reject ground coherent₂ _ _ fun _ _ => nofun
    · exact .pure coherent₂ (chosen (inside best (among' best List.mem_cons_self)))
    · exact .reject ground coherent₂ _ _ fun _ _ => nofun

/-! ### Single expressions -/

theorem typeOfName (x : Ident Mark) {expected : Option Ty} (coherent : cx.Coherent c)
    (wanted : ∀ t, expected = some t → t.Filed c) :
    cx.Upholds c ((cx.asking o).typeOfName x expected) Ty.Filed := by
  simp only [Resolver.typeOfName, cx.asking_toContext]
  cases cx.symbolAt? x.mark.id with
  | none => exact .pure coherent (coherent.filed.kinds _)
  | some s =>
    refine ite (fun _ => .reject ground coherent _ _ fun _ coherent' => coherent'.filed.kinds _)
      fun _ => ?_
    refine (keeper.typeOf s coherent).bind fun declared c₁ coherent₁ onward₁ ⟨own, _⟩ => ?_
    exact ite (fun ⟨same, _⟩ => .pure coherent₁ ((wanted _ same).mono onward₁.toExtends))
      fun _ => .pure coherent₁ own

omit keeper in
theorem typeOfResult (folded : Option (Except OpError Literal)) (k : Kind)
    (coherent : cx.Coherent c) : cx.Upholds c (Resolver.typeOfResult folded k) Ty.Filed := by
  rcases folded with _ | _ | v
  · exact .pure coherent (coherent.filed.kinds k)
  · exact .pure coherent (coherent.filed.kinds k)
  · exact (Upholds.enterText ground coherent v).bind fun _ _ coherent₁ _ spelled =>
      .enterType ground coherent₁ spelled

theorem typeOfUnary (span : Span) (op : UnaryOp) (t : Ty) (coherent : cx.Coherent c) :
    cx.Upholds c ((cx.asking o).typeOfUnary span op t) Ty.Filed := by
  refine ite (fun _ => .pure coherent (coherent.filed.kinds _)) fun _ => ?_
  refine (keeper.baseKind t coherent).bind fun k _ coherent₁ _ _ => ?_
  cases op.resultKind k with
  | none => exact .reject ground coherent₁ _ _ fun _ coherent' => coherent'.filed.kinds _
  | some j => exact typeOfResult ground _ j coherent₁

theorem typeOfBinary (span : Span) (op : BinOp) (s t : Ty) (coherent : cx.Coherent c) :
    cx.Upholds c ((cx.asking o).typeOfBinary span op s t) Ty.Filed := by
  refine ite (fun _ => .pure coherent (coherent.filed.kinds _)) fun _ => ?_
  refine (keeper.baseKind s coherent).bind fun j _ coherent₁ _ _ => ?_
  refine (keeper.baseKind t coherent₁).bind fun k _ coherent₂ _ _ => ?_
  cases op.resultKind j k with
  | none => exact .reject ground coherent₂ _ _ fun _ coherent' => coherent'.filed.kinds _
  | some i =>
    cases s with
    | literal v =>
      cases t with
      | literal w => exact typeOfResult ground _ i coherent₂
      | _ => exact .pure coherent₂ (coherent₂.filed.kinds i)
    | _ => exact .pure coherent₂ (coherent₂.filed.kinds i)

theorem signaturesOf (x : SymbolId) (coherent : cx.Coherent c) :
    cx.Upholds c ((cx.asking o).signaturesOf x) fun sigs c' => ∀ sig ∈ sigs, sig.Filed c' := by
  refine .mapM (fun _ _ _ onward filed => filed.mono onward.toExtends) coherent
    fun d member c₁ coherent₁ => ?_
  have node := ground.decl x (.fn d) (Decl.mem_fns.mp member)
  exact (keeper.meets (.signature d) node c₁ coherent₁).weaken fun _ _ _ _ answer => answer.1

theorem typeOfInhabitant (spelled : cx.Spelled) (m : Mark) {node : TyNode Mark}
    (coherent : cx.Coherent c) (inside : .ty node ∈ cx.program.nodes) :
    cx.Upholds c ((cx.asking o).typeOfInhabitant m node) Ty.Filed := by
  refine (keeper.typeOfNode ground spelled coherent inside).bind fun t c₁ coherent₁ _ own => ?_
  refine ite (fun _ => .pure coherent₁ own) fun _ => ?_
  refine (keeper.inhabitant ground spelled coherent₁ own).bind
    fun found c₂ coherent₂ onward₂ witness => ?_
  have own₂ := own.mono onward₂.toExtends
  cases found with
  | ok w =>
    exact (Upholds.recordWitness ground coherent₂ (witness w rfl)).bind
      fun _ _ coherent₃ onward₃ _ => .pure coherent₃ (own₂.mono onward₃.toExtends)
  | error problem =>
    exact (Upholds.report ground coherent₂ _ _).bind
      fun _ _ coherent₃ onward₃ _ => .pure coherent₃ (own₂.mono onward₃.toExtends)

theorem checkPat (spelled : cx.Spelled) (scrutinee : Ty) {q : Pat Mark} (coherent : cx.Coherent c)
    (inside : .pat q ∈ cx.program.nodes) :
    cx.Upholds c ((cx.asking o).checkPat scrutinee q) fun _ _ => True := by
  have compare : ∀ {t : Ty} {c₁ : Checker}, cx.Coherent c₁ → t.Filed c₁ → cx.Upholds c₁
      (Resolver.checkPat.check (cx.asking o) scrutinee q.mark t) fun _ _ => True := by
    intro t c₁ coherent₁ own
    refine (Upholds.recordType ground coherent₁ inside own).bind fun _ c₂ coherent₂ _ _ => ?_
    refine ite (fun _ => .pure coherent₂ trivial) fun _ => ?_
    refine (keeper.isSubtype ground t scrutinee coherent₂).bind fun _ c₃ coherent₃ _ _ => ?_
    refine ite (fun _ => .pure coherent₃ trivial) fun _ => ?_
    refine (keeper.isSubtype ground scrutinee t coherent₃).bind fun _ c₄ coherent₄ _ _ => ?_
    exact ite (fun _ => .pure coherent₄ trivial) fun _ => .report ground coherent₄ _ _
  cases q with
  | wildcard m => exact .pure coherent trivial
  | lit m l =>
    exact (Upholds.enterType ground coherent ((spelled _ inside _ rfl).mono coherent.names)).bind
      fun t c₁ coherent₁ _ own => compare coherent₁ own
  | typed m node =>
    have below := Program.mem_below inside (List.mem_append_left _ node.mem_nodes)
    exact (keeper.typeOfNode ground spelled coherent below).bind
      fun t c₁ coherent₁ _ own => compare coherent₁ own

omit keeper ground in
theorem expectedArgs_filed {count : Nat} {sigs : List Signature}
    (filed : ∀ sig ∈ sigs, sig.Filed c) : ∀ t ∈ Resolver.expectedArgs count sigs, t.Filed c := by
  intro t member
  rw [Resolver.expectedArgs] at member
  split at member
  · next only one =>
    have inside : only ∈ sigs := List.mem_of_mem_filter (one ▸ List.mem_cons_self)
    exact (filed only inside).params t member
  · cases member

end Keeper

end Solo

import Solo.Proofs.Comparisons
import Solo.Proofs.InternCache
import Solo.Proofs.Underway

/-!
# Coherent checkers

What a checker enters and what its tables hold must agree. In a `Coherent` checker the entered
literals and types are consistent, every type that is found is entered, and so is the text of every
entered string. Every kept answer about subtypes is the one of the closed form. And whoever
declares bindings has them sought: once a block has its type, the types of its bindings are found or
looked for, and so are those of the parameters of a function that has its signature.

`Upholds` says of an action that it keeps all this, and keeps what is entered.
-/

namespace Solo

/-! ### What is entered -/

/-- A type is entered. -/
def Ty.Filed (t : Ty) (c : Checker) : Prop := t ∈ c.types

/-- The text of a literal is entered, if it is a string. -/
def Literal.Spelled (v : Literal) (names : Roster String) : Prop := ∀ s, v = .str s → s ∈ names

structure Signature.Filed (sig : Signature) (c : Checker) : Prop where
  params : ∀ t ∈ sig.params, t.Filed c
  result : sig.result.Filed c

structure Witness.Filed (w : Witness) (c : Checker) : Prop where
  ty : w.ty.Filed c
  literal : c.interns.literals[w.literal]? = some w.value

namespace Checker

/-- All that a checker has found is entered. -/
structure Filed (c : Checker) : Prop where
  interns : c.interns.Consistent
  texts : ∀ v ∈ c.interns.literals, v.Spelled c.names
  symbolTypes : ∀ x t, c.symbolTypes.find? x = some t → t.Filed c
  aliasTargets : ∀ x t, c.aliasTargets.find? x = some t → t.Filed c
  nodeTypes : ∀ i t, c.nodeTypes.find? i = some t → t.Filed c
  signatures : ∀ i sig, c.signatures.find? i = some sig → sig.Filed c
  witnesses : ∀ i w, c.witnesses.find? i = some w → w.Filed c

/-- More is entered. -/
structure Extends (c c' : Checker) : Prop where
  names : c.names.Extends c'.names
  interns : c.interns.Extends c'.interns

/-- What is entered stays, and a new singleton of a binding is the type of a node. -/
structure Grown (c c' : Checker) : Prop extends c.Extends c' where
  nodeTypes : c.nodeTypes.Within c'.nodeTypes
  paths : ∀ x, (Ty.path x).Filed c' →
    (Ty.path x).Filed c ∨ ∃ i, c'.nodeTypes.find? i = some (.path x)

variable {c c₁ c₂ : Checker}

theorem Extends.refl (c : Checker) : c.Extends c := ⟨.refl _, .refl _⟩

theorem Extends.trans (first : c.Extends c₁) (second : c₁.Extends c₂) : c.Extends c₂ :=
  ⟨first.names.trans second.names, first.interns.trans second.interns⟩

theorem Grown.refl (c : Checker) : c.Grown c := ⟨.refl c, .refl _, fun _ => .inl⟩

theorem Grown.trans (first : c.Grown c₁) (second : c₁.Grown c₂) : c.Grown c₂ where
  toExtends := first.toExtends.trans second.toExtends
  nodeTypes := first.nodeTypes.trans second.nodeTypes
  paths x filed := by
    rcases second.paths x filed with old | new
    · exact (first.paths x old).imp id fun ⟨i, found⟩ => ⟨i, second.nodeTypes i _ found⟩
    · exact .inr new

end Checker

section
variable {c c₁ : Checker} {t : Ty} {v : Literal}

theorem Ty.filed_iff : t.Filed c ↔ ∃ e ∈ c.interns.types, e.ty = t := Array.mem_map

theorem Ty.Filed.mono (filed : t.Filed c) (grown : c.Extends c₁) : t.Filed c₁ := by
  obtain ⟨e, member, own⟩ := filed_iff.mp filed
  exact filed_iff.mpr ⟨e, grown.interns.mem member, own⟩

theorem Checker.Filed.kinds (filed : c.Filed) (k : Kind) : (Ty.intrinsic k).Filed c :=
  Ty.filed_iff.mpr ⟨_, filed.interns.kind k, rfl⟩

theorem Checker.Filed.literals (filed : c.Filed) (inside : (Ty.literal v).Filed c) :
    v ∈ c.interns.literals := by
  obtain ⟨⟨id, k | ⟨i, w⟩ | x⟩, member, own⟩ := Ty.filed_iff.mp inside
  · cases own
  · cases own
    exact Array.mem_of_getElem? (filed.interns.literals _ member i v rfl)
  · cases own

theorem Ty.Filed.widenLiteral (all : c.Filed) (filed : t.Filed c) : t.widenLiteral.Filed c := by
  cases t with
  | literal v => exact all.kinds _
  | _ => exact filed

theorem Literal.Spelled.mono {names names' : Roster String} (spelled : v.Spelled names)
    (grown : names.Extends names') : v.Spelled names' :=
  fun s same => grown.mem (spelled s same)

theorem Signature.Filed.mono {sig : Signature} (filed : sig.Filed c) (grown : c.Extends c₁) :
    sig.Filed c₁ :=
  ⟨fun t member => (filed.params t member).mono grown, filed.result.mono grown⟩

theorem Witness.Filed.mono {w : Witness} (filed : w.Filed c) (grown : c.Extends c₁) : w.Filed c₁ :=
  ⟨filed.ty.mono grown, grown.interns.literal filed.literal⟩

namespace Checker.Filed

/-- More is entered, and some tables get an entry. -/
theorem grow (filed : c.Filed) (grown : c.Extends c₁) (interns : c₁.interns.Consistent)
    (texts : ∀ v ∈ c₁.interns.literals, v ∈ c.interns.literals ∨ v.Spelled c₁.names)
    (symbolTypes : ∀ x t, c₁.symbolTypes.find? x = some t →
      c.symbolTypes.find? x = some t ∨ t.Filed c₁)
    (aliasTargets : ∀ x t, c₁.aliasTargets.find? x = some t →
      c.aliasTargets.find? x = some t ∨ t.Filed c₁)
    (nodeTypes : ∀ i t, c₁.nodeTypes.find? i = some t → c.nodeTypes.find? i = some t ∨ t.Filed c₁)
    (signatures : ∀ i sig, c₁.signatures.find? i = some sig →
      c.signatures.find? i = some sig ∨ sig.Filed c₁)
    (witnesses : ∀ i w, c₁.witnesses.find? i = some w →
      c.witnesses.find? i = some w ∨ w.Filed c₁) : c₁.Filed where
  interns := interns
  texts v inside := (texts v inside).elim (fun old => (filed.texts v old).mono grown.names) id
  symbolTypes x t found :=
    (symbolTypes x t found).elim (fun old => (filed.symbolTypes x t old).mono grown) id
  aliasTargets x t found :=
    (aliasTargets x t found).elim (fun old => (filed.aliasTargets x t old).mono grown) id
  nodeTypes i t found :=
    (nodeTypes i t found).elim (fun old => (filed.nodeTypes i t old).mono grown) id
  signatures i sig found :=
    (signatures i sig found).elim (fun old => (filed.signatures i sig old).mono grown) id
  witnesses i w found :=
    (witnesses i w found).elim (fun old => (filed.witnesses i w old).mono grown) id

theorem aside (filed : c.Filed) {subtypes : Table (Ty × Ty) Bool} {purities : Table NodeId Purity}
    {pursuits : List Pursuit} {evaluating : List SymbolId} {diagnostics : Array Diagnostic} :
    Filed { c with subtypes, purities, pursuits, evaluating, diagnostics } :=
  filed.grow ⟨.refl _, .refl _⟩ filed.interns (fun _ => .inl) (fun _ _ => .inl)
    (fun _ _ => .inl) (fun _ _ => .inl) (fun _ _ => .inl) fun _ _ => .inl

theorem spell (filed : c.Filed) {names : Roster String} (grown : c.names.Extends names) :
    Filed { c with names } :=
  filed.grow ⟨grown, .refl _⟩ filed.interns (fun _ => .inl) (fun _ _ => .inl)
    (fun _ _ => .inl) (fun _ _ => .inl) (fun _ _ => .inl) fun _ _ => .inl

theorem intern (filed : c.Filed) {interns : InternCache} (grown : c.interns.Extends interns)
    (ok : interns.Consistent)
    (texts : ∀ v ∈ interns.literals, v ∈ c.interns.literals ∨ v.Spelled c.names) :
    Filed { c with interns } :=
  filed.grow ⟨.refl _, grown⟩ ok texts (fun _ _ => .inl) (fun _ _ => .inl) (fun _ _ => .inl)
    (fun _ _ => .inl) fun _ _ => .inl

theorem pathType (filed : c.Filed) (x : SymbolId) :
    Filed { c with interns := (c.interns.pathType x).2 } :=
  filed.intern (c.interns.pathType_extends x) (filed.interns.pathType x) fun _ inside =>
    .inl (c.interns.pathType_literals x ▸ inside)

theorem note (filed : c.Filed) (own : t.Filed c) (i : NodeId) : (c.note i t).Filed := by
  refine filed.grow ⟨.refl _, .refl _⟩ filed.interns (fun _ => .inl) (fun _ _ => .inl)
    (fun _ _ => .inl) (fun j u found => ?_) (fun _ _ => .inl) fun _ _ => .inl
  rcases Table.find?_insertNew_cases found with old | rfl
  · exact .inl old
  · exact .inr own

end Checker.Filed

end

/-! ### What is sought -/

namespace Context

variable (cx : Context)

/-- The type of a binding is found or looked for. -/
def Sought (c : Checker) (x : SymbolId) : Prop := cx.Typable x → c.Handled (.typeOf x)

def SoughtParams (c : Checker) (qs : List (Param Mark)) : Prop :=
  ∀ q ∈ qs, ∀ x, cx.targets.find? q.mark.id = some x → cx.Sought c x

/-- The bindings that a statement declares are sought. -/
def SoughtBy (c : Checker) : Stmt Mark → Prop
  | .val d => ∀ x, cx.symbolAt? d.mark.id = some x → cx.Sought c x
  | .fn d => cx.SoughtParams c d.params
  | _ => True

structure Coherent (c : Checker) : Prop where
  orderly : cx.Orderly c
  names : cx.names.Extends c.names
  filed : c.Filed
  compared : ∀ s t b, c.subtypes.find? (s, t) = some b → cx.Compares c s t b
  blocks : ∀ m ss tail, .expr (.block m ss tail) ∈ cx.program.nodes → c.noted m.id = true →
    ∀ s ∈ ss, cx.SoughtBy c s
  signed : ∀ d, .stmt (.fn d) ∈ cx.program.nodes → c.signatures.contains d.mark.id = true →
    cx.SoughtParams c d.params

/-- A later state with the same goals in progress. -/
structure Onward (c c' : Checker) : Prop extends c.Grown c' where
  follows : cx.Follows c c'
  marks : Checker.Marks c.pursuits c'.pursuits

/-- An action that keeps a checker coherent; its answer satisfies `Q`. -/
def Upholds (c : Checker) {α : Type} (a : Check α) (Q : α → Checker → Prop) : Prop :=
  ∀ x c', a c = .ok (x, c') → cx.Coherent c' ∧ cx.Onward c c' ∧ Q x c'

end Context

section
variable {cx : Context} {c c₁ c₂ : Checker} {x : SymbolId}

namespace Context

theorem Sought.mono (sought : cx.Sought c x)
    (handled : ∀ x, c.Handled (.typeOf x) → c₁.Handled (.typeOf x)) : cx.Sought c₁ x :=
  fun typable => handled x (sought typable)

theorem SoughtParams.mono {qs : List (Param Mark)} (sought : cx.SoughtParams c qs)
    (handled : ∀ x, c.Handled (.typeOf x) → c₁.Handled (.typeOf x)) : cx.SoughtParams c₁ qs :=
  fun q member x target => (sought q member x target).mono handled

theorem SoughtBy.mono {s : Stmt Mark} (sought : cx.SoughtBy c s)
    (handled : ∀ x, c.Handled (.typeOf x) → c₁.Handled (.typeOf x)) : cx.SoughtBy c₁ s := by
  cases s with
  | val d => exact fun x target => (sought x target).mono handled
  | fn d => exact SoughtParams.mono sought handled
  | _ => trivial

theorem TypePromised.sought {t : Ty} (promised : cx.TypePromised c x t) : cx.Sought c x := by
  intro typable
  rcases promised with found | ⟨_, untyped | loops⟩
  · exact .inl (by simp [Checker.isSettled, Table.contains, found])
  · exact absurd typable untyped
  · exact .inr (List.mem_map_of_mem (f := (·.goal)) loops)

namespace Onward

theorem refl (orderly : cx.Orderly c) : cx.Onward c c := ⟨.refl c, .refl orderly, .refl _⟩

theorem trans (first : cx.Onward c c₁) (second : cx.Onward c₁ c₂) : cx.Onward c c₂ :=
  ⟨first.toGrown.trans second.toGrown, first.follows.trans second.follows,
    first.marks.trans second.marks⟩

theorem handled (onward : cx.Onward c c₁) (orderly : cx.Orderly c)
    (handled : c.Handled (.typeOf x)) : c₁.Handled (.typeOf x) := by
  rcases handled with settled | member
  · obtain ⟨t, found⟩ := Option.isSome_iff_exists.mp settled
    have promised : cx.TypePromised c₁ x t := onward.follows.type (.inl found)
    exact promised.sought (orderly.typable x t found)
  · exact .inr (onward.marks.goals ▸ member)

theorem framed (orderly : cx.Orderly c) (ground : cx.Grounded) (frame : cx.Frame c c₁)
    (grown : c.Grown c₁) : cx.Onward c c₁ :=
  ⟨grown, frame.follows ground orderly, frame.pursuits ▸ .refl _⟩

end Onward

/-! ### Steps -/

namespace Coherent

/-- One step: tables get entries that fit, and whatever was sought is. -/
theorem step (coherent : cx.Coherent c) (follows : cx.Follows c c₁)
    (names : c.names.Extends c₁.names)
    (handled : ∀ x, c.Handled (.typeOf x) → c₁.Handled (.typeOf x)) (filed : c₁.Filed)
    (compared : ∀ s t b, c₁.subtypes.find? (s, t) = some b →
      c.subtypes.find? (s, t) = some b ∨ cx.Compares c₁ s t b)
    (blocks : ∀ m ss tail, .expr (.block m ss tail) ∈ cx.program.nodes → c₁.noted m.id = true →
      c.noted m.id = true ∨ ∀ s ∈ ss, cx.SoughtBy c₁ s)
    (signed : ∀ d, .stmt (.fn d) ∈ cx.program.nodes → c₁.signatures.contains d.mark.id = true →
      c.signatures.contains d.mark.id = true ∨ cx.SoughtParams c₁ d.params) : cx.Coherent c₁ where
  orderly := follows.orderly
  names := coherent.names.trans names
  filed := filed
  compared s t b found :=
    (compared s t b found).elim (fun old => (coherent.compared s t b old).kept follows) id
  blocks m ss tail node noted :=
    (blocks m ss tail node noted).elim
      (fun old s member => (coherent.blocks m ss tail node old s member).mono handled) id
  signed d node known :=
    (signed d node known).elim (fun old => (coherent.signed d node old).mono handled) id

/-- A step that gives no answer to a demand. -/
theorem framed (coherent : cx.Coherent c) (ground : cx.Grounded) (frame : cx.Frame c c₁)
    (names : c.names.Extends c₁.names) (filed : c₁.Filed)
    (compared : ∀ s t b, c₁.subtypes.find? (s, t) = some b →
      c.subtypes.find? (s, t) = some b ∨ cx.Compares c₁ s t b)
    (blocks : ∀ m ss tail, .expr (.block m ss tail) ∈ cx.program.nodes → c₁.noted m.id = true →
      c.noted m.id = true ∨ ∀ s ∈ ss, cx.SoughtBy c₁ s) : cx.Coherent c₁ := by
  refine coherent.step (frame.follows ground coherent.orderly) names (fun x handled => ?_) filed
    compared blocks fun d node known => .inl ?_
  · rwa [Checker.Handled, Checker.isSettled, frame.symbolTypes, frame.pursuits]
  · rwa [Table.contains, frame.signature ground node] at known

/-- Something is entered or put aside, but no table changes. -/
theorem entered (coherent : cx.Coherent c) (ground : cx.Grounded) {names : Roster String}
    {interns : InternCache} {purities : Table NodeId Purity} {evaluating : List SymbolId} {diagnostics : Array Diagnostic}
    (grown : c.names.Extends names)
    (filed : Checker.Filed { c with names, interns, purities, evaluating, diagnostics }) :
    cx.Coherent { c with names, interns, purities, evaluating, diagnostics } :=
  coherent.framed ground ⟨rfl, rfl, rfl, fun _ _ => rfl⟩ grown filed (fun _ _ _ => .inl)
    fun _ _ _ _ => .inl

theorem note (coherent : cx.Coherent c) (ground : cx.Grounded) {n : Node Mark} {t : Ty}
    (node : n ∈ cx.program.nodes) (own : t.Filed c)
    (declared : ∀ m ss tail, n = .expr (.block m ss tail) → ∀ s ∈ ss, cx.SoughtBy c s) :
    cx.Coherent (c.note n.mark.id t) := by
  refine coherent.framed ground ⟨rfl, rfl, rfl, fun _ _ => rfl⟩ (.refl _)
    (coherent.filed.note own _) (fun _ _ _ => .inl) fun m ss tail node' noted => ?_
  by_cases same : m.id = n.mark.id
  · have block := ground.node_unique node' node same
    exact .inr fun s member => (declared m ss tail block.symm s member).mono fun _ => id
  · exact .inl (Checker.noted_note_other same ▸ noted)

theorem marked (coherent : cx.Coherent c) {ps : List Pursuit}
    (marks : Checker.Marks c.pursuits ps) :
    cx.Coherent { c with pursuits := ps } ∧ cx.Onward c { c with pursuits := ps } := by
  have follows := coherent.orderly.follows_marked marks
  have onward : cx.Onward c { c with pursuits := ps } :=
    ⟨⟨⟨.refl _, .refl _⟩, .refl _, fun _ => .inl⟩, follows, marks⟩
  exact ⟨coherent.step follows (.refl _) (fun x => onward.handled coherent.orderly)
    coherent.filed.aside (fun _ _ _ => .inl) (fun _ _ _ _ => .inl) fun _ _ => .inl, onward⟩

theorem begun (coherent : cx.Coherent c) {g : Goal}
    (follows : cx.Follows c { c with pursuits := ⟨g, false⟩ :: c.pursuits }) :
    cx.Coherent { c with pursuits := ⟨g, false⟩ :: c.pursuits } :=
  coherent.step follows (.refl _) (fun _ handled => handled.imp id (List.mem_cons_of_mem _))
    coherent.filed.aside (fun _ _ _ => .inl) (fun _ _ _ _ => .inl) fun _ _ => .inl

end Coherent

/-- The innermost goal is settled and given up, and no node gets a type. -/
structure Concluded (cx : Context) (outer : List Pursuit) (c c' : Checker) : Prop where
  coherent : cx.Coherent c'
  follows : cx.Follows c c'
  pursuits : c'.pursuits = outer
  grown : c.Grown c'

namespace Coherent

variable {p : Pursuit} {outer : List Pursuit} {t : Ty}

/-- The innermost goal is settled and given up. -/
theorem conclude (coherent : cx.Coherent c) (pursuits : c.pursuits = p :: outer)
    (follows : cx.Follows c c₁) (left : c₁.pursuits = outer)
    (settled : ∀ g, c.isSettled g = true → c₁.isSettled g = true)
    (own : c₁.isSettled p.goal = true) (grown : c.Grown c₁) (filed : c₁.Filed)
    (subtypes : c₁.subtypes = c.subtypes) (nodeTypes : c₁.nodeTypes = c.nodeTypes)
    (signed : ∀ d, .stmt (.fn d) ∈ cx.program.nodes → c₁.signatures.contains d.mark.id = true →
      c.signatures.contains d.mark.id = true ∨ cx.SoughtParams c₁ d.params) :
    cx.Concluded outer c c₁ := by
  refine ⟨coherent.step follows grown.names
    (fun _ handled => handled.concluded pursuits left settled own) filed
    (fun _ _ _ found => .inl (subtypes ▸ found)) (fun _ _ _ _ noted => .inl ?_) signed, follows,
    left, grown⟩
  rwa [Checker.noted, nodeTypes] at noted

end Coherent

end Context

end

end Solo

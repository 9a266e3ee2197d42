import Mathlib.Data.List.Flatten
import Mathlib.Data.List.Perm.Basic
import Solo.Proofs.Resolution

/-!
# Sharing out a scope

What declaring the declarations of one scope makes of them. The overloads of a function stand
together in the symbol of the first one, every other declaration stands alone, and the ones that are
reported are those that come after another one of their name.
-/

namespace Solo

/-! ### Declarations and their scopes -/

namespace Node

def decl? : Node Mark → Option Decl
  | .stmt s => s.decl?
  | .param q => some (.param q)
  | _ => none

/-- The declarations of the scope that a node opens. They stand right below it. -/
def locals (n : Node Mark) : List Decl := n.children.filterMap decl?

def assignee? : Node Mark → Option (Ident Mark)
  | .expr (.assign _ x _) => some x
  | _ => none

theorem decl?_node (d : Decl) : d.node.decl? = some d := by
  cases d <;> rfl

theorem node_of_decl? {n : Node Mark} {d : Decl} (declares : n.decl? = some d) : d.node = n := by
  cases n with
  | stmt s => cases s <;> cases declares <;> rfl
  | param q =>
    cases declares
    rfl
  | _ => cases declares

/-- Every node but the topmost is the child of one node. -/
theorem children_perm (n : Node Mark) : (n.below.flatMap children ++ [n]).Perm n.below := by
  induction size : n.below.length using Nat.strongRecOn generalizing n with
  | ind size ih =>
    have each : ∀ c ∈ n.children, (c.below.flatMap children ++ [c]).Perm c.below := by
      intro c child
      refine ih c.below.length ?_ c rfl
      have part := (List.sublist_flatten_of_mem (List.mem_map_of_mem (f := below) child)).length_le
      rw [← size, n.below_eq, List.length_append, List.length_singleton, List.flatMap_def]
      exact Nat.lt_succ_of_le part
    rw [n.below_eq, List.flatMap_append, List.flatMap_singleton, List.flatMap_assoc]
    refine List.Perm.append_right [n] ?_
    have split : n.children.flatMap (fun c => [c]) = n.children := List.flatMap_singleton' _
    have shared := List.flatMap_append_perm n.children (fun c => c.below.flatMap children)
      fun c => [c]
    rw [split] at shared
    exact shared.trans (List.Perm.flatMap_left _ each)

theorem locals_of_plain {n : Node Mark} (plain : n.opens = false) : n.locals = [] := by
  have exprs : ∀ es : List (Expr Mark), (es.map Node.expr).filterMap decl? = [] := by
    intro es
    rw [List.filterMap_map]
    exact List.filterMap_eq_nil_iff.mpr fun _ _ => rfl
  cases n with
  | expr e =>
    cases e with
    | call m f args => exact exprs args
    | cases m e arms =>
      have none : (arms.map Node.arm).filterMap decl? = [] := by
        rw [List.filterMap_map]
        exact List.filterMap_eq_nil_iff.mpr fun _ _ => rfl
      exact none
    | block => cases plain
    | _ => rfl
  | stmt s =>
    cases s with
    | val d =>
      obtain ⟨m, k, x, t, e⟩ := d
      cases t <;> rfl
    | fn => cases plain
    | _ => rfl
  | pat q => cases q <;> rfl
  | ty t => cases t <;> rfl
  | program => cases plain
  | _ => rfl

theorem locals_block (m : Mark) (ss : List (Stmt Mark)) (tail : Option (Expr Mark)) :
    (Node.expr (.block m ss tail)).locals = ss.filterMap Stmt.decl? := by
  rw [locals, children, List.filterMap_append, List.filterMap_map]
  cases tail <;> exact List.append_nil _

theorem locals_fn (m : Mark) (x : Ident Mark) (ps : List (Param Mark)) (t : Option (TyNode Mark))
    (e : Expr Mark) : (Node.stmt (.fn ⟨m, x, ps, t, e⟩)).locals = ps.map .param := by
  have params : (ps.map Node.param).filterMap decl? = ps.map .param := by
    rw [List.filterMap_map]
    exact List.filterMap_eq_map (f := Decl.param) ▸ rfl
  rw [locals, children, List.filterMap_append, List.filterMap_append, List.filterMap_cons, params]
  cases t <;> simp [decl?]

theorem locals_program (p : Program Mark) :
    (Node.program p).locals = p.stmts.filterMap Stmt.decl? := by
  rw [locals, children, List.filterMap_map]
  rfl

end Node

def Program.declarations (p : Program Mark) : List Decl := p.nodes.filterMap Node.decl?

theorem Program.locals_perm (p : Program Mark) :
    (p.nodes.flatMap Node.locals).Perm p.declarations := by
  have perm := (Node.children_perm (.program p)).filterMap Node.decl?
  have own : [Node.program p].filterMap Node.decl? = [] := rfl
  rwa [List.filterMap_append, List.filterMap_flatMap, own, List.append_nil] at perm

/-! ### Sharing out a scope -/

namespace Decl

variable {ds : List Decl} {d k : Decl} {space : Namespace} {name : String}

/-- The functions of a name in a scope. -/
def overloads (ds : List Decl) (name : String) : List Decl :=
  ds.filter fun d => d.fn?.isSome && d.name.name = name

/-- The symbol of the declaration that comes first of its name. -/
def gathered (ds : List Decl) (k : Decl) : Symbol :=
  ⟨k.name.name, k.role, if k.fn?.isSome then overloads ds k.name.name else [k]⟩

/-- The symbol of a declaration that stands alone. -/
def alone (d : Decl) : Symbol := ⟨d.name.name, d.role, [d]⟩

/-- The report of a declaration if another one of its name came before it, unless the first of these
and it are functions. -/
def clash? (earlier : List Decl) (d : Decl) : Option Diagnostic :=
  match first? earlier d.space d.name.name with
  | some first =>
    if first.fn?.isSome && d.fn?.isSome then none
    else some ⟨d.name.mark.span, .duplicateName d.name.name first.name.mark.span⟩
  | none => none

/-- The reports of declarations that come after those of `earlier`. -/
def clashes (earlier : List Decl) : List Decl → List Diagnostic
  | [] => []
  | d :: ds => (clash? earlier d).toList ++ clashes (earlier ++ [d]) ds

theorem clashes_snoc (earlier : List Decl) :
    clashes earlier (ds ++ [d]) = clashes earlier ds ++ (clash? (earlier ++ ds) d).toList := by
  induction ds generalizing earlier with
  | nil => simp [clashes]
  | cons c ds ih => simp [clashes, ih]

theorem space_of_fn (isFn : d.fn?.isSome = true) : d.space = .value := by
  cases d <;> first | rfl | cases isFn

theorem first?_some (found : first? ds space name = some k) :
    k ∈ ds ∧ k.space = space ∧ k.name.name = name := by
  have fits := List.find?_some found
  rw [decide_eq_true_eq] at fits
  exact ⟨List.mem_of_find?_eq_some found, fits⟩

theorem overloads_snoc : overloads (ds ++ [d]) name =
    overloads ds name ++ if d.fn?.isSome && d.name.name = name then [d] else [] := by
  rw [overloads, overloads, List.filter_append, List.filter_singleton, Bool.cond_eq_ite]

theorem gathered_snoc_other
    (other : ¬(k.fn?.isSome = true ∧ d.fn?.isSome = true ∧ d.name.name = k.name.name)) :
    k.gathered (ds ++ [d]) = k.gathered ds := by
  rw [gathered, gathered]
  split
  · next isFn =>
    have skipped : ¬((d.fn?.isSome && decide (d.name.name = k.name.name)) = true) := by
      simpa [isFn] using other
    rw [overloads_snoc, if_neg skipped, List.append_nil]
  · rfl

theorem gathered_snoc_join (first : k.fn?.isSome = true) (joins : d.fn?.isSome = true)
    (same : d.name.name = k.name.name) :
    k.gathered (ds ++ [d]) = { k.gathered ds with decls := (k.gathered ds).decls ++ [d] } := by
  simp [gathered, first, overloads_snoc, joins, same]

theorem gathered_new (new : first? ds d.space d.name.name = none) :
    d.gathered (ds ++ [d]) = d.alone := by
  rw [gathered, alone]
  split
  · next isFn =>
    have none : overloads ds d.name.name = [] := by
      refine List.filter_eq_nil_iff.mpr fun k member fits => ?_
      rw [Bool.and_eq_true, decide_eq_true_eq] at fits
      have free := List.find?_eq_none.mp new k member
      simp [space_of_fn fits.1, space_of_fn isFn, fits.2] at free
    simp [overloads_snoc, none, isFn]
  · rfl

/-- The declaration that comes first of its name is the first one of its symbol. -/
theorem head?_gathered (known : first? ds space name = some k) :
    (k.gathered ds).decls.head? = some k := by
  obtain ⟨-, rfl, rfl⟩ := first?_some known
  rw [gathered]
  dsimp only
  split
  · next isFn =>
    obtain ⟨-, before, after, split, none⟩ := List.find?_eq_some_iff_append.mp known
    rw [overloads, List.head?_filter, List.find?_eq_some_iff_append]
    refine ⟨by simp [isFn], before, after, split, fun j member => ?_⟩
    have other := none j member
    simp only [Bool.not_eq_true', decide_eq_false_iff_not, Bool.and_eq_false_imp] at other ⊢
    exact fun isFn' same => other ⟨(space_of_fn isFn').trans (space_of_fn isFn).symm, same⟩
  · rfl

end Decl

def Diagnostic.isDuplicateName (d : Diagnostic) : Bool :=
  match d.problem with
  | .duplicateName _ _ => true
  | _ => false

namespace Binder

def duplicates (b : Binder) : List Diagnostic := b.diagnostics.toList.filter (·.isDuplicateName)

/-- In a state a scope has the names that `ds` declares, and the symbols from `start` on are those
of `ds`. -/
structure Shares (b : Binder) (start : Nat) (scope : Scope) (ds : List Decl) : Prop where
  free : ∀ space name, scope.find? (space, name) = none → Decl.first? ds space name = none
  taken : ∀ space name x, scope.find? (space, name) = some x →
    start ≤ x ∧ x < b.symbols.size ∧
      ∃ k, Decl.first? ds space name = some k ∧ b.symbol x = k.gathered ds
  others : ∀ x, start ≤ x → x < b.symbols.size →
    (∃ d ∈ ds, b.symbol x = d.alone) ∨ ∃ space name, scope.find? (space, name) = some x
  declares : ∀ d ∈ ds, ∃ x, start ≤ x ∧ x < b.symbols.size ∧ d ∈ (b.symbol x).decls

namespace Shares

variable {b b₁ b₂ : Binder} {start : Nat} {scope : Scope} {ds : List Decl} {d k : Decl}

/-- A declaration gets a symbol of its own. -/
theorem push (shares : b₁.Shares start scope ds) (low : start ≤ b₁.symbols.size)
    (symbols : b₂.symbols = b₁.symbols.push d.alone) {scope' : Scope}
    (free : ∀ space name, scope'.find? (space, name) = none →
      Decl.first? (ds ++ [d]) space name = none)
    (taken : ∀ space name x, scope'.find? (space, name) = some x →
      start ≤ x ∧ x < b₂.symbols.size ∧
        ∃ k, Decl.first? (ds ++ [d]) space name = some k ∧ b₂.symbol x = k.gathered (ds ++ [d]))
    (kept : ∀ space name x, scope.find? (space, name) = some x →
      scope'.find? (space, name) = some x) : b₂.Shares start scope' (ds ++ [d]) := by
  have size : b₂.symbols.size = b₁.symbols.size + 1 := by rw [symbols, Array.size_push]
  have new := Hoisted.symbol_push_new symbols
  refine ⟨free, taken, fun x lowX highX => ?_, fun c member => ?_⟩
  · by_cases small : x < b₁.symbols.size
    · rw [Hoisted.symbol_push_old symbols small]
      rcases shares.others x lowX small with ⟨c, declared, own⟩ | ⟨space, name, found⟩
      · exact .inl ⟨c, List.mem_append_left _ declared, own⟩
      · exact .inr ⟨space, name, kept space name x found⟩
    · obtain rfl : x = b₁.symbols.size := by omega
      exact .inl ⟨d, List.mem_append_right _ List.mem_cons_self, new⟩
  · rcases List.mem_append.mp member with earlier | last
    · obtain ⟨x, lowX, highX, inside⟩ := shares.declares c earlier
      exact ⟨x, lowX, by omega, by rwa [Hoisted.symbol_push_old symbols highX]⟩
    · obtain rfl := List.mem_singleton.mp last
      exact ⟨_, low, by omega, by rw [new]; exact List.mem_cons_self⟩

theorem insert (shares : b₁.Shares start scope ds) (low : start ≤ b₁.symbols.size)
    (found : scope.find? (d.space, d.name.name) = none)
    (symbols : b₂.symbols = b₁.symbols.push d.alone) :
    b₂.Shares start (scope.insert (d.space, d.name.name) b₁.symbols.size) (ds ++ [d]) := by
  have size : b₂.symbols.size = b₁.symbols.size + 1 := by rw [symbols, Array.size_push]
  have new := shares.free _ _ found
  refine shares.push low symbols ?_ ?_ ?_
  · intro space name absent
    rw [Table.find?_insert] at absent
    split at absent
    · cases absent
    · next other =>
      rw [Decl.first?_snoc, shares.free space name absent, Option.none_or, if_neg]
      rintro ⟨rfl, rfl⟩
      exact other rfl
  · intro space name x inserted
    rw [Table.find?_insert] at inserted
    split at inserted
    · next same =>
      cases same
      cases inserted
      refine ⟨low, size ▸ Nat.lt_succ_self _, d, ?_, ?_⟩
      · rw [Decl.first?_snoc, new, Option.none_or, if_pos ⟨rfl, rfl⟩]
      · rw [Hoisted.symbol_push_new symbols, Decl.gathered_new new]
    · next other =>
      obtain ⟨lowX, highX, k, first, own⟩ := shares.taken space name x inserted
      refine ⟨lowX, size ▸ Nat.lt_succ_of_lt highX, k, ?_, ?_⟩
      · rw [Decl.first?_snoc, first, Option.some_or]
      · rw [Hoisted.symbol_push_old symbols highX, own, Decl.gathered_snoc_other]
        rintro ⟨isFn, joins, same⟩
        obtain ⟨-, rfl, rfl⟩ := Decl.first?_some first
        exact other (by rw [Decl.space_of_fn isFn, Decl.space_of_fn joins, same])
  · intro space name x known
    rw [Table.find?_insert, if_neg]
    · exact known
    · intro same
      rw [same, found] at known
      cases known

theorem reject (shares : b₁.Shares start scope ds) (low : start ≤ b₁.symbols.size)
    (known : Decl.first? ds d.space d.name.name = some k)
    (apart : ¬(k.fn?.isSome && d.fn?.isSome) = true)
    (symbols : b₂.symbols = b₁.symbols.push d.alone) : b₂.Shares start scope (ds ++ [d]) := by
  have size : b₂.symbols.size = b₁.symbols.size + 1 := by rw [symbols, Array.size_push]
  refine shares.push low symbols ?_ ?_ fun _ _ _ found => found
  · intro space name absent
    rw [Decl.first?_of_known known]
    exact shares.free space name absent
  · intro space name x found
    obtain ⟨lowX, highX, j, first, own⟩ := shares.taken space name x found
    refine ⟨lowX, size ▸ Nat.lt_succ_of_lt highX, j, by rw [Decl.first?_of_known known, first], ?_⟩
    rw [Hoisted.symbol_push_old symbols highX, own, Decl.gathered_snoc_other]
    rintro ⟨isFn, joins, same⟩
    obtain ⟨-, rfl, rfl⟩ := Decl.first?_some first
    rw [Decl.space_of_fn isFn, ← Decl.space_of_fn joins, ← same, known] at first
    cases first
    exact apart (by rw [isFn, joins]; rfl)

theorem join (shares : b₁.Shares start scope ds) {x : SymbolId}
    (found : scope.find? (d.space, d.name.name) = some x)
    (known : Decl.first? ds d.space d.name.name = some k) (first : k.fn?.isSome = true)
    (joins : d.fn?.isSome = true)
    (symbols : b₂.symbols = b₁.symbols.modify x fun s => { s with decls := s.decls ++ [d] }) :
    b₂.Shares start scope (ds ++ [d]) := by
  have size : b₂.symbols.size = b₁.symbols.size := by rw [symbols, Array.size_modify]
  have other : ∀ {y}, y ≠ x → b₂.symbol y = b₁.symbol y := fun apart => symbol_join symbols apart
  obtain ⟨-, -, same⟩ := Decl.first?_some known
  obtain ⟨lowX, highX, k', known', own⟩ := shares.taken _ _ x found
  obtain rfl : k' = k := Option.some.inj (known'.symm.trans known)
  have self : b₂.symbol x = k'.gathered (ds ++ [d]) := by
    rw [Decl.gathered_snoc_join first joins same.symm, ← own, symbol, symbols]
    exact Hoisted.symbol_modify_self b₁ _ highX
  refine ⟨fun space name absent => ?_, fun space name y found' => ?_, fun y lowY highY => ?_,
    fun c member => ?_⟩
  · rw [Decl.first?_of_known known]
    exact shares.free space name absent
  · obtain ⟨lowY, highY, j, first', own'⟩ := shares.taken space name y found'
    rw [Decl.first?_of_known known]
    by_cases apart : y = x
    · subst apart
      -- one symbol has one name in the scope
      have role : j.role = k'.role := congrArg Symbol.role (own'.symm.trans own)
      have name' : j.name.name = k'.name.name := congrArg Symbol.name (own'.symm.trans own)
      have isFn : j.fn?.isSome = true := by
        rw [← j.role_isFunction, role, k'.role_isFunction, first]
      obtain ⟨-, rfl, rfl⟩ := Decl.first?_some first'
      have key : Decl.first? ds j.space j.name.name = some k' := by
        rw [Decl.space_of_fn isFn, ← Decl.space_of_fn joins, name', same, known]
      exact ⟨lowY, size ▸ highY, k', key, self⟩
    · refine ⟨lowY, size ▸ highY, j, first', ?_⟩
      rw [other apart, own', Decl.gathered_snoc_other]
      rintro ⟨isFn, -, same'⟩
      obtain ⟨-, rfl, rfl⟩ := Decl.first?_some first'
      rw [Decl.space_of_fn isFn, ← Decl.space_of_fn joins, ← same', found] at found'
      exact apart (Option.some.inj found').symm
  · by_cases apart : y = x
    · exact .inr ⟨_, _, apart ▸ found⟩
    · rw [other apart]
      rcases shares.others y lowY (size ▸ highY) with ⟨c, declared, own⟩ | known
      · exact .inl ⟨c, List.mem_append_left _ declared, own⟩
      · exact .inr known
  · rcases List.mem_append.mp member with earlier | last
    · obtain ⟨y, lowY, highY, inside⟩ := shares.declares c earlier
      refine ⟨y, lowY, size ▸ highY, ?_⟩
      by_cases apart : y = x
      · subst apart
        rw [own] at inside
        rw [self, Decl.gathered_snoc_join first joins same.symm]
        exact List.mem_append_left _ inside
      · rwa [other apart]
    · obtain rfl := List.mem_singleton.mp last
      refine ⟨x, lowX, size ▸ highX, ?_⟩
      rw [self, Decl.gathered_snoc_join first joins same.symm]
      exact List.mem_append_right _ List.mem_cons_self

end Shares

/-- What declaring `ds` in an empty scope does to a state. -/
structure Hosts (b : Binder) (ds : List Decl) (b₁ : Binder) : Prop where
  size : b.symbols.size ≤ b₁.symbols.size
  old : ∀ x < b.symbols.size, b₁.symbol x = b.symbol x
  scope : ∃ scope, b₁.scopes = scope :: b.scopes ∧ b₁.Shares b.symbols.size scope ds
  duplicates : b₁.duplicates = b.duplicates ++ Decl.clashes [] ds
  told : ∀ d ∈ b₁.diagnostics, d ∈ b.diagnostics ∨ d.isDuplicateName = true
  targets : b.targets.entries ⊆ b₁.targets.entries
  assigned : b₁.assigned = b.assigned

namespace Hosts

variable {b b₁ b₂ : Binder} {ds : List Decl} {d : Decl}

theorem nil (b : Binder) : b.Hosts [] { b with scopes := Table.empty :: b.scopes } where
  size := Nat.le_refl _
  old _ _ := rfl
  scope := ⟨_, rfl, fun _ _ _ => rfl, nofun, fun _ low high => absurd high (Nat.not_lt.mpr low),
    nofun⟩
  duplicates := (List.append_nil _).symm
  told _ := .inl
  targets := List.Subset.refl _
  assigned := rfl

theorem declare (hosts : b.Hosts ds b₁) : b.Hosts (ds ++ [d]) (Binding.declareOwn d b₁).2 := by
  obtain ⟨scope, here, shares⟩ := hosts.scope
  have own : b₁.here? d.space d.name.name = scope.find? (d.space, d.name.name) := by
    rw [here?, here]
    rfl
  have pushed (b₂ : Binder) (symbols : b₂.symbols = b₁.symbols.push d.alone) :
      b.symbols.size ≤ b₂.symbols.size ∧ ∀ x < b.symbols.size, b₂.symbol x = b.symbol x := by
    refine ⟨?_, fun x small => ?_⟩
    · rw [symbols, Array.size_push]
      exact Nat.le_succ_of_le hosts.size
    · rw [Hoisted.symbol_push_old symbols (Nat.lt_of_lt_of_le small hosts.size), hosts.old x small]
  have targets : ∀ x, b.targets.entries ⊆ (b₁.targets.push d.mark.id x).entries := fun _ =>
    List.Subset.trans hosts.targets (List.subset_append_left _ _)
  have clash : Decl.clashes [] (ds ++ [d]) =
      Decl.clashes [] ds ++ (Decl.clash? ([] ++ ds) d).toList := Decl.clashes_snoc []
  rw [List.nil_append, Decl.clash?] at clash
  rw [Binding.declareOwn, Binding.declare_apply, own]
  cases found : scope.find? (d.space, d.name.name) with
  | none =>
    obtain ⟨size, old⟩ := pushed { b₁ with symbols := b₁.symbols.push d.alone } rfl
    rw [shares.free _ _ found] at clash
    refine ⟨size, old, ⟨_, by rw [here], shares.insert hosts.size found rfl⟩, ?_, hosts.told,
      targets _, hosts.assigned⟩
    rw [clash, Option.toList_none, List.append_nil]
    exact hosts.duplicates
  | some x =>
    obtain ⟨lowX, highX, k, known, symbol⟩ := shares.taken _ _ x found
    have role : (b₁.symbol x).role = k.role := congrArg Symbol.role symbol
    rw [known] at clash
    dsimp only at clash ⊢
    rw [role, k.role_isFunction, d.role_isFunction]
    split
    · next joins =>
      rw [if_pos joins] at clash
      rw [Bool.and_eq_true] at joins
      refine ⟨?_, fun y small => ?_, ⟨scope, here, shares.join found known joins.1 joins.2 rfl⟩, ?_,
        hosts.told, targets _, hosts.assigned⟩
      · rw [Array.size_modify]
        exact hosts.size
      · rw [symbol_join rfl (Nat.ne_of_lt (Nat.lt_of_lt_of_le small lowX)), hosts.old y small]
      · rw [clash, Option.toList_none, List.append_nil]
        exact hosts.duplicates
    · next apart =>
      obtain ⟨size, old⟩ := pushed { b₁ with symbols := b₁.symbols.push d.alone } rfl
      rw [if_neg apart] at clash
      refine ⟨size, old, ⟨scope, here, shares.reject hosts.size known apart rfl⟩, ?_,
        fun c member => ?_, targets _, hosts.assigned⟩
      · have first : (b₁.symbol x).decls.head? = some k := by
          rw [symbol, Decl.head?_gathered known]
        rw [clash, first, ← List.append_assoc, ← hosts.duplicates, Binder.duplicates,
          Array.toList_push, List.filter_append]
        rfl
      · rcases Array.mem_push.mp member with old | rfl
        · exact hosts.told c old
        · exact .inr rfl

theorem forM (hosts : b.Hosts ds b₁) (rest : List Decl) :
    b.Hosts (ds ++ rest) (rest.forM Binding.declareOwn b₁).2 := by
  induction rest generalizing ds b₁ with
  | nil =>
    rw [List.append_nil]
    exact hosts
  | cons d rest ih =>
    have tail := ih (hosts.declare (d := d))
    rw [List.append_assoc] at tail
    exact tail

end Hosts

end Binder

end Solo

import Mathlib.Data.List.Perm.Subperm
import Solo.Proofs.Scoping

/-!
# Binding resolves names by scope

Binding a tree whose nodes have distinct numbers makes it `Scoped`, if nothing is reported. A state
of binding is compared with the program that binding ends with: what a state has, the program has
too (`Below`), and a tree that is bound adds to the state and changes nothing that was there
(`Grows`).
-/

namespace Solo

def BoundProgram.Clean (p : BoundProgram) : Prop := ∀ d ∈ p.diagnostics, d.isError = false

def Role.inSpace (r : Role) : Namespace → Bool
  | .value => r.isValue
  | .type => r.isType

theorem Decl.role_inSpace (d : Decl) : d.role.inSpace d.space = true := by
  cases d with
  | val d =>
    obtain ⟨_, kind, _, _, _⟩ := d
    cases kind <;> rfl
  | _ => rfl

theorem Decl.role_thaw (d : Decl) : d.role.thaw = d.role := by
  cases d with
  | val d =>
    obtain ⟨_, kind, _, _, _⟩ := d
    cases kind <;> rfl
  | _ => rfl

theorem Decl.role_of_isFunction (d : Decl) (isFunction : d.role.isFunction = true) :
    d.role = .function := by
  cases d with
  | val d =>
    obtain ⟨_, kind, _, _, _⟩ := d
    cases kind <;> cases isFunction
  | fn _ => rfl
  | _ => cases isFunction

namespace Binder

/-- The program that binding ends with has what a state of binding has. -/
structure Below (b : Binder) (p : BoundProgram) : Prop where
  targets : ∀ i s, b.targets.find? i = some s → p.targets.find? i = some s
  decls : ∀ x < b.symbols.size, (p.symbol x).decls = (b.symbol x).decls
  roles : ∀ x < b.symbols.size, (p.symbol x).role.thaw = (b.symbol x).role
  assigned : ∀ x ∈ b.assigned, (p.symbol x).role ≠ .var true
  diagnostics : ∀ d ∈ b.diagnostics, d ∈ p.diagnostics

/-- The program has nothing else for the nodes `ns`. -/
structure Ends (b : Binder) (ns : List (Node Mark)) (p : BoundProgram) : Prop extends
    b.Below p where
  exact : ∀ n ∈ ns, p.targets.find? n.mark.id = b.targets.find? n.mark.id

/-- A symbol's declarations are nodes of `N` that stand for it. -/
structure SymbolFits (N : List (Node Mark)) (b : Binder) (x : SymbolId) : Prop where
  declared : (b.symbol x).decls ≠ []
  each : ∀ d ∈ (b.symbol x).decls,
    d.node ∈ N ∧ (b.symbol x).role = d.role ∧ b.targets.find? d.mark.id = some x
  only : (b.symbol x).role ≠ .function → ∃ d, (b.symbol x).decls = [d]

/-- What binding a tree with the nodes `ns` does to a state. -/
structure Grows (N : List (Node Mark)) (b : Binder) (ns : List (Node Mark)) (b' : Binder) :
    Prop where
  scopes : b'.scopes = b.scopes
  size : b.symbols.size ≤ b'.symbols.size
  old : ∀ x < b.symbols.size, b'.symbol x = b.symbol x
  kept : ∀ i s, b.targets.find? i = some s → b'.targets.find? i = some s
  targets : ∀ i, (∀ n ∈ ns, n.mark.id ≠ i) → b'.targets.find? i = b.targets.find? i
  /-- No node is recorded a second time. -/
  once : b.targets.keys.Nodup → b'.targets.keys.Nodup
  assigned : ∀ x ∈ b.assigned, x ∈ b'.assigned
  diagnostics : ∀ d ∈ b.diagnostics, d ∈ b'.diagnostics
  new : ∀ x, b.symbols.size ≤ x → x < b'.symbols.size → b'.SymbolFits N x

/-- The symbols of `env` are there, and the scopes hold no others. -/
structure Visible (b : Binder) (env : List SymbolId) : Prop where
  held : ∀ scope ∈ b.scopes, ∀ ns name s, scope.find? (ns, name) = some s →
    s ∈ env ∧ s ≠ Symbol.unresolvedId ∧ (b.symbol s).role.inSpace ns = true
  bound : ∀ s ∈ env, s < b.symbols.size
  nonempty : 0 < b.symbols.size

variable {N ns ks : List (Node Mark)} {b b₁ b₂ : Binder} {env : List SymbolId}

theorem SymbolFits.grow {x : SymbolId} (fits : b.SymbolFits N x) (same : b₁.symbol x = b.symbol x)
    (kept : ∀ i s, b.targets.find? i = some s → b₁.targets.find? i = some s) :
    b₁.SymbolFits N x where
  declared := same ▸ fits.declared
  each := by
    rw [same]
    intro d member
    obtain ⟨node, role, target⟩ := fits.each d member
    exact ⟨node, role, kept _ _ target⟩
  only := same ▸ fits.only

theorem Grows.below {p : BoundProgram} (grows : b.Grows N ns b₁) (below : b₁.Below p) :
    b.Below p where
  targets i s found := below.targets i s (grows.kept i s found)
  decls x small := by
    rw [below.decls x (Nat.lt_of_lt_of_le small grows.size), grows.old x small]
  roles x small := by
    rw [below.roles x (Nat.lt_of_lt_of_le small grows.size), grows.old x small]
  assigned x member := below.assigned x (grows.assigned x member)
  diagnostics d member := below.diagnostics d (grows.diagnostics d member)

theorem Grows.refl (N : List (Node Mark)) (b : Binder) : b.Grows N [] b where
  scopes := rfl
  size := Nat.le_refl _
  old _ _ := rfl
  kept _ _ found := found
  targets _ _ := rfl
  once := id
  assigned _ member := member
  diagnostics _ member := member
  new _ low high := absurd high (Nat.not_lt.mpr low)

theorem Grows.trans (first : b.Grows N ns b₁) (second : b₁.Grows N ks b₂) :
    b.Grows N (ns ++ ks) b₂ where
  scopes := second.scopes.trans first.scopes
  size := Nat.le_trans first.size second.size
  old x small := by
    rw [second.old x (Nat.lt_of_lt_of_le small first.size), first.old x small]
  kept i s found := second.kept i s (first.kept i s found)
  targets i other := by
    rw [second.targets i fun n member => other n (List.mem_append_right ns member),
      first.targets i fun n member => other n (List.mem_append_left ks member)]
  once distinct := second.once (first.once distinct)
  assigned x member := second.assigned x (first.assigned x member)
  diagnostics d member := second.diagnostics d (first.diagnostics d member)
  new x low high := by
    by_cases small : x < b₁.symbols.size
    · exact (first.new x low small).grow (second.old x small) second.kept
    · exact second.new x (Nat.not_lt.mp small) high

theorem Grows.widen (grows : b.Grows N ns b₁) (sub : ns ⊆ ks) : b.Grows N ks b₁ :=
  { grows with targets := fun i other => grows.targets i fun n member => other n (sub member) }

theorem Visible.grow (visible : b.Visible env) (grows : b.Grows N ns b₁) : b₁.Visible env where
  held := by
    rw [grows.scopes]
    intro scope member ns name s found
    obtain ⟨inside, real, role⟩ := visible.held scope member ns name s found
    rw [grows.old s (visible.bound s inside)]
    exact ⟨inside, real, role⟩
  bound s member := Nat.lt_of_lt_of_le (visible.bound s member) grows.size
  nonempty := Nat.lt_of_lt_of_le visible.nonempty grows.size

theorem Visible.lookup (visible : b.Visible env) {ns : Namespace} {name : String} {s : SymbolId}
    (found : b.lookup? ns name = some s) :
    s ∈ env ∧ s ≠ Symbol.unresolvedId ∧ (b.symbol s).role.inSpace ns = true := by
  obtain ⟨scope, member, here⟩ := List.exists_of_findSome?_eq_some found
  exact visible.held scope member ns name s here

end Binder

/-! ### Binding actions -/

/-- An action that binds the nodes `ns` where the symbols of `env` are visible, and thereby makes
`P` true of every program it ends with of which `H` holds. -/
def Binds (H : BoundProgram → Prop) (N : List (Node Mark)) (env : List SymbolId)
    (ns : List (Node Mark)) (a : Binding Unit) (P : BoundProgram → Prop) : Prop :=
  ns ⊆ N → (ns.map (·.mark.id)).Nodup → ∀ b : Binder,
    (∀ n ∈ ns, b.targets.find? n.mark.id = none) → b.Visible env →
      b.Grows N ns (a b).2 ∧ ∀ p, (a b).2.Ends ns p → H p → P p

namespace Binds

variable {H : BoundProgram → Prop} {N ns ks : List (Node Mark)} {env : List SymbolId}
  {a c : Binding Unit} {P Q : BoundProgram → Prop}

theorem nothing (N : List (Node Mark)) (env : List SymbolId) :
    Binds H N env [] (pure ()) fun _ => True :=
  fun _ _ b _ _ => ⟨.refl N b, fun _ _ _ => trivial⟩

theorem seq (first : Binds H N env ns a P) (second : Binds H N env ks c Q) :
    Binds H N env (ns ++ ks) (do a; c) fun p => P p ∧ Q p := by
  intro inside distinct b unbound visible
  rw [List.map_append, List.nodup_append] at distinct
  obtain ⟨distinctNs, distinctKs, apart⟩ := distinct
  obtain ⟨grows, holds⟩ := first (fun n member => inside (List.mem_append_left ks member))
    distinctNs b (fun n member => unbound n (List.mem_append_left ks member)) visible
  have unboundKs : ∀ n ∈ ks, (a b).2.targets.find? n.mark.id = none := by
    intro n member
    rw [grows.targets n.mark.id]
    · exact unbound n (List.mem_append_right ns member)
    · intro k early same
      exact apart _ (List.mem_map_of_mem early) _ (List.mem_map_of_mem member) same
  obtain ⟨grows', holds'⟩ := second (fun n member => inside (List.mem_append_right ns member))
    distinctKs (a b).2 unboundKs (visible.grow grows)
  refine ⟨grows.trans grows', ?_⟩
  intro p ends assumed
  have early : ∀ n ∈ ns, p.targets.find? n.mark.id = (a b).2.targets.find? n.mark.id := by
    intro n member
    rw [ends.exact n (List.mem_append_left ks member)]
    refine grows'.targets n.mark.id ?_
    intro k late same
    exact apart _ (List.mem_map_of_mem member) _ (List.mem_map_of_mem late) same.symm
  have late : ∀ n ∈ ks, p.targets.find? n.mark.id = (c (a b).2).2.targets.find? n.mark.id :=
    fun n member => ends.exact n (List.mem_append_right ns member)
  exact ⟨holds p ⟨grows'.below ends.toBelow, early⟩ assumed, holds' p ⟨ends.toBelow, late⟩ assumed⟩

theorem widen (binds : Binds H N env ns a P) (sub : ns.Subperm ks) : Binds H N env ks a P := by
  intro inside distinct b unbound visible
  have distinctNs : (ns.map (·.mark.id)).Nodup := by
    obtain ⟨ls, perm, sublist⟩ := sub
    exact (perm.map _).nodup_iff.mp (distinct.sublist (sublist.map _))
  obtain ⟨grows, holds⟩ := binds (fun n member => inside (sub.subset member)) distinctNs b
    (fun n member => unbound n (sub.subset member)) visible
  refine ⟨grows.widen sub.subset, ?_⟩
  intro p ends assumed
  exact holds p ⟨ends.toBelow, fun n member => ends.exact n (sub.subset member)⟩ assumed

theorem imp (binds : Binds H N env ns a P) (weaker : ∀ p, P p → Q p) : Binds H N env ns a Q := by
  intro inside distinct b unbound visible
  obtain ⟨grows, holds⟩ := binds inside distinct b unbound visible
  exact ⟨grows, fun p ends assumed => weaker p (holds p ends assumed)⟩

end Binds

namespace Binding

variable {α β : Type} {N : List (Node Mark)} {b b₀ b₁ : Binder} {env : List SymbolId}

theorem bind_apply (a : Binding α) (f : α → Binding β) (b : Binder) :
    (a >>= f) b = f (a b).1 (a b).2 := rfl

theorem get_apply (b : Binder) : (get : Binding Binder) b = (b, b) := rfl

theorem grows_target {n : Node Mark} (unbound : b.targets.find? n.mark.id = none) (s : SymbolId) :
    b.Grows N [n] { b with targets := b.targets.push n.mark.id s } where
  scopes := rfl
  size := Nat.le_refl _
  old _ _ := rfl
  kept _ _ found := Table.find?_push_of_some found
  targets _ other := Table.find?_push_other (Ne.symm (other n List.mem_cons_self))
  once distinct := Table.nodup_keys_push distinct unbound
  assigned _ member := member
  diagnostics _ member := member
  new _ low high := absurd high (Nat.not_lt.mpr low)

theorem grows_report (b : Binder) (d : Diagnostic) :
    b.Grows N [] { b with diagnostics := b.diagnostics.push d } where
  scopes := rfl
  size := Nat.le_refl _
  old _ _ := rfl
  kept _ _ found := found
  targets _ _ := rfl
  once := id
  assigned _ member := member
  diagnostics _ member := Array.mem_push_of_mem d member
  new _ low high := absurd high (Nat.not_lt.mpr low)

theorem not_clean {p : BoundProgram} {d : Diagnostic} (below : b.Below p) (clean : p.Clean)
    (reported : d ∈ b.diagnostics) (isError : d.isError = true) : False := by
  have quiet := clean d (below.diagnostics d reported)
  rw [isError] at quiet
  cases quiet

theorem symbolAt?_of_target {p : BoundProgram} {i : NodeId} {s : SymbolId}
    (target : p.targets.find? i = some s) (real : s ≠ Symbol.unresolvedId) :
    p.symbolAt? i = some s := by
  rw [BoundProgram.symbolAt?, target]
  simp [real]

theorem resolveValue_apply (x : Ident Mark) (b : Binder) :
    resolveValue x b =
      match b.lookup? .value x.name with
      | some s => (s, { b with targets := b.targets.push x.mark.id s })
      | none => (Symbol.unresolvedId,
        { b with
          diagnostics := b.diagnostics.push ⟨x.mark.span, .unknownName x.name⟩
          targets := b.targets.push x.mark.id Symbol.unresolvedId }) := by
  simp only [resolveValue, bind_apply, get_apply]
  cases b.lookup? .value x.name <;> rfl

/-- Resolving a name finds a visible value, or reports the name. -/
theorem resolveValue_grows {x : Ident Mark} {n : Node Mark} (same : n.mark = x.mark)
    (unbound : b.targets.find? n.mark.id = none) (visible : b.Visible env) :
    b.Grows N [n] (resolveValue x b).2 ∧ ∀ p, (resolveValue x b).2.Below p → p.Clean →
      (resolveValue x b).1 ∈ env ∧ p.symbolAt? x.mark.id = some (resolveValue x b).1 ∧
        (p.symbol (resolveValue x b).1).role.isValue = true := by
  cases found : b.lookup? .value x.name with
  | some s =>
    have run : resolveValue x b = (s, { b with targets := b.targets.push n.mark.id s }) := by
      rw [resolveValue_apply, found, same]
    obtain ⟨inside, real, role⟩ := visible.lookup found
    rw [run]
    refine ⟨grows_target unbound s, ?_⟩
    intro p below _
    have target := below.targets _ _ (Table.find?_push_self unbound)
    refine ⟨inside, ?_, ?_⟩
    · rw [← same]
      exact symbolAt?_of_target target real
    · rw [← Role.isValue_thaw, below.roles s (visible.bound s inside)]
      exact role
  | none =>
    have run : resolveValue x b = (Symbol.unresolvedId,
        { b with
          diagnostics := b.diagnostics.push ⟨x.mark.span, .unknownName x.name⟩
          targets := b.targets.push n.mark.id Symbol.unresolvedId }) := by
      rw [resolveValue_apply, found, same]
    rw [run]
    have reported := grows_report (N := N) b ⟨x.mark.span, .unknownName x.name⟩
    refine ⟨reported.trans (grows_target (by exact unbound) _), ?_⟩
    intro p below clean
    exact (not_clean below clean (Array.mem_push_self) rfl).elim

theorem resolveType_apply (x : Ident Mark) (b : Binder) :
    resolveType x b =
      match b.lookup? .type x.name with
      | some s => ((), { b with targets := b.targets.push x.mark.id s })
      | none =>
        if (Kind.ofName? x.name).isSome then ((), b)
        else ((), (resolveValue x b).2) := by
  simp only [resolveType, resolveValue_apply, bind_apply, get_apply]
  cases b.lookup? .type x.name with
  | some s => rfl
  | none =>
    dsimp only
    split
    · rfl
    · cases b.lookup? .value x.name <;> rfl

theorem name_binds {x : Ident Mark} {n : Node Mark} (same : n.mark = x.mark) :
    Binds BoundProgram.Clean N env [n] (do let _ ← resolveValue x) fun p => p.Resolves env x := by
  intro _ _ b unbound visible
  obtain ⟨grows, resolved⟩ :=
    resolveValue_grows (N := N) same (unbound n List.mem_cons_self) visible
  refine ⟨grows, ?_⟩
  intro p ends clean
  exact ⟨_, resolved p ends.toBelow clean⟩

theorem grows_assign (b : Binder) (s : SymbolId) :
    b.Grows N [] { b with assigned := s :: b.assigned } where
  scopes := rfl
  size := Nat.le_refl _
  old _ _ := rfl
  kept _ _ found := found
  targets _ _ := rfl
  once := id
  assigned _ member := List.mem_cons_of_mem s member
  diagnostics _ member := member
  new _ low high := absurd high (Nat.not_lt.mpr low)

/-- The target of an assignment is no variable that keeps its first value. -/
theorem target_binds {x : Ident Mark} {n : Node Mark} (same : n.mark = x.mark) :
    Binds BoundProgram.Clean N env [n]
      (do
        let s ← resolveValue x
        if s ≠ Symbol.unresolvedId then Binding.assign s)
      fun p => p.Resolves env x ∧
        ∀ s, p.symbolAt? x.mark.id = some s → (p.symbol s).role ≠ .var true := by
  intro _ _ b unbound visible
  obtain ⟨grows, resolved⟩ :=
    resolveValue_grows (N := N) same (unbound n List.mem_cons_self) visible
  rw [bind_apply]
  by_cases real : (resolveValue x b).1 = Symbol.unresolvedId
  · rw [if_neg (not_not.mpr real)]
    refine ⟨grows, ?_⟩
    intro p ends clean
    obtain ⟨_, target, _⟩ := resolved p ends.toBelow clean
    rw [real, BoundProgram.symbolAt?, Option.filter_eq_some_iff] at target
    simp at target
  · rw [if_pos real]
    have grows' := grows_assign (N := N) (resolveValue x b).2 (resolveValue x b).1
    refine ⟨grows.trans grows', ?_⟩
    intro p ends clean
    obtain ⟨inside, target, role⟩ := resolved p (grows'.below ends.toBelow) clean
    refine ⟨⟨_, inside, target, role⟩, ?_⟩
    intro s found
    rw [target] at found
    cases found
    exact ends.assigned _ List.mem_cons_self

theorem type_binds {x : Ident Mark} {n : Node Mark} (same : n.mark = x.mark) :
    Binds BoundProgram.Clean N env [n] (resolveType x) fun p => p.ResolvesType env x := by
  intro _ _ b unbound visible
  have free := unbound n List.mem_cons_self
  rw [resolveType_apply]
  cases found : b.lookup? .type x.name with
  | some s =>
    obtain ⟨inside, real, _⟩ := visible.lookup found
    rw [← same]
    refine ⟨grows_target free s, ?_⟩
    intro p ends _
    have target := ends.targets _ _ (Table.find?_push_self free)
    exact .inr ⟨s, inside, same ▸ symbolAt?_of_target target real⟩
  | none =>
    dsimp only
    split
    · next isKind =>
      refine ⟨(Binder.Grows.refl N b).widen (List.nil_subset _), ?_⟩
      intro p ends _
      have none := (ends.exact n List.mem_cons_self).trans free
      exact .inl ⟨same ▸ none, isKind⟩
    · obtain ⟨grows, resolved⟩ := resolveValue_grows (N := N) same free visible
      refine ⟨grows, ?_⟩
      intro p ends clean
      obtain ⟨inside, target, _⟩ := resolved p ends.toBelow clean
      exact .inr ⟨_, inside, target⟩

/-! ### Declarations -/

def declareOwn (d : Decl) : Binding Unit := declare d.space d.role d

theorem declare_apply (ns : Namespace) (role : Role) (d : Decl) (b : Binder) :
    declare ns role d b =
      match b.here? ns d.name.name with
      | some first =>
        if (b.symbol first).role.isFunction && role.isFunction then
          ((), { b with
            symbols := b.symbols.modify first fun s => { s with decls := s.decls ++ [d] }
            targets := b.targets.push d.mark.id first })
        else
          ((), { b with
            symbols := b.symbols.push ⟨d.name.name, role, [d]⟩
            targets := b.targets.push d.mark.id b.symbols.size
            diagnostics := b.diagnostics.push ⟨d.name.mark.span, .duplicateName d.name.name
              (((b.symbol first).decls.head?.map (·.name.mark.span)).getD default)⟩ })
      | none =>
        ((), { b with
          symbols := b.symbols.push ⟨d.name.name, role, [d]⟩
          targets := b.targets.push d.mark.id b.symbols.size
          scopes := match b.scopes with
            | [] => []
            | scope :: outer => scope.insert (ns, d.name.name) b.symbols.size :: outer }) := by
  simp only [declare, bind_apply, get_apply]
  cases b.here? ns d.name.name with
  | none =>
    obtain ⟨_, scopes, _, _, _⟩ := b
    cases scopes <;> rfl
  | some first =>
    dsimp only
    by_cases joins : ((b.symbol first).role.isFunction && role.isFunction) = true
    · rw [if_pos joins]
      exact congrFun (if_pos joins) b
    · rw [if_neg joins]
      exact congrFun (if_neg joins) b

end Binding

namespace Binder

/-- What declaring `ds` in an empty scope does to a state: each declaration has a symbol of the
scope, and the scope has no others. -/
structure Hoisted (N : List (Node Mark)) (b : Binder) (outer : List Scope) (ds : List Decl)
    (b' : Binder) : Prop where
  scopes : ∃ scope, b'.scopes = scope :: outer ∧ ∀ ns name s, scope.find? (ns, name) = some s →
    ∃ d ∈ ds, d.space = ns ∧ b'.targets.find? d.mark.id = some s
  size : b.symbols.size ≤ b'.symbols.size
  old : ∀ x < b.symbols.size, b'.symbol x = b.symbol x
  kept : ∀ i s, b.targets.find? i = some s → b'.targets.find? i = some s
  targets : ∀ i, (∀ d ∈ ds, d.mark.id ≠ i) → b'.targets.find? i = b.targets.find? i
  once : b.targets.keys.Nodup → b'.targets.keys.Nodup
  assigned : b'.assigned = b.assigned
  diagnostics : ∀ d ∈ b.diagnostics, d ∈ b'.diagnostics
  new : ∀ x, b.symbols.size ≤ x → x < b'.symbols.size →
    b'.SymbolFits N x ∧ ∀ d ∈ (b'.symbol x).decls, d ∈ ds
  declares : ∀ d ∈ ds, ∃ s, b.symbols.size ≤ s ∧ s < b'.symbols.size ∧
    b'.targets.find? d.mark.id = some s ∧ d ∈ (b'.symbol s).decls

namespace Hoisted

variable {N : List (Node Mark)} {b b₁ b₂ : Binder} {outer : List Scope} {ds : List Decl} {d : Decl}

theorem nil (N : List (Node Mark)) (b : Binder) :
    Hoisted N b b.scopes [] { b with scopes := Table.empty :: b.scopes } where
  scopes := ⟨_, rfl, by simp⟩
  size := Nat.le_refl _
  old _ _ := rfl
  kept _ _ found := found
  targets _ _ := rfl
  once := id
  assigned := rfl
  diagnostics _ member := member
  new _ low high := absurd high (Nat.not_lt.mpr low)
  declares := by simp

theorem symbol_push_old {s : Symbol} (symbols : b₂.symbols = b₁.symbols.push s) {x : SymbolId}
    (small : x < b₁.symbols.size) : b₂.symbol x = b₁.symbol x := by
  have other : x ≠ b₁.symbols.size := Nat.ne_of_lt small
  simp [symbol, symbols, Array.getD_eq_getD_getElem?, Array.getElem?_push, other]

theorem symbol_push_new {s : Symbol} (symbols : b₂.symbols = b₁.symbols.push s) :
    b₂.symbol b₁.symbols.size = s := by
  simp [symbol, symbols, Array.getD_eq_getD_getElem?]

/-- A declaration that gets a symbol of its own. -/
theorem snoc (hoisted : Hoisted N b outer ds b₁) (node : d.node ∈ N)
    (unbound : b₁.targets.find? d.mark.id = none)
    (scopes : ∃ scope, b₂.scopes = scope :: outer ∧ ∀ ns name s,
      scope.find? (ns, name) = some s →
        ∃ k ∈ ds ++ [d], k.space = ns ∧ b₂.targets.find? k.mark.id = some s)
    (symbols : b₂.symbols = b₁.symbols.push ⟨d.name.name, d.role, [d]⟩)
    (targets : b₂.targets = b₁.targets.push d.mark.id b₁.symbols.size)
    (assigned : b₂.assigned = b₁.assigned)
    (diagnostics : ∀ k ∈ b₁.diagnostics, k ∈ b₂.diagnostics) :
    Hoisted N b outer (ds ++ [d]) b₂ := by
  have size : b₂.symbols.size = b₁.symbols.size + 1 := by rw [symbols, Array.size_push]
  have bigger := hoisted.size
  have kept : ∀ i s, b₁.targets.find? i = some s → b₂.targets.find? i = some s := by
    intro i s found
    rw [targets]
    exact Table.find?_push_of_some found
  have own : b₂.targets.find? d.mark.id = some b₁.symbols.size := by
    rw [targets]
    exact Table.find?_push_self unbound
  refine ⟨scopes, by omega, ?_, ?_, ?_, ?_, assigned.trans hoisted.assigned, ?_, ?_, ?_⟩
  · intro x small
    rw [symbol_push_old symbols (Nat.lt_of_lt_of_le small bigger), hoisted.old x small]
  · intro i s found
    exact kept i s (hoisted.kept i s found)
  · intro i other
    rw [targets, Table.find?_push_other (Ne.symm (other d (by simp)))]
    exact hoisted.targets i fun k member => other k (List.mem_append_left _ member)
  · intro distinct
    rw [targets]
    exact Table.nodup_keys_push (hoisted.once distinct) unbound
  · intro k member
    exact diagnostics k (hoisted.diagnostics k member)
  · intro x low high
    by_cases small : x < b₁.symbols.size
    · obtain ⟨fits, inside⟩ := hoisted.new x low small
      have same := symbol_push_old symbols small
      refine ⟨fits.grow same kept, ?_⟩
      rw [same]
      exact fun k member => List.mem_append_left _ (inside k member)
    · obtain rfl : x = b₁.symbols.size := by omega
      have same := symbol_push_new symbols
      refine ⟨⟨by simp [same], ?_, fun _ => ⟨d, by rw [same]⟩⟩, by simp [same]⟩
      intro k member
      rw [same, List.mem_singleton] at member
      subst member
      exact ⟨node, by rw [same], own⟩
  · intro k member
    rcases List.mem_append.mp member with earlier | last
    · obtain ⟨s, low, high, found, inside⟩ := hoisted.declares k earlier
      exact ⟨s, low, by omega, kept _ _ found, by rwa [symbol_push_old symbols high]⟩
    · obtain rfl := List.mem_singleton.mp last
      exact ⟨_, bigger, by omega, own, by rw [symbol_push_new symbols]; exact List.mem_cons_self⟩

theorem symbol_modify_other (b : Binder) (f : Symbol → Symbol) {x y : SymbolId} (other : x ≠ y) :
    { b with symbols := b.symbols.modify y f }.symbol x = b.symbol x := by
  simp [symbol, Array.getD_eq_getD_getElem?, Array.getElem?_modify, other.symm]

theorem symbol_modify_self (b : Binder) (f : Symbol → Symbol) {y : SymbolId}
    (small : y < b.symbols.size) :
    { b with symbols := b.symbols.modify y f }.symbol y = f (b.symbol y) := by
  simp [symbol, Array.getD_eq_getD_getElem?, Array.getElem_modify_self, small]

/-- A further overload of a function of the scope. -/
theorem join (hoisted : Hoisted N b outer ds b₁) (node : d.node ∈ N)
    (unbound : b₁.targets.find? d.mark.id = none) {first : SymbolId}
    (low : b.symbols.size ≤ first) (high : first < b₁.symbols.size)
    (role : (b₁.symbol first).role = d.role) (overload : d.role = .function) :
    Hoisted N b outer (ds ++ [d]) { b₁ with
      symbols := b₁.symbols.modify first fun s => { s with decls := s.decls ++ [d] }
      targets := b₁.targets.push d.mark.id first } := by
  have kept : ∀ i s, b₁.targets.find? i = some s →
      (b₁.targets.push d.mark.id first).find? i = some s :=
    fun i s found => Table.find?_push_of_some found
  have own := Table.find?_push_self (v := first) unbound
  have other : ∀ {x}, x ≠ first → symbol { b₁ with
      symbols := b₁.symbols.modify first fun s => { s with decls := s.decls ++ [d] }
      targets := b₁.targets.push d.mark.id first } x = b₁.symbol x :=
    fun apart => symbol_modify_other b₁ _ apart
  have self : symbol { b₁ with
      symbols := b₁.symbols.modify first fun s => { s with decls := s.decls ++ [d] }
      targets := b₁.targets.push d.mark.id first } first =
        { b₁.symbol first with decls := (b₁.symbol first).decls ++ [d] } :=
    symbol_modify_self b₁ _ high
  refine ⟨?_, ?_, ?_, ?_, ?_, ?_, hoisted.assigned, hoisted.diagnostics, ?_, ?_⟩
  · obtain ⟨scope, here, entries⟩ := hoisted.scopes
    refine ⟨scope, here, ?_⟩
    intro ns name s found
    obtain ⟨k, member, space, target⟩ := entries ns name s found
    exact ⟨k, List.mem_append_left _ member, space, kept _ _ target⟩
  · rw [Array.size_modify]
    exact hoisted.size
  · intro x small
    rw [other (Nat.ne_of_lt (Nat.lt_of_lt_of_le small low)), hoisted.old x small]
  · intro i s found
    exact kept i s (hoisted.kept i s found)
  · intro i apart
    rw [Table.find?_push_other (Ne.symm (apart d (by simp)))]
    exact hoisted.targets i fun k member => apart k (List.mem_append_left _ member)
  · exact fun distinct => Table.nodup_keys_push (hoisted.once distinct) unbound
  · intro x lowX highX
    rw [Array.size_modify] at highX
    obtain ⟨fits, inside⟩ := hoisted.new x lowX highX
    by_cases same : x = first
    · subst same
      refine ⟨⟨by simp [self], ?_, ?_⟩, ?_⟩
      · intro k member
        rw [self] at member ⊢
        rcases List.mem_append.mp member with earlier | last
        · obtain ⟨nodeK, roleK, target⟩ := fits.each k earlier
          exact ⟨nodeK, roleK, kept _ _ target⟩
        · obtain rfl := List.mem_singleton.mp last
          exact ⟨node, role, own⟩
      · rw [self]
        exact fun other => absurd (role.trans overload) other
      · rw [self]
        intro k member
        rcases List.mem_append.mp member with earlier | last
        · exact List.mem_append_left _ (inside k earlier)
        · exact List.mem_append_right _ last
    · refine ⟨fits.grow (other same) kept, ?_⟩
      rw [other same]
      exact fun k member => List.mem_append_left _ (inside k member)
  · intro k member
    simp only [Array.size_modify]
    rcases List.mem_append.mp member with earlier | last
    · obtain ⟨s, lowS, highS, found, inside⟩ := hoisted.declares k earlier
      refine ⟨s, lowS, highS, kept _ _ found, ?_⟩
      by_cases same : s = first
      · subst same
        rw [self]
        exact List.mem_append_left _ inside
      · rw [other same]
        exact inside
    · obtain rfl := List.mem_singleton.mp last
      exact ⟨first, low, high, own, by rw [self]; simp⟩

theorem declare (hoisted : Hoisted N b outer ds b₁) (node : d.node ∈ N)
    (unbound : b₁.targets.find? d.mark.id = none) :
    Hoisted N b outer (ds ++ [d]) (Binding.declareOwn d b₁).2 := by
  obtain ⟨scope, here, entries⟩ := hoisted.scopes
  have widened : ∀ ns name s, scope.find? (ns, name) = some s → ∃ k ∈ ds ++ [d], k.space = ns ∧
      (b₁.targets.push d.mark.id b₁.symbols.size).find? k.mark.id = some s := by
    intro ns name s found
    obtain ⟨k, member, space, target⟩ := entries ns name s found
    exact ⟨k, List.mem_append_left _ member, space, Table.find?_push_of_some target⟩
  rw [Binding.declareOwn, Binding.declare_apply]
  cases found : b₁.here? d.space d.name.name with
  | none =>
    refine hoisted.snoc node unbound ⟨scope.insert (d.space, d.name.name) b₁.symbols.size, ?_, ?_⟩
      rfl rfl rfl fun _ member => member
    · simp [here]
    · intro ns name s inserted
      rw [Table.find?_insert] at inserted
      split at inserted
      · next same =>
        cases same
        cases inserted
        exact ⟨d, by simp, rfl, Table.find?_push_self unbound⟩
      · exact widened ns name s inserted
  | some first =>
    dsimp only
    split
    · next joins =>
      have found' : scope.find? (d.space, d.name.name) = some first := by
        simpa [here?, here] using found
      obtain ⟨k, member, _, target⟩ := entries _ _ _ found'
      obtain ⟨s, low, high, target', inside⟩ := hoisted.declares k member
      obtain rfl : s = first := Option.some.inj (target'.symm.trans target)
      obtain ⟨_, role, _⟩ := (hoisted.new s low high).1.each k inside
      rw [Bool.and_eq_true, role] at joins
      have overload := d.role_of_isFunction joins.2
      exact hoisted.join node unbound low high
        (role.trans ((k.role_of_isFunction joins.1).trans overload.symm)) overload
    · exact hoisted.snoc node unbound ⟨scope, here, widened⟩ rfl rfl rfl
        fun k member => Array.mem_push_of_mem _ member

theorem forM (hoisted : Hoisted N b outer ds b₁) (rest : List Decl) (nodes : ∀ d ∈ rest, d.node ∈ N)
    (distinct : ((ds ++ rest).map (·.mark.id)).Nodup)
    (unbound : ∀ d ∈ rest, b.targets.find? d.mark.id = none) :
    Hoisted N b outer (ds ++ rest) (rest.forM Binding.declareOwn b₁).2 := by
  induction rest generalizing ds b₁ with
  | nil =>
    rw [List.append_nil]
    exact hoisted
  | cons d rest ih =>
    rw [List.map_append, List.nodup_append] at distinct
    have apart : ∀ k ∈ ds, k.mark.id ≠ d.mark.id := fun k member =>
      distinct.2.2 _ (List.mem_map_of_mem member) _ (by simp)
    have free : b₁.targets.find? d.mark.id = none := by
      rw [hoisted.targets _ apart]
      exact unbound d List.mem_cons_self
    have step := hoisted.declare (nodes d List.mem_cons_self) free
    have tail := ih step (fun k member => nodes k (List.mem_cons_of_mem d member))
      (by simpa [List.nodup_append] using distinct)
      (fun k member => unbound k (List.mem_cons_of_mem d member))
    rw [List.append_assoc] at tail
    exact tail

end Hoisted

/-- What a state after hoisting has for a declaration, the program has too. -/
theorem Hoisted.declares_below {N : List (Node Mark)} {b b₁ : Binder} {outer : List Scope}
    {ds : List Decl} {p : BoundProgram} (hoisted : Hoisted N b outer ds b₁) (below : b₁.Below p)
    (nonempty : 0 < b.symbols.size) {d : Decl} (member : d ∈ ds) :
    ∃ s, b.symbols.size ≤ s ∧ s < b₁.symbols.size ∧ b₁.targets.find? d.mark.id = some s ∧
      p.Declares d s := by
  obtain ⟨s, low, high, target, inside⟩ := hoisted.declares d member
  have fits := (hoisted.new s low high).1
  obtain ⟨_, role, _⟩ := fits.each d inside
  have real : s ≠ Symbol.unresolvedId := Nat.ne_of_gt (Nat.lt_of_lt_of_le nonempty low)
  refine ⟨s, low, high, target, ?_, ?_, ?_, ?_⟩
  · exact Binding.symbolAt?_of_target (below.targets _ _ target) real
  · rw [below.decls s high]
    exact inside
  · rw [below.roles s high, role]
  · intro other
    obtain ⟨k, only⟩ := fits.only (below.roles s high ▸ Role.thaw_ne_function other)
    rw [only, List.mem_singleton] at inside
    rw [below.decls s high, only, inside]

namespace Hoisted

variable {N ns : List (Node Mark)} {b b₁ b₂ : Binder} {ds : List Decl} {env : List SymbolId}
  {p : BoundProgram}

theorem visible (hoisted : Hoisted N b b.scopes ds b₁) (around : b.Visible env) :
    b₁.Visible (ds.filterMap (fun d => b₁.targets.find? d.mark.id) ++ env) where
  held := by
    obtain ⟨scope, here, entries⟩ := hoisted.scopes
    rw [here]
    intro scope' member space name s found
    rcases List.mem_cons.mp member with rfl | outer
    · obtain ⟨d, declared, rfl, target⟩ := entries space name s found
      obtain ⟨s', low, high, target', inside⟩ := hoisted.declares d declared
      obtain rfl : s' = s := Option.some.inj (target'.symm.trans target)
      obtain ⟨_, role, _⟩ := (hoisted.new s' low high).1.each d inside
      refine ⟨List.mem_append_left _ (List.mem_filterMap.mpr ⟨d, declared, target⟩), ?_, ?_⟩
      · exact Nat.ne_of_gt (Nat.lt_of_lt_of_le around.nonempty low)
      · rw [role]
        exact d.role_inSpace
    · obtain ⟨inside, real, role⟩ := around.held scope' outer space name s found
      refine ⟨List.mem_append_right _ inside, real, ?_⟩
      rw [hoisted.old s (around.bound s inside)]
      exact role
  bound := by
    intro s member
    rcases List.mem_append.mp member with own | outer
    · obtain ⟨d, declared, target⟩ := List.mem_filterMap.mp own
      obtain ⟨s', _, high, target', _⟩ := hoisted.declares d declared
      obtain rfl : s' = s := Option.some.inj (target'.symm.trans target)
      exact high
    · exact Nat.lt_of_lt_of_le (around.bound s outer) hoisted.size
  nonempty := Nat.lt_of_lt_of_le around.nonempty hoisted.size

/-- Leaving the scope, all but the scope stays. -/
theorem grows (hoisted : Hoisted N b b.scopes ds b₁) (body : b₁.Grows N ns b₂) :
    b.Grows N (ds.map Decl.node ++ ns) { b₂ with scopes := b₂.scopes.tail } where
  scopes := by
    obtain ⟨scope, here, _⟩ := hoisted.scopes
    simp [body.scopes, here]
  size := Nat.le_trans hoisted.size body.size
  old x small := by
    exact (body.old x (Nat.lt_of_lt_of_le small hoisted.size)).trans (hoisted.old x small)
  kept i s found := body.kept i s (hoisted.kept i s found)
  targets i other := by
    refine (body.targets i fun n member => other n (List.mem_append_right _ member)).trans ?_
    refine hoisted.targets i fun d member => ?_
    rw [← d.node_mark]
    exact other _ (List.mem_append_left _ (List.mem_map_of_mem member))
  once distinct := body.once (hoisted.once distinct)
  assigned x member := body.assigned x (hoisted.assigned ▸ member)
  diagnostics d member := body.diagnostics d (hoisted.diagnostics d member)
  new x low high := by
    by_cases small : x < b₁.symbols.size
    · exact (hoisted.new x low small).1.grow (body.old x small) body.kept
    · exact (body.new x (Nat.not_lt.mp small) high).grow rfl fun _ _ found => found

theorem symbolsOf (hoisted : Hoisted N b b.scopes ds b₁) (below : b₁.Below p)
    (nonempty : 0 < b.symbols.size) :
    p.symbolsOf ds = ds.filterMap fun d => b₁.targets.find? d.mark.id := by
  refine List.filterMap_congr ?_
  intro d member
  obtain ⟨s, _, _, target, declares⟩ := hoisted.declares_below below nonempty member
  rw [declares.target, target]

theorem opens (hoisted : Hoisted N b b.scopes ds b₁) (below : b₁.Below p)
    (around : b.Visible env) : p.Opens env ds := by
  have own : ∀ s ∈ p.symbolsOf ds, b.symbols.size ≤ s ∧ s < b₁.symbols.size := by
    intro s member
    obtain ⟨d, declared, target⟩ := List.mem_filterMap.mp member
    obtain ⟨s', low, high, _, declares⟩ :=
      hoisted.declares_below below around.nonempty declared
    obtain rfl : s' = s := Option.some.inj (declares.target.symm.trans target)
    exact ⟨low, high⟩
  refine ⟨?_, ?_, ?_⟩
  · intro d member
    obtain ⟨s, _, _, _, declares⟩ := hoisted.declares_below below around.nonempty member
    exact ⟨s, declares⟩
  · intro s member d decl
    obtain ⟨low, high⟩ := own s member
    rw [below.decls s high] at decl
    exact (hoisted.new s low high).2 d decl
  · intro s member visible
    exact Nat.not_lt.mpr (own s member).1 (around.bound s visible)

end Hoisted

end Binder

namespace Binding

theorem inScope_apply (a : Binding Unit) (b : Binder) :
    (inScope a b).2 =
      { (a { b with scopes := Table.empty :: b.scopes }).2 with
        scopes := (a { b with scopes := Table.empty :: b.scopes }).2.scopes.tail } := rfl

end Binding

open Binder in
/-- A scope of its own: its declarations are visible in the whole of it. -/
theorem Binds.scope {H : BoundProgram → Prop} {N ns : List (Node Mark)} (env : List SymbolId)
    (ds : List Decl) {body : Binding Unit} {P : List SymbolId → BoundProgram → Prop}
    (inner : ∀ env', Binds H N env' ns body (P env')) :
    Binds H N env (ds.map Decl.node ++ ns)
      (Binding.inScope do ds.forM Binding.declareOwn; body)
      fun p => p.Opens env ds ∧ P (p.symbolsOf ds ++ env) p := by
  intro inside distinct b unbound visible
  rw [List.map_append, List.nodup_append] at distinct
  obtain ⟨distinctDs, distinctNs, apart⟩ := distinct
  have ids : (ds.map Decl.node).map (·.mark.id) = ds.map (·.mark.id) := by
    simp [Decl.node_mark]
  rw [ids] at distinctDs apart
  have unboundDs : ∀ d ∈ ds, b.targets.find? d.mark.id = none := by
    intro d member
    have free := unbound d.node (List.mem_append_left _ (List.mem_map_of_mem member))
    rwa [Decl.node_mark] at free
  have hoisted := (Hoisted.nil N b).forM ds
    (fun d member => inside (List.mem_append_left _ (List.mem_map_of_mem member)))
    distinctDs unboundDs
  rw [Binding.inScope_apply, Binding.bind_apply]
  rw [List.nil_append] at hoisted
  generalize (ds.forM Binding.declareOwn { b with scopes := Table.empty :: b.scopes }).2 = b₁
    at hoisted ⊢
  have unboundNs : ∀ n ∈ ns, b₁.targets.find? n.mark.id = none := by
    intro n member
    rw [hoisted.targets n.mark.id]
    · exact unbound n (List.mem_append_right _ member)
    · intro d declared
      exact apart _ (List.mem_map_of_mem declared) _ (List.mem_map_of_mem member)
  obtain ⟨grows, holds⟩ := inner _ (fun n member => inside (List.mem_append_right _ member))
    distinctNs b₁ unboundNs (hoisted.visible visible)
  refine ⟨hoisted.grows grows, ?_⟩
  intro p ends clean
  have ends' : (body b₁).2.Ends ns p :=
    { ends with exact := fun n member => ends.exact n (List.mem_append_right _ member) }
  have below := grows.below ends'.toBelow
  refine ⟨hoisted.opens below visible, ?_⟩
  rw [hoisted.symbolsOf below visible.nonempty]
  exact holds p ends' clean

/-! ### Trees -/

theorem Binding.hoist_eq (ss : List (Stmt Mark)) :
    ss.forM Binding.hoist = (ss.filterMap Stmt.decl?).forM Binding.declareOwn := by
  induction ss with
  | nil => rfl
  | cons s ss ih =>
    change (do Binding.hoist s; ss.forM Binding.hoist) = _
    rw [ih]
    cases s <;> rfl

theorem Binding.params_eq (ps : List (Param Mark)) :
    (ps.forM fun q => Binding.declare .value .param (.param q)) =
      (ps.map Decl.param).forM Binding.declareOwn := by
  induction ps with
  | nil => rfl
  | cons q ps ih =>
    change (do Binding.declareOwn (.param q); ps.forM _) = _
    rw [ih]
    rfl

/-- An assignment resolves and notes its target, then binds what is assigned. -/
theorem Expr.assign_bind (m : Mark) (x : Ident Mark) (e : Expr Mark) :
    (Expr.assign m x e).bind = (do
      (do
        let s ← Binding.resolveValue x
        if s ≠ Symbol.unresolvedId then Binding.assign s)
      e.bind) := by
  funext b
  simp only [Expr.bind, Binding.bind_apply]
  split <;> rfl

def Stmt.inner : Stmt Mark → List (Node Mark)
  | .val ⟨_, _, x, t, e⟩ => .ident x :: tyNodes? t ++ e.nodes
  | .typeAlias ⟨_, x, t⟩ => .ident x :: t.nodes
  | .fn ⟨_, x, ps, t, e⟩ => .ident x :: paramsNodes ps ++ tyNodes? t ++ e.nodes
  | .expr _ e => e.nodes

theorem Stmt.inner_append : ∀ s : Stmt Mark, s.inner ++ [.stmt s] = s.nodes
  | .val ⟨_, _, _, _, _⟩ | .typeAlias ⟨_, _, _⟩ | .fn ⟨_, _, _, _, _⟩ | .expr _ _ => rfl

/-- The declarations of statements and the nodes inside the statements are different nodes. -/
theorem declarations_subperm (ss : List (Stmt Mark)) :
    ((ss.filterMap Stmt.decl?).map Decl.node ++ ss.flatMap Stmt.inner).Subperm
      (stmtsNodes ss) := by
  induction ss with
  | nil => exact List.Subperm.refl _
  | cons s ss ih =>
    have own : (s.decl?.toList.map Decl.node).Subperm [.stmt s] := by
      cases s <;> simp [Stmt.decl?, Decl.node, List.Subperm.refl]
    have head : (s.decl?.toList.map Decl.node ++ s.inner).Subperm s.nodes := by
      rw [← s.inner_append]
      exact (List.Subperm.append own (.refl _)).trans List.perm_append_comm.subperm
    have split : (s :: ss).filterMap Stmt.decl? = s.decl?.toList ++ ss.filterMap Stmt.decl? := by
      cases h : s.decl? <;> simp [h]
    rw [split, List.map_append, List.flatMap_cons, stmtsNodes]
    refine List.Subperm.trans (List.Perm.subperm ?_) (head.append ih)
    rw [List.append_assoc, List.append_assoc]
    exact List.Perm.append_left _ (List.perm_append_comm_assoc _ _ _)

theorem parameters_subperm (ps : List (Param Mark)) :
    ((ps.map Decl.param).map Decl.node ++ ps.flatMap (·.ty.nodes)).Subperm (paramsNodes ps) := by
  induction ps with
  | nil => exact List.Subperm.refl _
  | cons q ps ih =>
    obtain ⟨m, x, t⟩ := q
    have head : ([Node.param ⟨m, x, t⟩] ++ t.nodes).Subperm (Param.nodes ⟨m, x, t⟩) := by
      rw [Param.nodes]
      exact List.perm_append_comm.subperm.trans
        (List.sublist_cons_self _ (t.nodes ++ [_])).subperm
    rw [List.flatMap_cons, paramsNodes]
    refine List.Subperm.trans (List.Perm.subperm ?_) (head.append ih)
    rw [List.append_assoc]
    exact List.Perm.append_left [_] (List.perm_append_comm_assoc _ _ _)

section
variable {N : List (Node Mark)}

mutual
theorem Expr.binds (env : List SymbolId) :
    ∀ e : Expr Mark, Binds BoundProgram.Clean N env e.nodes e.bind fun p => e.Scoped p env
  | .lit _ => (Binds.nothing N env).widen (List.nil_subperm)
  | .host _ _ => (Binds.nothing N env).widen (List.nil_subperm)
  | .name _ => Binding.name_binds rfl
  | .paren _ e => (e.binds env).widen (List.sublist_append_left _ _).subperm
  | .unary _ _ e => (e.binds env).widen (List.sublist_append_left _ _).subperm
  | .bin _ _ l r => ((l.binds env).seq (r.binds env)).widen (List.sublist_append_left _ _).subperm
  | .call _ f args =>
    ((Binding.name_binds (n := .ident f) rfl).seq (exprs_binds env args)).widen
      (List.sublist_append_left _ _).subperm
  | .block _ ss tail => by
    rw [Expr.bind, Binding.hoist_eq]
    have inner := fun env => (stmts_binds env ss).seq (tail_binds env tail)
    have scope := Binds.scope env (ss.filterMap Stmt.decl?) inner
    refine scope.widen ?_
    rw [← List.append_assoc]
    exact ((declarations_subperm ss).append (.refl _)).trans
      (List.sublist_append_left _ _).subperm
  | .assign m x e => by
    rw [Expr.assign_bind]
    exact ((Binding.target_binds (n := .ident x) rfl).seq (e.binds env)).widen
      (List.sublist_append_left _ _).subperm
  | .cases _ e arms =>
    ((e.binds env).seq (arms_binds env arms)).widen (List.sublist_append_left _ _).subperm
  | .inhabitant _ t => (t.binds env).widen (List.sublist_append_left _ _).subperm

theorem exprs_binds (env : List SymbolId) : ∀ es : List (Expr Mark),
    Binds BoundProgram.Clean N env (exprsNodes es) (bindExprs es) fun p => exprsScoped p env es
  | [] => Binds.nothing N env
  | e :: es => (e.binds env).seq (exprs_binds env es)

theorem tail_binds (env : List SymbolId) : ∀ tail : Option (Expr Mark),
    Binds BoundProgram.Clean N env (tailNodes tail) (bindTail tail) fun p => tailScoped p env tail
  | none => Binds.nothing N env
  | some e => e.binds env

theorem arms_binds (env : List SymbolId) : ∀ arms : List (Arm Mark),
    Binds BoundProgram.Clean N env (armsNodes arms) (bindArms arms) fun p => armsScoped p env arms
  | [] => Binds.nothing N env
  | ⟨_, p, e⟩ :: arms => by
    refine ((p.binds env).seq ((e.binds env).seq (arms_binds env arms))).widen ?_
    rw [armsNodes, Arm.nodes, ← List.append_assoc]
    exact ((List.sublist_append_left _ _).append (.refl _)).subperm

theorem Pat.binds (env : List SymbolId) :
    ∀ p : Pat Mark, Binds BoundProgram.Clean N env p.nodes p.bind fun q => p.Scoped q env
  | .wildcard _ => (Binds.nothing N env).widen (List.nil_subperm)
  | .lit _ _ => (Binds.nothing N env).widen (List.nil_subperm)
  | .typed _ t => (t.binds env).widen (List.sublist_append_left _ _).subperm

theorem TyNode.binds (env : List SymbolId) :
    ∀ t : TyNode Mark, Binds BoundProgram.Clean N env t.nodes t.bind fun p => t.Scoped p env
  | .refer _ x =>
    (Binding.type_binds (n := .ident x) rfl).widen (List.sublist_append_left [_] [_]).subperm
  | .singleton _ e => (e.binds env).widen (List.sublist_append_left _ _).subperm
  | .lit _ _ _ => (Binds.nothing N env).widen (List.nil_subperm)
  | .paren _ t => (t.binds env).widen (List.sublist_append_left _ _).subperm

theorem ty?_binds (env : List SymbolId) : ∀ t : Option (TyNode Mark),
    Binds BoundProgram.Clean N env (tyNodes? t) (bindTy? t) fun p => tyScoped? p env t
  | none => Binds.nothing N env
  | some t => t.binds env

theorem params_binds (env : List SymbolId) : ∀ ps : List (Param Mark),
    Binds BoundProgram.Clean N env (ps.flatMap (·.ty.nodes)) (bindParams ps) fun p =>
      paramsScoped p env ps
  | [] => Binds.nothing N env
  | ⟨_, _, t⟩ :: ps => (t.binds env).seq (params_binds env ps)

theorem Stmt.binds (env : List SymbolId) :
    ∀ s : Stmt Mark, Binds BoundProgram.Clean N env s.inner s.bind fun p => s.Scoped p env
  | .val ⟨_, _, _, t, e⟩ =>
    ((ty?_binds env t).seq (e.binds env)).widen (List.sublist_cons_self _ _).subperm
  | .typeAlias ⟨_, _, t⟩ => (t.binds env).widen (List.sublist_cons_self _ _).subperm
  | .fn ⟨_, _, ps, t, e⟩ => by
    rw [Stmt.bind, Binding.params_eq]
    have inner := fun env =>
      (params_binds env ps).seq ((ty?_binds env t).seq (e.binds env))
    have scope := Binds.scope env (ps.map Decl.param) inner
    refine scope.widen ?_
    rw [← List.append_assoc]
    refine List.Subperm.trans ?_
      (List.sublist_cons_self _ (paramsNodes ps ++ tyNodes? t ++ e.nodes)).subperm
    rw [List.append_assoc (paramsNodes ps)]
    exact (parameters_subperm ps).append (.refl _)
  | .expr _ e => e.binds env

theorem stmts_binds (env : List SymbolId) : ∀ ss : List (Stmt Mark),
    Binds BoundProgram.Clean N env (ss.flatMap Stmt.inner) (bindStmts ss) fun p =>
      stmtsScoped p env ss
  | [] => Binds.nothing N env
  | s :: ss => (s.binds env).seq (stmts_binds env ss)
end

end

/-! ### Programs -/

/-- A symbol's declarations are nodes of the program that stand for it. -/
structure BoundProgram.Owns (p : BoundProgram) (x : SymbolId) : Prop where
  declared : (p.symbol x).decls ≠ []
  each : ∀ d ∈ (p.symbol x).decls,
    d.node ∈ p.program.nodes ∧ (p.symbol x).role.thaw = d.role ∧ p.symbolAt? d.mark.id = some x
  only : (p.symbol x).role ≠ .function → ∃ d, (p.symbol x).decls = [d]

/-- What binding makes of a program with distinct node numbers, if it reports nothing. -/
structure BoundProgram.WellBound (p : BoundProgram) : Prop where
  distinct : (p.program.nodes.map (·.mark.id)).Nodup
  opens : p.Opens [1] (p.program.stmts.filterMap Stmt.decl?)
  names : stmtsScoped p (p.declared p.program.stmts ++ [1]) p.program.stmts
  owns : ∀ x, 1 < x → x < p.symbols.size → p.Owns x
  unresolved : p.symbol 0 = .unresolved
  builtin : p.symbol 1 = ⟨Keyword.println, .builtin, []⟩

namespace Binder

variable {N ns : List (Node Mark)} {b : Binder}

theorem symbol_freeze (b : Binder) (x : SymbolId) :
    (b.freeze.getD x .unresolved) =
      match (b.symbol x).role with
      | .var _ => { b.symbol x with role := .var (!b.assigned.contains x) }
      | _ => b.symbol x := by
  by_cases small : x < b.symbols.size
  · cases role : (b.symbols[x]).role <;>
      simp [freeze, symbol, Array.getD_eq_getD_getElem?, small, role]
  · simp [freeze, symbol, Array.getD_eq_getD_getElem?, small, Symbol.unresolved]

theorem start_visible : start.Visible [1] where
  held := by
    intro scope member ns name s found
    obtain rfl := List.mem_singleton.mp member
    rw [Table.find?_insert] at found
    split at found
    · next same =>
      cases same
      cases found
      exact ⟨List.mem_singleton.mpr rfl, by decide, rfl⟩
    · cases found
  bound := by
    intro s member
    obtain rfl := List.mem_singleton.mp member
    decide
  nonempty := by decide

theorem Grows.thawed (grows : start.Grows N ns b) (x : SymbolId) :
    (b.symbol x).role.thaw = (b.symbol x).role := by
  by_cases small : x < b.symbols.size
  · by_cases first : x < 2
    · rw [grows.old x first]
      match x, first with
      | 0, _ => rfl
      | 1, _ => rfl
    · have fits := grows.new x (Nat.not_lt.mp first) small
      obtain ⟨d, member⟩ := List.exists_mem_of_ne_nil _ fits.declared
      rw [(fits.each d member).2.1, d.role_thaw]
  · rw [symbol, Array.getD_eq_getD_getElem?, Array.getElem?_eq_none (Nat.not_lt.mp small)]
    rfl

def toBound (b : Binder) (src : Source) : BoundProgram :=
  ⟨src.program, src.names, b.freeze, b.targets, b.diagnostics.toList⟩

theorem Grows.below_toBound (grows : start.Grows N ns b) (src : Source) :
    b.Below (b.toBound src) where
  targets _ _ found := found
  decls x _ := by
    rw [BoundProgram.symbol, toBound, symbol_freeze]
    split <;> rfl
  roles x _ := by
    rw [BoundProgram.symbol, toBound, symbol_freeze]
    split
    · next frozen isVar =>
      have thawed := grows.thawed x
      rw [isVar] at thawed
      rw [isVar, ← thawed]
      rfl
    · exact grows.thawed x
  assigned x member := by
    rw [BoundProgram.symbol, toBound, symbol_freeze]
    split
    · simp [member]
    · next notVar => exact notVar true
  diagnostics _ member := Array.mem_toList_iff.mpr member

end Binder

theorem Binder.size_toBound (b : Binder) (src : Source) :
    (b.toBound src).symbols.size = b.symbols.size := Array.size_mapIdx

theorem Source.bind_wellBound (src : Source)
    (distinct : (src.program.nodes.map (·.mark.id)).Nodup) (clean : src.bind.Clean) :
    src.bind.WellBound := by
  have binds := (Binds.scope (N := src.program.nodes) [1]
    (src.program.stmts.filterMap Stmt.decl?) fun env => stmts_binds env src.program.stmts).widen
      ((declarations_subperm src.program.stmts).trans
        (List.sublist_append_left _ [Node.program src.program]).subperm)
  rw [← Binding.hoist_eq] at binds
  obtain ⟨grows, holds⟩ := binds (List.Subset.refl _) distinct .start (fun _ _ => rfl)
    Binder.start_visible
  have whole : src.bind = ((Binding.inScope do
      src.program.stmts.forM Binding.hoist
      bindStmts src.program.stmts) .start).2.toBound src := rfl
  rw [whole] at clean ⊢
  generalize ((Binding.inScope do
    src.program.stmts.forM Binding.hoist
    bindStmts src.program.stmts) .start).2 = b at grows holds clean ⊢
  have below := grows.below_toBound src
  obtain ⟨opens, names⟩ := holds _ ⟨below, fun _ _ => rfl⟩ clean
  refine ⟨distinct, opens, names, ?_, ?_, ?_⟩
  · intro x low high
    rw [b.size_toBound] at high
    have fits := grows.new x low high
    have real : x ≠ Symbol.unresolvedId := Nat.ne_of_gt (Nat.lt_of_succ_lt low)
    refine ⟨by rw [below.decls x high]; exact fits.declared, ?_, ?_⟩
    · rw [below.decls x high]
      intro d member
      obtain ⟨node, role, target⟩ := fits.each d member
      exact ⟨node, (below.roles x high).trans role,
        Binding.symbolAt?_of_target (below.targets _ _ target) real⟩
    · intro other
      rw [below.decls x high]
      exact fits.only (below.roles x high ▸ Role.thaw_ne_function other)
  · rw [BoundProgram.symbol, Binder.toBound, Binder.symbol_freeze, grows.old 0 (by decide)]
    rfl
  · rw [BoundProgram.symbol, Binder.toBound, Binder.symbol_freeze, grows.old 1 (by decide)]
    rfl

end Solo

import Solo.Proofs.AddedScopes

/-!
# Symbols with functions added

How a program with functions added is bound. Every symbol has its counterpart, the symbol of the
counterpart of its first declaration, and every node stands for the counterpart of what it stood
for. Symbols that are none's counterpart belong to the added functions, and what is reported is
reported there.
-/

namespace Solo

/-- The symbol that a symbol becomes with functions added. What no symbol has as its number gets
numbers that no symbol has. -/
def BoundProgram.counterpart (p p' : BoundProgram) (ν : NodeId → NodeId) (x : SymbolId) : SymbolId :=
  match (p.symbol x).decls.head? with
  | some d => (p'.targets.find? (ν d.mark.id)).getD Symbol.unresolvedId
  | none => if x < 2 then x else p'.symbols.size + x

theorem Role.isVar_thaw (r : Role) : r.thaw.isVar = r.isVar := by
  cases r <;> rfl

theorem Role.eq_of_thaw {r r' : Role} (same : r.thaw = r'.thaw)
    (frozen : r = .var true ↔ r' = .var true) : r = r' := by
  cases r with
  | var b =>
    cases r' with
    | var b' => cases b <;> cases b' <;> first | rfl | cases frozen.mp rfl | cases frozen.mpr rfl
    | _ => cases same
  | _ => cases r' <;> first | exact same | cases same

namespace Source

theorem two_symbols (src : Source) : 2 ≤ src.bind.symbols.size := by
  obtain ⟨b, same, enters⟩ := src.bind_enters
  rw [same, b.size_toBound]
  exact enters.size

theorem symbol_first (src : Source) {x : SymbolId} (first : x < 2) :
    src.bind.symbol x = Binder.start.symbol x := by
  obtain ⟨b, same, enters⟩ := src.bind_enters
  rw [same, BoundProgram.symbol, Binder.toBound, Binder.symbol_freeze, enters.old x first]
  rcases Nat.le_one_iff_eq_zero_or_eq_one.mp (Nat.le_of_lt_succ first) with rfl | rfl
  · rfl
  · rfl

/-- What has no declaration is one of the first two symbols or none. -/
theorem undeclared_cases (src : Source) {x : SymbolId} (bare : (src.bind.symbol x).decls = []) :
    x < 2 ∨ src.bind.symbols.size ≤ x ∧ src.bind.symbol x = .unresolved := by
  by_cases small : x < src.bind.symbols.size
  · rcases src.referent_cases small with ⟨rfl, _⟩ | ⟨rfl, _⟩ | ⟨_, i, own⟩
    · exact .inl (by decide)
    · exact .inl (by decide)
    · obtain ⟨d, member, _⟩ := Symbol.decl_of_referent own
      rw [bare] at member
      cases member
  · have large := Nat.not_lt.mp small
    exact .inr ⟨large, BoundProgram.WellBound.symbol_of_large large⟩

/-- A declaration is one of the symbol that it stands for. -/
theorem mem_decls {src : Source} (ground : src.bind.Grounded) {d : Decl}
    (node : d.node ∈ src.program.nodes) {x : SymbolId} :
    d ∈ (src.bind.symbol x).decls ↔ src.bind.targets.find? d.mark.id = some x := by
  refine ⟨ground.target x d, fun target => ?_⟩
  have listed : d ∈ src.program.declarations := List.mem_filterMap.mpr ⟨_, node, Node.decl?_node d⟩
  obtain ⟨y, _, target', own⟩ := bind_declares ground listed
  exact (own x).mpr (Option.some.inj (target.symm.trans target'))

/-- The declarations of a symbol are those of their scope that stand for it. -/
theorem decls_eq_filter {src : Source} (ground : src.bind.Grounded) {n : Node Mark}
    (node : n ∈ src.program.nodes) {d : Decl} (inside : d ∈ n.locals) {x : SymbolId}
    (member : d ∈ (src.bind.symbol x).decls) : (src.bind.symbol x).decls =
      n.locals.filter fun k => src.bind.targets.find? k.mark.id = some x := by
  have own (k : Decl) (local' : k ∈ n.locals) : k ∈ (src.bind.symbol x).decls ↔
      src.bind.targets.find? k.mark.id = some x := mem_decls ground (Program.mem_locals node local')
  obtain ⟨m, node', gathers⟩ := bind_gathers (List.ne_nil_of_mem member)
  have same : m = n := by
    refine ground.scope_unique node' node (d := d) ?_ inside
    rcases gathers with ⟨k, among, only⟩ | ⟨name, all⟩
    · rw [only, List.mem_singleton] at member
      exact member ▸ among
    · rw [all] at member
      exact (List.mem_filter.mp member).1
  subst same
  rcases gathers with ⟨k, among, only⟩ | ⟨name, all⟩
  · have distinct := List.Nodup.of_map _ (ground.locals_distinct node')
    rw [only]
    refine (List.perm_singleton.mp ((List.perm_ext_iff_of_nodup (distinct.filter _)
      (List.nodup_singleton k)).mpr fun j => ?_)).symm
    rw [List.mem_filter, decide_eq_true_eq, ← only]
    exact ⟨fun ⟨local', target⟩ => (own j local').mpr target, fun mine =>
      have local' : j ∈ m.locals := by
        rw [only, List.mem_singleton] at mine
        exact mine ▸ among
      ⟨local', (own j local').mp mine⟩⟩
  · rw [all, Decl.overloads]
    refine List.filter_congr fun k local' => ?_
    rw [Bool.eq_iff_iff, decide_eq_true_eq, ← own k local', all, Decl.overloads, List.mem_filter]
    exact ⟨fun fits => ⟨local', fits⟩, And.right⟩

theorem decls_single {src : Source} (ground : src.bind.Grounded) {x : SymbolId}
    (other : (src.bind.symbol x).role ≠ .function) :
    (src.bind.symbol x).decls = [] ∨ ∃ d, (src.bind.symbol x).decls = [d] := by
  by_cases bare : (src.bind.symbol x).decls = []
  · exact .inl bare
  obtain ⟨n, _, ⟨d, _, only⟩ | ⟨name, all⟩⟩ := bind_gathers bare
  · exact .inr ⟨d, only⟩
  · obtain ⟨d, member⟩ := List.exists_mem_of_ne_nil _ bare
    have thawed := ground.role x d member
    rw [all] at member
    have isFn := (List.mem_filter.mp member).2
    rw [Bool.and_eq_true, ← d.role_isFunction] at isFn
    rw [d.role_of_isFunction isFn.1] at thawed
    exact absurd thawed (Role.thaw_ne_function other)

end Source

/-- A source that is bound without an error, and the same source with functions added. -/
structure Source.Gains (ν : NodeId → NodeId) (src src' : Source) : Prop where
  program : src.program.Gains ν src'.program
  injective : ν.Injective
  nested : src.bind.WellNested
  nested' : src'.bind.WellNested
  clean : src.bind.Clean
  /-- No added function assigns a variable that was assigned nowhere. -/
  steady : ∀ x, (src.bind.symbol x).role = .var true → ∀ m y e,
    .expr (.assign m y e) ∈ src'.program.nodes → m.id ∉ Set.range ν →
      src'.bind.symbolAt? y.mark.id ≠ some (src.bind.counterpart src'.bind ν x)

namespace Source.Gains

variable {ν : NodeId → NodeId} {src src' : Source} (gains : src.Gains ν src')
include gains

/-! ### References -/

theorem silent : ∀ n ∈ src.program.nodes, Decl.clashes [] n.locals = [] := by
  have none : src.bind.diagnostics.filter (·.isDuplicateName) = [] := by
    refine List.filter_eq_nil_iff.mpr fun d member duplicate => ?_
    have mild := gains.clean d member
    obtain ⟨span, problem⟩ := d
    cases problem with
    | duplicateName name first =>
      have error : (⟨span, .duplicateName name first⟩ : Diagnostic).isError = true := rfl
      cases error.symm.trans mild
    | _ => cases duplicate
  have reports := src.bind_duplicates
  rw [none] at reports
  exact List.flatMap_eq_nil_iff.mp reports.symm.eq_nil

theorem unambiguous : ∀ n ∈ src.program.nodes, Decl.Unambiguous n.locals := fun n node =>
  Decl.unambiguous_of_clashes (gains.silent n node)

theorem references : ReferencesJoin ν src.program src'.program src.program.references
    src'.program.references :=
  gains.program.references gains.unambiguous fun _ node => gains.nested'.toGrounded.locals_distinct node

theorem openers_unique {k k' l l' : Decl} (first : k.Openers ν src.program src'.program k')
    (second : l.Openers ν src.program src'.program l')
    (same : k.mark.id = l.mark.id ∨ k'.mark.id = l'.mark.id) : k = l ∧ k' = l' := by
  obtain ⟨n, node, n', node', own, space, name, known, known'⟩ := first
  obtain ⟨m, node₁, m', node₁', own₁, space₁, name₁, known₁, known₁'⟩ := second
  have ground := gains.nested.toGrounded
  have ground' := gains.nested'.toGrounded
  obtain ⟨inside, rfl, rfl⟩ := Decl.first?_some known
  obtain ⟨inside₁, rfl, rfl⟩ := Decl.first?_some known₁
  obtain ⟨inside', sameSpace, sameName⟩ := Decl.first?_some known'
  obtain ⟨inside₁', sameSpace₁, sameName₁⟩ := Decl.first?_some known₁'
  rcases same with same | same
  · obtain rfl := ground.decl_unique (Program.mem_locals node inside)
      (Program.mem_locals node₁ inside₁) same
    obtain rfl := ground.scope_unique node node₁ inside inside₁
    obtain rfl := ground'.node_unique node' node₁' (own.id.trans own₁.id.symm)
    exact ⟨rfl, Option.some.inj (known'.symm.trans known₁')⟩
  · obtain rfl := ground'.decl_unique (Program.mem_locals node' inside')
      (Program.mem_locals node₁' inside₁') same
    obtain rfl := ground'.scope_unique node' node₁' inside' inside₁'
    obtain rfl := ground.node_unique node node₁ (gains.injective (own.id.symm.trans own₁.id))
    rw [← sameSpace, ← sameName, sameSpace₁, sameName₁] at known
    exact ⟨Option.some.inj (known.symm.trans known₁), rfl⟩

/-- What names stand for is the same if and only if the counterparts are. -/
theorem matches_iff {r r' s s' : Referent} (first : r.Matches ν src.program src'.program r')
    (second : s.Matches ν src.program src'.program s') : r = s ↔ r' = s' := by
  cases first with
  | decl openers =>
    cases second with
    | decl openers₁ =>
      rw [Referent.decl.injEq, Referent.decl.injEq]
      constructor
      · intro same
        rw [(gains.openers_unique openers openers₁ (.inl same)).2]
      · intro same
        rw [(gains.openers_unique openers openers₁ (.inr same)).1]
    | _ => exact ⟨nofun, nofun⟩
  | _ => cases second <;> simp

theorem stands (i : NodeId) : Option.Rel
    (fun x x' => (src.bind.referent x).Matches ν src.program src'.program (src'.bind.referent x'))
    (src.bind.targets.find? i) (src'.bind.targets.find? (ν i)) := by
  have related := gains.references.look gains.injective i
  have table (s : Source) (j : NodeId) : Table.look j (s.program.references.map fun r =>
      (r.mark.id, r.referent)) = (s.bind.targets.find? j).map s.bind.referent := by
    rw [← Table.find?_mapValues, s.bind_resolution]
    rfl
  rw [table, table] at related
  generalize src.bind.targets.find? i = x at related
  generalize src'.bind.targets.find? (ν i) = x' at related
  cases x <;> cases x' <;> cases related
  · exact .none
  · next related => exact .some related

/-! ### Symbols -/

omit gains in
/-- What has no declaration has none with functions added. -/
theorem undeclared {x : SymbolId} (bare : (src.bind.symbol x).decls = []) :
    src'.bind.symbol (src.bind.counterpart src'.bind ν x) = src.bind.symbol x ∧
      (x < 2 ∧ src.bind.counterpart src'.bind ν x = x ∨
        2 ≤ x ∧ src.bind.symbols.size ≤ x ∧
          src.bind.counterpart src'.bind ν x = src'.bind.symbols.size + x) := by
  rw [BoundProgram.counterpart, bare]
  dsimp only [List.head?_nil]
  split
  · next first => exact ⟨by rw [src.symbol_first first, src'.symbol_first first], .inl ⟨first, rfl⟩⟩
  · next later =>
    obtain ⟨large, own⟩ := (src.undeclared_cases bare).resolve_left later
    refine ⟨?_, .inr ⟨Nat.not_lt.mp later, large, rfl⟩⟩
    rw [own, BoundProgram.WellBound.symbol_of_large (Nat.le_add_right _ _)]

theorem counterpart_head {x : SymbolId} {d : Decl} {rest : List Decl}
    (decls : (src.bind.symbol x).decls = d :: rest) :
    src'.bind.targets.find? (ν d.mark.id) = some (src.bind.counterpart src'.bind ν x) ∧
      (src.bind.referent x).Matches ν src.program src'.program
        (src'.bind.referent (src.bind.counterpart src'.bind ν x)) := by
  have target := gains.nested.target x d (decls ▸ List.mem_cons_self)
  have related := gains.stands d.mark.id
  rw [target] at related
  rw [BoundProgram.counterpart, decls]
  cases found : src'.bind.targets.find? (ν d.mark.id) with
  | none =>
    rw [found] at related
    cases related
  | some y =>
    rw [found] at related
    cases related with
    | some related => simpa [found] using related

theorem referent_counterpart (x : SymbolId) : (src.bind.referent x).Matches ν src.program
    src'.program (src'.bind.referent (src.bind.counterpart src'.bind ν x)) := by
  cases decls : (src.bind.symbol x).decls with
  | cons d rest => exact (gains.counterpart_head decls).2
  | nil =>
    rw [BoundProgram.referent, BoundProgram.referent, (undeclared decls).1, Symbol.referent, decls]
    dsimp only
    split
    · exact .builtin
    · exact .unknown

theorem counterpart_small {x : SymbolId} :
    src.bind.counterpart src'.bind ν x < src'.bind.symbols.size ↔ x < src.bind.symbols.size := by
  cases decls : (src.bind.symbol x).decls with
  | cons d rest =>
    have target := gains.nested.target x d (decls ▸ List.mem_cons_self)
    exact ⟨fun _ => src.bind_bounded target, fun _ =>
      src'.bind_bounded (gains.counterpart_head decls).1⟩
  | nil =>
    have two := src.two_symbols
    have two' := src'.two_symbols
    rcases (undeclared decls).2 with ⟨first, same⟩ | ⟨_, large, same⟩
    · rw [same]
      exact ⟨fun _ => Nat.lt_of_lt_of_le first two, fun _ => Nat.lt_of_lt_of_le first two'⟩
    · rw [same]
      exact ⟨fun small => absurd small (by simp), fun small => absurd small (Nat.not_lt.mpr large)⟩

theorem counterpart_injective : (src.bind.counterpart src'.bind ν).Injective := by
  intro x y same
  by_cases small : x < src.bind.symbols.size
  · have small' := gains.counterpart_small.mp (same ▸ gains.counterpart_small.mpr small)
    refine src.referent_injective gains.nested.toGrounded small small' ?_
    refine (gains.matches_iff (gains.referent_counterpart x) (gains.referent_counterpart y)).mpr ?_
    rw [same]
  · have large (z : SymbolId) (large : ¬z < src.bind.symbols.size) :
        src.bind.counterpart src'.bind ν z = src'.bind.symbols.size + z := by
      have bare : (src.bind.symbol z).decls = [] := by
        rw [BoundProgram.WellBound.symbol_of_large (Nat.not_lt.mp large)]
        rfl
      have two := src.two_symbols
      rcases (undeclared bare).2 with ⟨first, _⟩ | ⟨_, _, own⟩
      · exact absurd (Nat.lt_of_lt_of_le first two) large
      · exact own
    have small' : ¬y < src.bind.symbols.size := fun small' =>
      small (gains.counterpart_small.mp (same ▸ gains.counterpart_small.mpr small'))
    rw [large x small, large y small'] at same
    exact Nat.add_left_cancel same

omit gains in
theorem counterpart_unresolved :
    src.bind.counterpart src'.bind ν Symbol.unresolvedId = Symbol.unresolvedId := by
  have bare : (src.bind.symbol Symbol.unresolvedId).decls = [] := by
    rw [src.symbol_first (by decide)]
    rfl
  rcases (undeclared bare).2 with ⟨_, same⟩ | ⟨wrong, _⟩
  · exact same
  · exact absurd wrong (by decide)

/-- Every node stands for the counterpart of what it stood for. -/
theorem targets (i : NodeId) : src'.bind.targets.find? (ν i) =
    (src.bind.targets.find? i).map (src.bind.counterpart src'.bind ν) := by
  have related := gains.stands i
  cases target : src.bind.targets.find? i with
  | none =>
    rw [target] at related
    cases found : src'.bind.targets.find? (ν i) with
    | none => rfl
    | some =>
      rw [found] at related
      cases related
  | some x =>
    rw [target] at related
    cases found : src'.bind.targets.find? (ν i) with
    | none =>
      rw [found] at related
      cases related
    | some y =>
      rw [found] at related
      cases related with
      | some related =>
        have same := (gains.matches_iff related (gains.referent_counterpart x)).mp rfl
        rw [src'.referent_injective gains.nested'.toGrounded (src'.bind_bounded found)
          (gains.counterpart_small.mpr (src.bind_bounded target)) same]
        rfl

theorem target_iff {i : NodeId} {x : SymbolId} :
    src'.bind.targets.find? (ν i) = some (src.bind.counterpart src'.bind ν x) ↔
      src.bind.targets.find? i = some x := by
  rw [gains.targets]
  exact ⟨fun same => Option.map_injective gains.counterpart_injective same, fun same => same ▸ rfl⟩

/-- The counterparts of declarations are declarations of the counterpart. -/
theorem declares {x : SymbolId} {d d' : Decl} (own : d.Gains ν d')
    (node : d.node ∈ src.program.nodes) (node' : d'.node ∈ src'.program.nodes) :
    d' ∈ (src'.bind.symbol (src.bind.counterpart src'.bind ν x)).decls ↔
      d ∈ (src.bind.symbol x).decls := by
  rw [Source.mem_decls gains.nested'.toGrounded node', Source.mem_decls gains.nested.toGrounded node,
    own.id, gains.target_iff]

/-- The declarations of a counterpart are counterparts and added functions. -/
theorem decls (x : SymbolId) :
    Joins (Decl.Gains ν) (fun d => ∃ k, d = .fn k ∧ k.mark.id ∉ Set.range ν)
      (src.bind.symbol x).decls
      (src'.bind.symbol (src.bind.counterpart src'.bind ν x)).decls := by
  cases decls : (src.bind.symbol x).decls with
  | nil =>
    rw [(undeclared decls).1, decls]
    exact .nil
  | cons d rest =>
    have member : d ∈ (src.bind.symbol x).decls := decls ▸ List.mem_cons_self
    have node := gains.nested.decl x d member
    obtain ⟨n, scope, inside⟩ : ∃ n ∈ src.program.nodes, d ∈ n.locals :=
      List.mem_flatMap.mp (src.program.locals_perm.mem_iff.mpr
        (gains.nested.toGrounded.declared member))
    obtain ⟨n', scope', own⟩ := gains.program.nodes.mem_left scope
    obtain ⟨d', inside', counterpart⟩ := own.locals.mem_left inside
    have member' := (gains.declares counterpart node (Program.mem_locals scope' inside')).mpr member
    rw [← decls, Source.decls_eq_filter gains.nested.toGrounded scope inside member,
      Source.decls_eq_filter gains.nested'.toGrounded scope' inside' member']
    refine (own.locals.filter fun a b related => ?_).imp (fun _ _ _ _ => id) ?_
    · rw [Bool.eq_iff_iff, decide_eq_true_eq, decide_eq_true_eq, related.id, gains.target_iff]
    · rintro b _ ⟨⟨j, k, _, rfl, _, new⟩, _⟩
      exact ⟨k, rfl, new _ ((Node.below_suffix _).subset List.mem_cons_self)⟩

theorem thaw (x : SymbolId) :
    (src'.bind.symbol (src.bind.counterpart src'.bind ν x)).role.thaw =
      (src.bind.symbol x).role.thaw := by
  cases decls : (src.bind.symbol x).decls with
  | nil => rw [(undeclared decls).1]
  | cons d rest =>
    have member : d ∈ (src.bind.symbol x).decls := decls ▸ List.mem_cons_self
    obtain ⟨d', member', own⟩ := (gains.decls x).mem_left member
    rw [gains.nested.role x d member, gains.nested'.role _ d' member', own.role]

theorem frozen (x : SymbolId) :
    (src'.bind.symbol (src.bind.counterpart src'.bind ν x)).role = .var true ↔
      (src.bind.symbol x).role = .var true := by
  have isVar : (src'.bind.symbol (src.bind.counterpart src'.bind ν x)).role.isVar =
      (src.bind.symbol x).role.isVar := by
    rw [← Role.isVar_thaw, gains.thaw, Role.isVar_thaw]
  constructor
  · intro frozen
    obtain ⟨isVar', free⟩ := (Source.bind_frozen gains.nested'.once).mp frozen
    refine (Source.bind_frozen gains.nested.once).mpr ⟨isVar ▸ isVar', fun m y e node target => ?_⟩
    obtain ⟨n', node', own⟩ := gains.program.nodes.mem_left node
    obtain ⟨_, rfl, _, y', e', rfl, _, moves, _⟩ := own
    exact free _ y' e' node' (by rw [moves.1, gains.target_iff, target])
  · intro frozen
    obtain ⟨isVar', free⟩ := (Source.bind_frozen gains.nested.once).mp frozen
    refine (Source.bind_frozen gains.nested'.once).mpr ⟨isVar.trans isVar', ?_⟩
    intro m' y' e' node' target'
    rcases gains.program.nodes.mem_right node' with new | ⟨n, node, own⟩
    · have root := new _ ((Node.below_suffix _).subset List.mem_cons_self)
      refine gains.steady x frozen m' y' e' node' root (Binding.symbolAt?_of_target target' ?_)
      -- a variable is not the symbol of unknown names
      intro unresolved
      have same : src.bind.counterpart src'.bind ν x =
          src.bind.counterpart src'.bind ν Symbol.unresolvedId :=
        unresolved.trans counterpart_unresolved.symm
      rw [gains.counterpart_injective same, src.symbol_first (by decide)] at frozen
      cases frozen
    · obtain ⟨m, y, e, rfl, moves⟩ := own.of_assign
      rw [moves.1, gains.target_iff] at target'
      exact free m y e node target'

theorem role (x : SymbolId) : (src'.bind.symbol (src.bind.counterpart src'.bind ν x)).role =
    (src.bind.symbol x).role := Role.eq_of_thaw (gains.thaw x) (gains.frozen x)

theorem plain {x : SymbolId} (other : (src.bind.symbol x).role ≠ .function) :
    List.Forall₂ (Decl.Gains ν) (src.bind.symbol x).decls
      (src'.bind.symbol (src.bind.counterpart src'.bind ν x)).decls := by
  have joins := gains.decls x
  rcases Source.decls_single gains.nested.toGrounded other with bare | ⟨d, only⟩
  · rw [(undeclared bare).1, bare]
    exact .nil
  · rcases Source.decls_single gains.nested'.toGrounded (gains.role x ▸ other) with bare | ⟨d', only'⟩
    · obtain ⟨d', member, _⟩ := joins.mem_left (only ▸ List.mem_cons_self)
      rw [bare] at member
      cases member
    · rw [only, only'] at joins ⊢
      cases joins with
      | both head rest => exact .cons head .nil
      | more head rest => cases rest

/-- Other symbols stand for what is declared in added functions. -/
theorem inner {y : SymbolId} (other : y ∉ Set.range (src.bind.counterpart src'.bind ν)) {d : Decl}
    (member : d ∈ (src'.bind.symbol y).decls) : d.node.Fresh ν := by
  have node := gains.nested'.decl y d member
  rcases gains.program.nodes.mem_right node with new | ⟨n, node', own⟩
  · exact new
  · obtain ⟨k, rfl, moved⟩ := own.of_decl
    obtain ⟨x, _, target, _⟩ := Source.bind_declares gains.nested.toGrounded
      (List.mem_filterMap.mpr ⟨_, node', Node.decl?_node k⟩)
    have target' := gains.nested'.target y d member
    rw [moved.id, gains.targets, target] at target'
    exact absurd ⟨x, Option.some.inj target'⟩ other

theorem size : src.bind.symbols.size ≤ src'.bind.symbols.size := by
  have distinct : ((List.range src.bind.symbols.size).map (src.bind.counterpart src'.bind ν)).Nodup :=
    List.nodup_range.map gains.counterpart_injective
  have inside : (List.range src.bind.symbols.size).map (src.bind.counterpart src'.bind ν) ⊆
      List.range src'.bind.symbols.size := by
    intro y member
    obtain ⟨x, small, rfl⟩ := List.mem_map.mp member
    exact List.mem_range.mpr (gains.counterpart_small.mpr (List.mem_range.mp small))
  simpa using (List.subperm_of_subset distinct inside).length_le

/-! ### Reports -/

/-- What is reported of names is reported at added functions. -/
theorem reported {d : Diagnostic} (member : d ∈ src'.bind.diagnostics) :
    ∃ n ∈ src'.program.nodes, n.mark.id ∉ Set.range ν ∧ n.mark.span = d.span := by
  rcases src'.bind_told d member with unknown | duplicate
  · have listed := List.mem_filter.mpr ⟨member, unknown⟩
    rw [src'.bind_unknownNames] at listed
    obtain ⟨r', among, rfl⟩ := List.mem_map.mp listed
    obtain ⟨inside, nothing⟩ := List.mem_filter.mp among
    rw [decide_eq_true_eq] at nothing
    rcases gains.references.mem_right inside with ⟨new, n, node, same⟩ | ⟨r, inside, _, related⟩
    · exact ⟨n, node, same ▸ new, by rw [same]; rfl⟩
    · have unknown : r.referent = .unknown :=
        (gains.matches_iff related .unknown).mpr nothing
      have told : r.report ∈ src.bind.diagnostics.filter (·.isUnknownName) := by
        rw [src.bind_unknownNames]
        exact List.mem_map_of_mem (List.mem_filter.mpr ⟨inside, decide_eq_true unknown⟩)
      have mild := gains.clean _ (List.mem_filter.mp told).1
      cases (rfl : r.report.isError = true).symm.trans mild
  · have listed := src'.bind_duplicates.subset (List.mem_filter.mpr ⟨member, duplicate⟩)
    obtain ⟨n', node', clash⟩ := List.mem_flatMap.mp listed
    rcases gains.program.nodes.mem_right node' with new | ⟨n, node, own⟩
    · obtain ⟨k, inside, same⟩ := Decl.mem_clashes clash
      have name := Node.below_of_locals inside (k.name_below)
      exact ⟨_, Program.mem_below node' name, new _ name, same.symm⟩
    · have distinct := gains.nested'.toGrounded.locals_distinct node'
      have unambiguous := own.locals.unambiguous (gains.unambiguous n node) distinct
      rw [unambiguous.clashes (List.Nodup.of_map _ distinct)] at clash
      cases clash

end Source.Gains

end Solo

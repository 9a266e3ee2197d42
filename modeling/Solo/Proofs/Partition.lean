import Solo.Proofs.Sharing

/-!
# Symbols partition the declarations

What binding does with the declarations and assignments of every program, also of one with errors.
Each scope's declarations are shared out among new symbols, and a variable is frozen if no
assignment stands for it. An action `Enters` nodes if it does this for the scopes and the
assignments among them.
-/

namespace Solo

namespace Binder

/-! ### Trees -/

/-- A symbol has declarations of one scope: one of them, or all functions of a name. -/
def Gathers (s : Symbol) (ds : List Decl) : Prop :=
  (∃ d ∈ ds, s.decls = [d]) ∨ ∃ name, s.decls = Decl.overloads ds name

theorem Shares.gathers {b : Binder} {start : Nat} {scope : Scope} {ds : List Decl}
    (shares : b.Shares start scope ds) {x : SymbolId} (low : start ≤ x)
    (high : x < b.symbols.size) : Gathers (b.symbol x) ds := by
  rcases shares.others x low high with ⟨d, declared, own⟩ | ⟨space, name, found⟩
  · exact .inl ⟨d, declared, by rw [own, Decl.alone]⟩
  · obtain ⟨-, -, k, first, own⟩ := shares.taken space name x found
    rw [own, Decl.gathered]
    by_cases isFn : k.fn?.isSome = true
    · exact .inr ⟨k.name.name, if_pos isFn⟩
    · exact .inl ⟨k, (Decl.first?_some first).1, if_neg isFn⟩

/-- What binding a tree with the nodes `ns` makes of the scopes and the assignments among them. -/
structure Enters (b : Binder) (ns : List (Node Mark)) (b' : Binder) : Prop where
  scopes : b'.scopes = b.scopes
  size : b.symbols.size ≤ b'.symbols.size
  old : ∀ x < b.symbols.size, b'.symbol x = b.symbol x
  gathers : ∀ x, b.symbols.size ≤ x → x < b'.symbols.size →
    ∃ n ∈ ns, Gathers (b'.symbol x) n.locals
  declares : ∀ n ∈ ns, ∀ d ∈ n.locals,
    ∃ x, b.symbols.size ≤ x ∧ x < b'.symbols.size ∧ d ∈ (b'.symbol x).decls
  duplicates : ∃ reports, b'.duplicates = b.duplicates ++ reports ∧
    reports.Perm (ns.flatMap fun n => Decl.clashes [] n.locals)
  told : ∀ d ∈ b'.diagnostics,
    d ∈ b.diagnostics ∨ d.isUnknownName = true ∨ d.isDuplicateName = true
  targets : b.targets.entries ⊆ b'.targets.entries
  assigned : b.assigned ⊆ b'.assigned
  sources : ∀ s ∈ b'.assigned, s ∈ b.assigned ∨
    ∃ n ∈ ns, ∃ x, n.assignee? = some x ∧ (x.mark.id, s) ∈ b'.targets.entries
  noted : ∀ n ∈ ns, ∀ x, n.assignee? = some x →
    ∃ s, (x.mark.id, s) ∈ b'.targets.entries ∧ (s ≠ Symbol.unresolvedId → s ∈ b'.assigned)

namespace Enters

variable {b b₁ b₂ : Binder} {ns ks : List (Node Mark)} {n : Node Mark}

theorem step (plain : ∀ n ∈ ns, n.opens = false) (scopes : b₁.scopes = b.scopes)
    (symbols : b₁.symbols = b.symbols) (duplicates : b₁.duplicates = b.duplicates)
    (told : ∀ d ∈ b₁.diagnostics, d ∈ b.diagnostics ∨ d.isUnknownName = true)
    (targets : b.targets.entries ⊆ b₁.targets.entries) (assigned : b.assigned ⊆ b₁.assigned)
    (sources : ∀ s ∈ b₁.assigned, s ∈ b.assigned ∨
      ∃ n ∈ ns, ∃ x, n.assignee? = some x ∧ (x.mark.id, s) ∈ b₁.targets.entries)
    (noted : ∀ n ∈ ns, ∀ x, n.assignee? = some x →
      ∃ s, (x.mark.id, s) ∈ b₁.targets.entries ∧ (s ≠ Symbol.unresolvedId → s ∈ b₁.assigned)) :
    b.Enters ns b₁ where
  scopes := scopes
  size := Nat.le_of_eq (congrArg Array.size symbols).symm
  old x _ := by rw [symbol, symbols, symbol]
  gathers x low high := absurd (symbols ▸ high) (Nat.not_lt.mpr low)
  declares n member d declared := by
    rw [Node.locals_of_plain (plain n member)] at declared
    cases declared
  duplicates := by
    refine ⟨[], by rw [duplicates, List.append_nil], ?_⟩
    have none : ns.flatMap (fun n => Decl.clashes [] n.locals) = [] :=
      List.flatMap_eq_nil_iff.mpr fun n member => by
        rw [Node.locals_of_plain (plain n member), Decl.clashes]
    rw [none]
  told d member := (told d member).imp_right .inl
  targets := targets
  assigned := assigned
  sources := sources
  noted := noted

/-- A step that does not touch what is assigned. -/
theorem silent (scopes : b₁.scopes = b.scopes) (symbols : b₁.symbols = b.symbols)
    (duplicates : b₁.duplicates = b.duplicates)
    (told : ∀ d ∈ b₁.diagnostics, d ∈ b.diagnostics ∨ d.isUnknownName = true)
    (targets : b.targets.entries ⊆ b₁.targets.entries) (assigned : b₁.assigned = b.assigned) :
    b.Enters [] b₁ :=
  step nofun scopes symbols duplicates told targets (assigned ▸ List.Subset.refl _)
    (fun _ member => .inl (assigned ▸ member)) nofun

/-- A node that is neither a scope nor an assignment. -/
theorem quiet (b : Binder) (plain : n.opens = false) (other : n.assignee? = none) :
    b.Enters [n] b := by
  refine step (List.forall_mem_singleton.mpr plain) rfl rfl rfl (fun _ => .inl) (List.Subset.refl _)
    (List.Subset.refl _) (fun _ => .inl) (List.forall_mem_singleton.mpr fun x assigns => ?_)
  rw [other] at assigns
  cases assigns

theorem trans (first : b.Enters ns b₁) (second : b₁.Enters ks b₂) : b.Enters (ns ++ ks) b₂ where
  scopes := second.scopes.trans first.scopes
  size := Nat.le_trans first.size second.size
  old x small := by rw [second.old x (Nat.lt_of_lt_of_le small first.size), first.old x small]
  gathers x low high := by
    by_cases small : x < b₁.symbols.size
    · obtain ⟨n, member, gathers⟩ := first.gathers x low small
      exact ⟨n, List.mem_append_left _ member, second.old x small ▸ gathers⟩
    · obtain ⟨n, member, gathers⟩ := second.gathers x (Nat.not_lt.mp small) high
      exact ⟨n, List.mem_append_right _ member, gathers⟩
  declares n member d declared := by
    rcases List.mem_append.mp member with early | late
    · obtain ⟨x, low, high, inside⟩ := first.declares n early d declared
      exact ⟨x, low, Nat.lt_of_lt_of_le high second.size, second.old x high ▸ inside⟩
    · obtain ⟨x, low, high, inside⟩ := second.declares n late d declared
      exact ⟨x, Nat.le_trans first.size low, high, inside⟩
  duplicates := by
    obtain ⟨reports, before, same⟩ := first.duplicates
    obtain ⟨reports', after, same'⟩ := second.duplicates
    refine ⟨reports ++ reports', by rw [after, before, List.append_assoc], ?_⟩
    rw [List.flatMap_append]
    exact same.append same'
  told d member := (second.told d member).elim (first.told d) .inr
  targets := List.Subset.trans first.targets second.targets
  assigned := List.Subset.trans first.assigned second.assigned
  sources s member := by
    rcases second.sources s member with before | ⟨n, late, x, assigns, target⟩
    · rcases first.sources s before with old | ⟨n, early, x, assigns, target⟩
      · exact .inl old
      · exact .inr ⟨n, List.mem_append_left _ early, x, assigns, second.targets target⟩
    · exact .inr ⟨n, List.mem_append_right _ late, x, assigns, target⟩
  noted n member x assigns := by
    rcases List.mem_append.mp member with early | late
    · obtain ⟨s, target, noted⟩ := first.noted n early x assigns
      exact ⟨s, second.targets target, fun real => second.assigned (noted real)⟩
    · exact second.noted n late x assigns

/-- The order of the nodes does not matter. -/
theorem perm (enters : b.Enters ns b₁) (same : ns.Perm ks) : b.Enters ks b₁ :=
  { enters with
    gathers := fun x low high => by
      obtain ⟨n, member, gathers⟩ := enters.gathers x low high
      exact ⟨n, same.subset member, gathers⟩
    declares := fun n member => enters.declares n (same.symm.subset member)
    duplicates := by
      obtain ⟨reports, before, perm⟩ := enters.duplicates
      exact ⟨reports, before, perm.trans (same.flatMap_right _)⟩
    sources := fun s member => (enters.sources s member).imp_right fun ⟨n, inside, source⟩ =>
      ⟨n, same.subset inside, source⟩
    noted := fun n member => enters.noted n (same.symm.subset member) }

end Enters

end Binder

/-- An action that binds a tree with the nodes `ns`. -/
def Entering (ns : List (Node Mark)) (a : Binding Unit) : Prop := ∀ b : Binder, b.Enters ns (a b).2

namespace Entering

open Binder

variable {ns ks : List (Node Mark)} {n : Node Mark} {a c : Binding Unit}

theorem nothing : Entering [] (pure ()) := fun _ => .silent rfl rfl rfl (fun _ => .inl) (List.Subset.refl _) rfl

theorem seq (first : Entering ns a) (second : Entering ks c) : Entering (ns ++ ks) (do a; c) :=
  fun b => (first b).trans (second (a b).2)

theorem perm (enters : Entering ns a) (same : ns.Perm ks) : Entering ks a :=
  fun b => (enters b).perm same

theorem snoc (enters : Entering ns a) (plain : n.opens = false) (other : n.assignee? = none) :
    Entering (ns ++ [n]) a := fun b => (enters b).trans (.quiet _ plain other)

theorem cons (enters : Entering ns a) (plain : n.opens = false) (other : n.assignee? = none) :
    Entering (n :: ns) a := fun b => (Enters.quiet b plain other).trans (enters b)

theorem resolveValue (x : Ident Mark) : Entering [] (do let _ ← Binding.resolveValue x) := by
  intro b
  change b.Enters [] (Binding.resolveValue x b).2
  rw [Binding.resolveValue_apply]
  cases b.lookup? .value x.name with
  | some s => exact .silent rfl rfl rfl (fun _ => .inl) (List.subset_append_left _ _) rfl
  | none =>
    refine .silent rfl rfl ?_ (fun d member => ?_) (List.subset_append_left _ _) rfl
    · simp [Binder.duplicates, Diagnostic.isDuplicateName]
    · rcases Array.mem_push.mp member with old | rfl
      · exact .inl old
      · exact .inr rfl

theorem resolveType (x : Ident Mark) : Entering [] (Binding.resolveType x) := by
  intro b
  rw [Binding.resolveType_apply]
  cases b.lookup? .type x.name with
  | some s => exact .silent rfl rfl rfl (fun _ => .inl) (List.subset_append_left _ _) rfl
  | none =>
    dsimp only
    split
    · exact nothing b
    · exact resolveValue x b

theorem assign (m : Mark) (x : Ident Mark) (e : Expr Mark) :
    Entering [.expr (.assign m x e)]
      (do
        let s ← Binding.resolveValue x
        if s ≠ Symbol.unresolvedId then Binding.assign s) := by
  intro b
  have resolved : b.Enters [] (Binding.resolveValue x b).2 := resolveValue x b
  have target : (x.mark.id, (Binding.resolveValue x b).1) ∈
      (Binding.resolveValue x b).2.targets.entries := by
    rw [Binding.resolveValue_apply]
    cases b.lookup? .value x.name <;> exact List.mem_append_right _ List.mem_cons_self
  refine Enters.trans resolved ?_
  rw [Binding.bind_apply]
  generalize Binding.resolveValue x b = run at target ⊢
  obtain ⟨s, b₁⟩ := run
  dsimp only at target ⊢
  split
  · refine .step (List.forall_mem_singleton.mpr rfl) rfl rfl rfl (fun _ => .inl) (List.Subset.refl _)
      (List.subset_cons_self ..) ?_ (List.forall_mem_singleton.mpr fun y same => ?_)
    · intro y member
      rcases List.mem_cons.mp member with rfl | old
      · exact .inr ⟨_, List.mem_cons_self, x, rfl, target⟩
      · exact .inl old
    · cases same
      exact ⟨s, target, fun _ => List.mem_cons_self⟩
  · next unresolved =>
    refine .step (List.forall_mem_singleton.mpr rfl) rfl rfl rfl (fun _ => .inl) (List.Subset.refl _)
      (List.Subset.refl _) (fun _ => .inl) (List.forall_mem_singleton.mpr fun y same => ?_)
    cases same
    exact ⟨s, target, fun real => absurd real unresolved⟩

theorem scope (other : n.assignee? = none) (inner : Entering ns a) :
    Entering (ns ++ [n]) (Binding.inScope do n.locals.forM Binding.declareOwn; a) := by
  intro b
  have hosts := (Hosts.nil b).forM n.locals
  rw [List.nil_append] at hosts
  rw [Binding.inScope_apply, Binding.bind_apply]
  generalize (n.locals.forM Binding.declareOwn { b with scopes := Table.empty :: b.scopes }).2 = b₁
    at hosts ⊢
  have enters := inner b₁
  obtain ⟨scope, here, shares⟩ := hosts.scope
  constructor
  case scopes => simp [enters.scopes, here]
  case size => exact Nat.le_trans hosts.size enters.size
  case old =>
    intro x small
    exact (enters.old x (Nat.lt_of_lt_of_le small hosts.size)).trans (hosts.old x small)
  case gathers =>
    intro x low high
    by_cases small : x < b₁.symbols.size
    · have kept := enters.old x small
      exact ⟨n, List.mem_append_right _ List.mem_cons_self, kept ▸ shares.gathers low small⟩
    · obtain ⟨k, member, gathers⟩ := enters.gathers x (Nat.not_lt.mp small) high
      exact ⟨k, List.mem_append_left _ member, gathers⟩
  case declares =>
    intro k member d declared
    rcases List.mem_append.mp member with inside | last
    · obtain ⟨x, low, high, own⟩ := enters.declares k inside d declared
      exact ⟨x, Nat.le_trans hosts.size low, high, own⟩
    · obtain rfl := List.mem_singleton.mp last
      obtain ⟨x, low, high, own⟩ := shares.declares d declared
      exact ⟨x, low, Nat.lt_of_lt_of_le high enters.size, enters.old x high ▸ own⟩
  case duplicates =>
    obtain ⟨reports, after, perm⟩ := enters.duplicates
    refine ⟨Decl.clashes [] n.locals ++ reports, ?_, ?_⟩
    · rw [← List.append_assoc, ← hosts.duplicates]
      exact after
    · rw [List.flatMap_append, List.flatMap_singleton]
      exact List.perm_append_comm.trans (perm.append_right _)
  case told =>
    intro d member
    rcases enters.told d member with old | other
    · exact (hosts.told d old).imp_right .inr
    · exact .inr other
  case targets => exact List.Subset.trans hosts.targets enters.targets
  case assigned => exact hosts.assigned ▸ enters.assigned
  case sources =>
    intro s member
    rcases enters.sources s member with old | ⟨k, inside, source⟩
    · exact .inl (hosts.assigned ▸ old)
    · exact .inr ⟨k, List.mem_append_left _ inside, source⟩
  case noted =>
    intro k member x assigns
    rcases List.mem_append.mp member with inside | last
    · exact enters.noted k inside x assigns
    · rw [List.mem_singleton.mp last, other] at assigns
      cases assigns

end Entering

mutual
theorem Expr.entering : ∀ e : Expr Mark, Entering e.nodes e.bind
  | .lit _ => Entering.nothing.cons rfl rfl
  | .host _ _ => Entering.nothing.cons rfl rfl
  | .name x => (Entering.resolveValue x).cons rfl rfl
  | .paren _ e => e.entering.snoc rfl rfl
  | .unary _ _ e => e.entering.snoc rfl rfl
  | .bin _ _ l r => (l.entering.seq r.entering).snoc rfl rfl
  | .call _ f args =>
    (((Entering.resolveValue f).cons (n := .ident f) rfl rfl).seq (exprs_entering args)).snoc
      rfl rfl
  | .block m ss tail => by
    rw [Expr.bind, Binding.hoist_eq, ← Node.locals_block m ss tail]
    exact .scope rfl ((stmts_entering ss).seq (tail_entering tail))
  | .assign m x e => by
    rw [Expr.assign_bind, Expr.nodes]
    exact ((Entering.assign m x e).seq e.entering).perm List.perm_append_comm |>.cons
      (n := .ident x) rfl rfl
  | .cases _ e arms => (e.entering.seq (arms_entering arms)).snoc rfl rfl
  | .inhabitant _ t => t.entering.snoc rfl rfl

theorem exprs_entering : ∀ es : List (Expr Mark), Entering (exprsNodes es) (bindExprs es)
  | [] => .nothing
  | e :: es => e.entering.seq (exprs_entering es)

theorem tail_entering : ∀ tail : Option (Expr Mark), Entering (tailNodes tail) (bindTail tail)
  | none => .nothing
  | some e => e.entering

theorem arms_entering : ∀ arms : List (Arm Mark), Entering (armsNodes arms) (bindArms arms)
  | [] => .nothing
  | ⟨m, p, e⟩ :: arms => by
    have arm : Entering (Arm.nodes ⟨m, p, e⟩) (do p.bind; e.bind) :=
      (p.entering.seq e.entering).snoc rfl rfl
    exact arm.seq (arms_entering arms)

theorem Pat.entering : ∀ p : Pat Mark, Entering p.nodes p.bind
  | .wildcard _ => Entering.nothing.cons rfl rfl
  | .lit _ _ => (Entering.nothing.cons rfl rfl).cons rfl rfl
  | .typed _ t => t.entering.snoc rfl rfl

theorem TyNode.entering : ∀ t : TyNode Mark, Entering t.nodes t.bind
  | .refer _ x => ((Entering.resolveType x).cons (n := .ident x) rfl rfl).snoc rfl rfl
  | .singleton _ e => e.entering.snoc rfl rfl
  | .lit _ _ _ => (Entering.nothing.cons rfl rfl).cons rfl rfl
  | .paren _ t => t.entering.snoc rfl rfl

theorem ty?_entering : ∀ t : Option (TyNode Mark), Entering (tyNodes? t) (bindTy? t)
  | none => .nothing
  | some t => t.entering

theorem params_entering : ∀ ps : List (Param Mark), Entering (paramsNodes ps) (bindParams ps)
  | [] => .nothing
  | ⟨m, x, t⟩ :: ps => by
    have param : Entering (Param.nodes ⟨m, x, t⟩) t.bind :=
      (t.entering.cons (n := .ident x) rfl rfl).snoc rfl rfl
    exact param.seq (params_entering ps)

theorem Stmt.entering : ∀ s : Stmt Mark, Entering s.nodes s.bind
  | .val ⟨_, _, x, t, e⟩ =>
    (((ty?_entering t).seq e.entering).cons (n := .ident x) rfl rfl).snoc rfl rfl
  | .typeAlias ⟨_, x, t⟩ => (t.entering.cons (n := .ident x) rfl rfl).snoc rfl rfl
  | .fn ⟨m, x, ps, t, e⟩ => by
    rw [Stmt.bind, Binding.params_eq, ← Node.locals_fn m x ps t e, Stmt.nodes,
      List.append_assoc (_ :: _)]
    exact .scope rfl (((params_entering ps).cons (n := .ident x) rfl rfl).seq
      ((ty?_entering t).seq e.entering))
  | .expr _ e => e.entering.snoc rfl rfl

theorem stmts_entering : ∀ ss : List (Stmt Mark), Entering (stmtsNodes ss) (bindStmts ss)
  | [] => .nothing
  | s :: ss => s.entering.seq (stmts_entering ss)
end

/-! ### Programs -/

theorem Table.find?_of_mem {κ ν : Type} [DecidableEq κ] {t : Table κ ν} {k : κ} {v : ν}
    (once : t.keys.Nodup) (member : (k, v) ∈ t.entries) : t.find? k = some v := by
  obtain ⟨entries⟩ := t
  rw [Table.keys] at once
  rw [Table.find?]
  induction entries with
  | nil => cases member
  | cons e rest ih =>
    obtain ⟨other, fresh⟩ := List.nodup_cons.mp once
    rw [Table.look]
    rcases List.mem_cons.mp member with rfl | later
    · exact if_pos rfl
    · have apart : e.1 ≠ k := fun same => other (same ▸ List.mem_map_of_mem later)
      rw [if_neg apart]
      exact ih fresh later

namespace Binder

variable {b : Binder} {src : Source}

theorem decls_toBound (b : Binder) (src : Source) (x : SymbolId) :
    ((b.toBound src).symbol x).decls = (b.symbol x).decls := by
  rw [BoundProgram.symbol, toBound, symbol_freeze]
  split <;> rfl

theorem isVar_toBound (b : Binder) (src : Source) (x : SymbolId) :
    ((b.toBound src).symbol x).role.isVar = (b.symbol x).role.isVar := by
  rw [BoundProgram.symbol, toBound, symbol_freeze]
  split
  · next isVar =>
    rw [isVar]
    rfl
  · rfl

theorem frozen_toBound {x : SymbolId} (isVar : (b.symbol x).role.isVar = true) :
    ((b.toBound src).symbol x).role = .var true ↔ x ∉ b.assigned := by
  rw [BoundProgram.symbol, toBound, symbol_freeze]
  split
  · simp
  · next other =>
    cases role : (b.symbol x).role <;> simp_all [Role.isVar]

/-- Only the symbols that a program makes itself have declarations. -/
theorem Enters.own {ns : List (Node Mark)} (enters : start.Enters ns b) {x : SymbolId} {d : Decl}
    (member : d ∈ (b.symbol x).decls) : start.symbols.size ≤ x ∧ x < b.symbols.size := by
  constructor
  · by_contra small
    rw [enters.old x (Nat.not_le.mp small)] at member
    match x, Nat.not_le.mp small with
    | 0, _ => cases member
    | 1, _ => cases member
  · by_contra large
    rw [symbol, Array.getD_eq_getD_getElem?, Array.getElem?_eq_none (Nat.not_lt.mp large)] at member
    cases member

end Binder

theorem BoundProgram.Grounded.declarations_nodup {p : BoundProgram} (ground : p.Grounded) :
    p.program.declarations.Nodup := by
  refine List.Nodup.filterMap (fun n k d first second => ?_) (List.Nodup.of_map _ ground.distinct)
  rw [← Node.node_of_decl? first, Node.node_of_decl? second]

theorem BoundProgram.Grounded.declared {p : BoundProgram} (ground : p.Grounded) {x : SymbolId}
    {d : Decl} (member : d ∈ (p.symbol x).decls) : d ∈ p.program.declarations :=
  List.mem_filterMap.mpr ⟨_, ground.decl x d member, Node.decl?_node d⟩

namespace Source

theorem bind_enters (src : Source) :
    ∃ b : Binder, src.bind = b.toBound src ∧ Binder.start.Enters src.program.nodes b := by
  have enters : Entering src.program.nodes _ :=
    Entering.scope (n := .program src.program) rfl (stmts_entering src.program.stmts)
  rw [Node.locals_program, ← Binding.hoist_eq] at enters
  exact ⟨_, rfl, enters .start⟩

variable {src : Source} {x : SymbolId} {d : Decl}

/-- Every declaration has the symbol that it is mapped to, and no other one. -/
theorem bind_declares (ground : src.bind.Grounded) (member : d ∈ src.program.declarations) :
    ∃ x, x < src.bind.symbols.size ∧ src.bind.targets.find? d.mark.id = some x ∧
      ∀ y, d ∈ (src.bind.symbol y).decls ↔ y = x := by
  obtain ⟨b, same, enters⟩ := src.bind_enters
  obtain ⟨n, node, inside⟩ := List.mem_flatMap.mp (src.program.locals_perm.symm.subset member)
  obtain ⟨x, -, small, own⟩ := enters.declares n node d inside
  rw [← b.decls_toBound src, ← same] at own
  have target := ground.target x d own
  refine ⟨x, by rwa [same, b.size_toBound], target, fun y => ⟨fun other => ?_, fun is => is ▸ own⟩⟩
  exact Option.some.inj ((ground.target y d other).symm.trans target)

/-- The declarations of a symbol are one declaration or all functions of a name in one scope. -/
theorem bind_gathers (declared : (src.bind.symbol x).decls ≠ []) :
    ∃ n ∈ src.program.nodes, Binder.Gathers (src.bind.symbol x) n.locals := by
  obtain ⟨b, same, enters⟩ := src.bind_enters
  rw [same, b.decls_toBound] at declared
  obtain ⟨d, member⟩ := List.exists_mem_of_ne_nil _ declared
  obtain ⟨low, high⟩ := enters.own member
  obtain ⟨n, node, gathers⟩ := enters.gathers x low high
  refine ⟨n, node, ?_⟩
  rw [Binder.Gathers, same, b.decls_toBound]
  exact gathers

theorem bind_decls_nodup (ground : src.bind.Grounded) : (src.bind.symbol x).decls.Nodup := by
  by_cases none : (src.bind.symbol x).decls = []
  · rw [none]
    exact List.nodup_nil
  obtain ⟨n, node, gathers⟩ := bind_gathers none
  have distinct : n.locals.Nodup := by
    have all := src.program.locals_perm.symm.nodup ground.declarations_nodup
    exact (List.nodup_flatMap.mp all).1 n node
  rcases gathers with ⟨d, -, only⟩ | ⟨name, all⟩
  · rw [only]
    exact List.nodup_singleton d
  · rw [all]
    exact distinct.filter _

theorem bind_decls_perm (ground : src.bind.Grounded) :
    (src.bind.symbols.toList.flatMap Symbol.decls).Perm src.program.declarations := by
  have symbol : ∀ (x : Nat) (small : x < src.bind.symbols.toList.length),
      src.bind.symbols.toList[x] = src.bind.symbol x := by
    intro x small
    rw [BoundProgram.symbol, Array.getD_eq_getD_getElem?, Array.getElem_toList,
      Array.getElem?_eq_getElem (by simpa using small), Option.getD_some]
  refine (List.perm_ext_iff_of_nodup ?_ ground.declarations_nodup).mpr fun d => ?_
  · refine List.nodup_flatMap.mpr ⟨fun s member => ?_, ?_⟩
    · obtain ⟨x, small, rfl⟩ := List.mem_iff_getElem.mp member
      rw [symbol x small]
      exact bind_decls_nodup ground
    · refine List.pairwise_iff_getElem.mpr fun x y smallX smallY before d left right => ?_
      rw [symbol x smallX] at left
      rw [symbol y smallY] at right
      have target := (ground.target x d left).symm.trans (ground.target y d right)
      exact absurd (Option.some.inj target) (Nat.ne_of_lt before)
  · constructor
    · intro member
      obtain ⟨s, inside, own⟩ := List.mem_flatMap.mp member
      obtain ⟨x, small, rfl⟩ := List.mem_iff_getElem.mp inside
      rw [symbol x small] at own
      exact ground.declared own
    · intro member
      obtain ⟨x, small, -, own⟩ := bind_declares ground member
      refine List.mem_flatMap.mpr ⟨src.bind.symbol x, ?_, (own x).mpr rfl⟩
      rw [← symbol x (by simpa using small)]
      exact List.getElem_mem _

/-- The reports of names that are declared twice are those of the scopes. -/
theorem bind_duplicates (src : Source) :
    (src.bind.diagnostics.filter (·.isDuplicateName)).Perm
      (src.program.nodes.flatMap fun n => Decl.clashes [] n.locals) := by
  obtain ⟨b, same, enters⟩ := src.bind_enters
  obtain ⟨reports, all, perm⟩ := enters.duplicates
  rw [same]
  have only : b.duplicates = reports := all
  rwa [← only] at perm

/-- Only names are reported. -/
theorem bind_told (src : Source) :
    ∀ d ∈ src.bind.diagnostics, d.isUnknownName = true ∨ d.isDuplicateName = true := by
  obtain ⟨b, same, enters⟩ := src.bind_enters
  rw [same]
  exact fun d member => (enters.told d (Array.mem_toList_iff.mp member)).resolve_left nofun

/-- A symbol is frozen if it is a variable that no assignment stands for. -/
theorem bind_frozen (once : src.bind.targets.keys.Nodup) :
    (src.bind.symbol x).role = .var true ↔ (src.bind.symbol x).role.isVar = true ∧
      ∀ m y e, .expr (.assign m y e) ∈ src.program.nodes →
        src.bind.targets.find? y.mark.id ≠ some x := by
  obtain ⟨b, same, enters⟩ := src.bind_enters
  rw [same] at once ⊢
  rw [b.isVar_toBound]
  have known : ∀ {y : Ident Mark} {s : SymbolId}, (y.mark.id, s) ∈ b.targets.entries →
      b.targets.find? y.mark.id = some s := fun member => Table.find?_of_mem once member
  have toVar : ((b.toBound src).symbol x).role = .var true → (b.symbol x).role.isVar = true :=
    fun role => by rw [← b.isVar_toBound src, role, Role.isVar]
  refine ⟨fun frozen => ⟨toVar frozen, fun m y e node target => ?_⟩, fun ⟨isVar, free⟩ => ?_⟩
  · have fresh := (Binder.frozen_toBound (toVar frozen)).mp frozen
    obtain ⟨s, entry, noted⟩ := enters.noted _ node y rfl
    obtain rfl := Option.some.inj ((known entry).symm.trans target)
    refine fresh (noted fun unresolved => ?_)
    have isVar := toVar frozen
    rw [unresolved, enters.old _ (by decide)] at isVar
    cases isVar
  · refine (Binder.frozen_toBound isVar).mpr fun assigned => ?_
    rcases enters.sources x assigned with old | ⟨n, node, y, assigns, entry⟩
    · cases old
    · unfold Node.assignee? at assigns
      split at assigns
      · cases assigns
        exact free _ _ _ node (known entry)
      · cases assigns

/-- Symbols partition the declarations of a program, and variables are frozen exactly. Each
declaration is one of one symbol, which is the one it is mapped to; a symbol with several ones has
all functions of a name in one scope, in the order of the scope; a declaration is reported once if
another one of its name comes before it in its scope, unless the first of these and it are
functions; and a symbol is frozen if it is a variable that no assignment stands for. -/
theorem bind_partitions (module : ModuleId) (text : String) (stmts : List (Stmt Labels)) :
    let p := (Source.anchor module text stmts).bind
    (p.symbols.toList.flatMap Symbol.decls).Perm p.program.declarations ∧
      (∀ d ∈ p.program.declarations, ∃ x, p.targets.find? d.mark.id = some x ∧
        ∀ y, d ∈ (p.symbol y).decls ↔ y = x) ∧
      (∀ x, 1 < (p.symbol x).decls.length → ∃ n ∈ p.program.nodes, ∃ name,
        (p.symbol x).decls = Decl.overloads n.locals name) ∧
      (p.diagnostics.filter (·.isDuplicateName)).Perm
        (p.program.nodes.flatMap fun n => Decl.clashes [] n.locals) ∧
      ∀ x, (p.symbol x).role = .var true ↔ (p.symbol x).role.isVar = true ∧
        ∀ m y e, .expr (.assign m y e) ∈ p.program.nodes →
          p.targets.find? y.mark.id ≠ some x := by
  intro p
  have nested : p.WellNested := bind_wellNested _ (anchor_nodup module text stmts)
  have ground := nested.toGrounded
  refine ⟨bind_decls_perm ground, fun d member => ?_, fun x several => ?_, bind_duplicates _,
    fun x => bind_frozen nested.once⟩
  · obtain ⟨x, -, target, own⟩ := bind_declares ground member
    exact ⟨x, target, own⟩
  · have some : (p.symbol x).decls ≠ [] := fun none => by
      rw [none] at several
      cases several
    obtain ⟨n, node, ⟨d, -, only⟩ | ⟨name, all⟩⟩ := bind_gathers some
    · rw [only] at several
      exact absurd several (Nat.lt_irrefl 1)
    · exact ⟨n, node, name, all⟩

end Source

end Solo

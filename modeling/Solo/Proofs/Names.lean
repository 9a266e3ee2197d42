import Mathlib.Data.List.Nodup
import Solo.Proofs.Binding

/-!
# Names of a bound program

What binding says of single nodes: a name that is read, called or assigned stands for a value, a
name of a type for a kind or a symbol, and a declaration has its symbol. The symbol of a binding
has one declaration, which says what the symbol is.
-/

namespace Solo

theorem Decl.mem_fns {ds : List Decl} {d : FnDecl Mark} : d ∈ ds.filterMap fn? ↔ .fn d ∈ ds := by
  refine List.mem_filterMap.trans ⟨?_, fun member => ⟨_, member, rfl⟩⟩
  rintro ⟨k, member, isFn⟩
  cases k <;> cases isFn
  exact member

namespace BoundProgram

variable (p : BoundProgram)

/-- A name stands for a value. -/
def IsValue (x : Ident Mark) : Prop :=
  ∃ s, p.symbolAt? x.mark.id = some s ∧ (p.symbol s).role.isValue = true

/-- A name stands for a type, or at least for something. -/
def IsType (x : Ident Mark) : Prop :=
  (p.targets.find? x.mark.id = none ∧ (Kind.ofName? x.name).isSome = true) ∨
    ∃ s, p.symbolAt? x.mark.id = some s

/-- What binding says of a node. -/
def Named : Node Mark → Prop
  | .expr (.name x) | .expr (.call _ x _) => p.IsValue x
  | .expr (.assign _ x _) =>
    p.IsValue x ∧ ∀ s, p.symbolAt? x.mark.id = some s → (p.symbol s).role ≠ .var true
  | .ty (.refer _ x) => p.IsType x
  | .stmt s => ∀ d, s.decl? = some d → ∃ x, p.Declares d x
  | .param q => ∃ x, p.Declares (.param q) x
  | _ => True

variable {p} {env : List SymbolId}

theorem Resolves.isValue {x : Ident Mark} (resolves : p.Resolves env x) : p.IsValue x := by
  obtain ⟨s, _, target, role⟩ := resolves
  exact ⟨s, target, role⟩

theorem ResolvesType.isType {x : Ident Mark} (resolves : p.ResolvesType env x) : p.IsType x := by
  rcases resolves with isKind | ⟨s, _, target⟩
  · exact .inl isKind
  · exact .inr ⟨s, target⟩

end BoundProgram

namespace BoundProgram.Declares

variable {p : BoundProgram} {d : Decl} {x : SymbolId}

theorem find? (declares : p.Declares d x) : p.targets.find? d.mark.id = some x := by
  have target := declares.target
  rw [symbolAt?, Option.filter_eq_some_iff] at target
  exact target.1

theorem head (declares : p.Declares d x) (other : ∀ f, d ≠ .fn f) :
    (p.symbol x).decls.head? = some d := by
  rw [declares.only, List.head?_cons]
  intro isFunction
  have role := declares.role
  rw [isFunction] at role
  cases d with
  | fn f => exact other f rfl
  | val d =>
    obtain ⟨_, kind, _, _, _⟩ := d
    cases kind <;> cases role
  | _ => cases role

theorem isBinding (declares : p.Declares d x) (binding : d.role.isBinding = true) :
    (p.symbol x).role.isBinding = true := by
  rw [← declares.role] at binding
  revert binding
  cases (p.symbol x).role <;> exact id

end BoundProgram.Declares

section
variable {p : BoundProgram}

theorem named_append {ns ks : List (Node Mark)} (first : ∀ n ∈ ns, p.Named n)
    (second : ∀ n ∈ ks, p.Named n) : ∀ n ∈ ns ++ ks, p.Named n := by
  intro n member
  rcases List.mem_append.mp member with early | late
  · exact first n early
  · exact second n late

theorem named_snoc {ns : List (Node Mark)} {k : Node Mark} (parts : ∀ n ∈ ns, p.Named n)
    (root : p.Named k) : ∀ n ∈ ns ++ [k], p.Named n :=
  named_append parts fun _ member => List.mem_singleton.mp member ▸ root

theorem named_cons {ns : List (Node Mark)} {k : Node Mark} (root : p.Named k)
    (parts : ∀ n ∈ ns, p.Named n) : ∀ n ∈ k :: ns, p.Named n := by
  intro n member
  rcases List.mem_cons.mp member with rfl | later
  · exact root
  · exact parts n later

theorem named_nil : ∀ n ∈ ([] : List (Node Mark)), p.Named n := by simp

theorem stmts_declared {env : List SymbolId} {ss : List (Stmt Mark)}
    (opens : p.Opens env (ss.filterMap Stmt.decl?)) : ∀ s ∈ ss, p.Named (.stmt s) :=
  fun s member d found => opens.declares d (List.mem_filterMap.mpr ⟨s, member, found⟩)

theorem params_declared {env : List SymbolId} {ps : List (Param Mark)}
    (opens : p.Opens env (ps.map .param)) : ∀ q ∈ ps, p.Named (.param q) :=
  fun _ member => opens.declares _ (List.mem_map_of_mem member)

mutual
theorem Expr.Scoped.named {env : List SymbolId} :
    ∀ {e : Expr Mark}, e.Scoped p env → ∀ n ∈ e.nodes, p.Named n
  | .lit _, _ => named_snoc named_nil trivial
  | .host _ _, _ => named_snoc named_nil trivial
  | .name _, resolves => named_snoc named_nil resolves.isValue
  | .paren _ _, inner => named_snoc (Expr.Scoped.named inner) trivial
  | .unary _ _ _, inner => named_snoc (Expr.Scoped.named inner) trivial
  | .bin _ _ _ _, ⟨left, right⟩ =>
    named_snoc (named_append (Expr.Scoped.named left) (Expr.Scoped.named right)) trivial
  | .call _ _ _, ⟨callee, args⟩ =>
    named_snoc (named_cons trivial (exprs_named args)) callee.isValue
  | .block _ _ _, ⟨opens, ss, tail⟩ =>
    named_snoc (named_append (stmts_named (stmts_declared opens) ss) (tail_named tail)) trivial
  | .assign _ _ _, ⟨⟨target, moving⟩, inner⟩ =>
    named_snoc (named_cons trivial (Expr.Scoped.named inner)) ⟨target.isValue, moving⟩
  | .cases _ _ _, ⟨inner, arms⟩ =>
    named_snoc (named_append (Expr.Scoped.named inner) (arms_named arms)) trivial
  | .inhabitant _ _, inner => named_snoc (TyNode.Scoped.named inner) trivial

theorem exprs_named {env : List SymbolId} :
    ∀ {es : List (Expr Mark)}, exprsScoped p env es → ∀ n ∈ exprsNodes es, p.Named n
  | [], _ => named_nil
  | _ :: _, ⟨head, rest⟩ => named_append (Expr.Scoped.named head) (exprs_named rest)

theorem tail_named {env : List SymbolId} :
    ∀ {tail : Option (Expr Mark)}, tailScoped p env tail → ∀ n ∈ tailNodes tail, p.Named n
  | none, _ => named_nil
  | some _, inner => Expr.Scoped.named inner

theorem arms_named {env : List SymbolId} :
    ∀ {arms : List (Arm Mark)}, armsScoped p env arms → ∀ n ∈ armsNodes arms, p.Named n
  | [], _ => named_nil
  | ⟨_, _, _⟩ :: _, ⟨pat, body, rest⟩ =>
    named_append
      (named_snoc (named_append (Pat.Scoped.named pat) (Expr.Scoped.named body)) trivial)
      (arms_named rest)

theorem Pat.Scoped.named {env : List SymbolId} :
    ∀ {q : Pat Mark}, q.Scoped p env → ∀ n ∈ q.nodes, p.Named n
  | .wildcard _, _ => named_snoc named_nil trivial
  | .lit _ _, _ => named_cons trivial (named_snoc named_nil trivial)
  | .typed _ _, inner => named_snoc (TyNode.Scoped.named inner) trivial

theorem TyNode.Scoped.named {env : List SymbolId} :
    ∀ {t : TyNode Mark}, t.Scoped p env → ∀ n ∈ t.nodes, p.Named n
  | .refer _ _, resolves => named_cons trivial (named_snoc named_nil resolves.isType)
  | .singleton _ _, inner => named_snoc (Expr.Scoped.named inner) trivial
  | .lit _ _ _, _ => named_cons trivial (named_snoc named_nil trivial)
  | .paren _ _, inner => named_snoc (TyNode.Scoped.named inner) trivial

theorem ty?_named {env : List SymbolId} :
    ∀ {t : Option (TyNode Mark)}, tyScoped? p env t → ∀ n ∈ tyNodes? t, p.Named n
  | none, _ => named_nil
  | some _, inner => TyNode.Scoped.named inner

theorem params_named {env : List SymbolId} :
    ∀ {ps : List (Param Mark)}, (∀ q ∈ ps, p.Named (.param q)) → paramsScoped p env ps →
      ∀ n ∈ paramsNodes ps, p.Named n
  | [], _, _ => named_nil
  | ⟨_, _, _⟩ :: _, own, ⟨ty, rest⟩ =>
    named_append
      (named_snoc (named_cons trivial (TyNode.Scoped.named ty)) (own _ List.mem_cons_self))
      (params_named (fun q member => own q (List.mem_cons_of_mem _ member)) rest)

theorem Stmt.Scoped.named {env : List SymbolId} :
    ∀ {s : Stmt Mark}, s.Scoped p env → ∀ n ∈ s.inner, p.Named n
  | .val ⟨_, _, _, _, _⟩, ⟨ty, init⟩ =>
    named_append (named_cons trivial (ty?_named ty)) (Expr.Scoped.named init)
  | .typeAlias ⟨_, _, _⟩, ty => named_cons trivial (TyNode.Scoped.named ty)
  | .fn ⟨_, _, _, _, _⟩, ⟨opens, params, result, body⟩ =>
    named_append
      (named_append (named_cons trivial (params_named (params_declared opens) params))
        (ty?_named result))
      (Expr.Scoped.named body)
  | .expr _ _, inner => Expr.Scoped.named inner

theorem stmts_named {env : List SymbolId} :
    ∀ {ss : List (Stmt Mark)}, (∀ s ∈ ss, p.Named (.stmt s)) → stmtsScoped p env ss →
      ∀ n ∈ stmtsNodes ss, p.Named n
  | [], _, _ => named_nil
  | s :: _, own, ⟨head, rest⟩ =>
    named_append
      (s.inner_append ▸ named_snoc (Stmt.Scoped.named head) (own _ List.mem_cons_self))
      (stmts_named (fun s member => own s (List.mem_cons_of_mem _ member)) rest)
end

end

theorem Decl.name_below : ∀ d : Decl, .ident d.name ∈ d.node.below
  | .val ⟨_, _, _, _, _⟩ | .param ⟨_, _, _⟩ | .typeAlias ⟨_, _, _⟩ | .fn ⟨_, _, _, _, _⟩ =>
    List.mem_cons_self

/-- With a node, a program has what lies below it. -/
theorem Program.mem_below {q : Program Mark} {n k : Node Mark} (node : n ∈ q.nodes)
    (below : k ∈ n.below) : k ∈ q.nodes := (q.closed n node).subset below

theorem Program.param_of_fn {q : Program Mark} {d : FnDecl Mark} (node : .stmt (.fn d) ∈ q.nodes)
    {a : Param Mark} (member : a ∈ d.params) : .param a ∈ q.nodes := by
  obtain ⟨m, x, qs, result, e⟩ := d
  exact mem_below node (List.mem_append_left _ (List.mem_append_left _
    (List.mem_append_left _ (List.mem_cons_of_mem _ (mem_paramsNodes member)))))

theorem Program.body_of_fn {q : Program Mark} {d : FnDecl Mark} (node : .stmt (.fn d) ∈ q.nodes) :
    d.body.nodes ⊆ q.nodes := by
  obtain ⟨m, x, qs, result, e⟩ := d
  exact fun k member => mem_below node (List.mem_append_left _ (List.mem_append_right _ member))

namespace BoundProgram.WellBound

variable {p : BoundProgram}

theorem named (bound : p.WellBound) : ∀ n ∈ p.program.nodes, p.Named n :=
  named_snoc (stmts_named (stmts_declared bound.opens) bound.names) trivial

theorem node_unique (bound : p.WellBound) {n k : Node Mark} (first : n ∈ p.program.nodes)
    (second : k ∈ p.program.nodes) (same : n.mark.id = k.mark.id) : n = k :=
  List.inj_on_of_nodup_map bound.distinct first second same

theorem symbol_of_large {x : SymbolId} (large : p.symbols.size ≤ x) :
    p.symbol x = .unresolved := by
  rw [symbol, Array.getD_eq_getD_getElem?, Array.getElem?_eq_none large, Option.getD_none]

/-- All symbols but the first two are declared. -/
theorem owns_of_role (bound : p.WellBound) {x : SymbolId}
    (resolved : (p.symbol x).role ≠ .unresolved) (declared : (p.symbol x).role ≠ .builtin) :
    p.Owns x := by
  by_cases small : x < p.symbols.size
  · match x with
    | 0 => exact absurd (by rw [bound.unresolved]; rfl) resolved
    | 1 => exact absurd (by rw [bound.builtin]) declared
    | x + 2 => exact bound.owns (x + 2) (Nat.le_add_left 2 x) small
  · exact absurd (by rw [symbol_of_large (Nat.not_lt.mp small)]; rfl) resolved

/-- The symbol of a binding has one declaration, which stands for it. -/
theorem binding_decl (bound : p.WellBound) {x : SymbolId}
    (binding : (p.symbol x).role.isBinding = true) :
    ∃ d, (p.symbol x).decls = [d] ∧ p.Declares d x ∧ d.node ∈ p.program.nodes := by
  have other : ∀ r : Role, r.isBinding = false → (p.symbol x).role ≠ r := by
    intro r noBinding same
    rw [same, noBinding] at binding
    cases binding
  have owns := bound.owns_of_role (other _ rfl) (other _ rfl)
  obtain ⟨d, only⟩ := owns.only (other _ rfl)
  obtain ⟨node, role, target⟩ := owns.each d (only ▸ List.mem_cons_self)
  exact ⟨d, only, ⟨target, only ▸ List.mem_cons_self, role, fun _ => only⟩, node⟩

/-- The symbol of an alias has one declaration, which is an alias. -/
theorem alias_decl (bound : p.WellBound) {x : SymbolId}
    (isType : (p.symbol x).role.isType = true) :
    ∃ d, (p.symbol x).decls = [.typeAlias d] ∧ .stmt (.typeAlias d) ∈ p.program.nodes := by
  have other : ∀ r : Role, r.isType = false → (p.symbol x).role ≠ r := by
    intro r noType same
    rw [same, noType] at isType
    cases isType
  have owns := bound.owns_of_role (other _ rfl) (other _ rfl)
  obtain ⟨d, only⟩ := owns.only (other _ rfl)
  obtain ⟨node, role, _⟩ := owns.each d (only ▸ List.mem_cons_self)
  rw [← Role.isType_thaw, role] at isType
  cases d with
  | typeAlias d => exact ⟨d, only, node⟩
  | val d =>
    obtain ⟨_, kind, _, _, _⟩ := d
    cases kind <;> cases isType
  | _ => cases isType

end BoundProgram.WellBound

end Solo

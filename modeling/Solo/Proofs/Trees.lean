import Solo.Syntax.Node

/-!
# Parts of trees

The nodes of a tree come in the order in which they are built, so the nodes below a node form a
stretch that ends with it. A list of nodes is `Closed` if it has such a stretch for each of its
members; the nodes of every tree are.
-/

namespace Solo

variable {ν : Type}

theorem Program.node_of_function {p : Program ν} {d : FnDecl ν} (member : d ∈ p.functions) :
    .stmt (.fn d) ∈ p.nodes := by
  obtain ⟨n, node, same⟩ := List.mem_filterMap.mp member
  split at same
  · cases same
    exact node
  · cases same

def Node.below : Node ν → List (Node ν)
  | .ident x => [.ident x]
  | .lit l => [.lit l]
  | .expr e => e.nodes
  | .arm a => a.nodes
  | .pat p => p.nodes
  | .ty t => t.nodes
  | .param p => p.nodes
  | .stmt s => s.nodes
  | .program p => p.nodes

theorem exprsNodes_eq (es : List (Expr ν)) : exprsNodes es = es.flatMap Expr.nodes := by
  induction es with
  | nil => rfl
  | cons e es ih => rw [exprsNodes, ih, List.flatMap_cons]

theorem armsNodes_eq (arms : List (Arm ν)) : armsNodes arms = arms.flatMap Arm.nodes := by
  induction arms with
  | nil => rfl
  | cons a arms ih => rw [armsNodes, ih, List.flatMap_cons]

theorem paramsNodes_eq (qs : List (Param ν)) : paramsNodes qs = qs.flatMap Param.nodes := by
  induction qs with
  | nil => rfl
  | cons q qs ih => rw [paramsNodes, ih, List.flatMap_cons]

theorem stmtsNodes_eq (ss : List (Stmt ν)) : stmtsNodes ss = ss.flatMap Stmt.nodes := by
  induction ss with
  | nil => rfl
  | cons s ss ih => rw [stmtsNodes, ih, List.flatMap_cons]

theorem tailNodes_eq (tail : Option (Expr ν)) : tailNodes tail = tail.toList.flatMap Expr.nodes := by
  cases tail <;> simp [tailNodes]

theorem tyNodes?_eq (t : Option (TyNode ν)) : tyNodes? t = t.toList.flatMap TyNode.nodes := by
  cases t <;> simp [tyNodes?]

/-- The nodes right below a node, in the order in which they are built. -/
def Node.children : Node ν → List (Node ν)
  | .ident _ | .lit _ => []
  | .expr (.lit _) | .expr (.name _) | .expr (.host _ _) => []
  | .expr (.paren _ e) | .expr (.unary _ _ e) => [.expr e]
  | .expr (.bin _ _ l r) => [.expr l, .expr r]
  | .expr (.call _ f args) => .ident f :: args.map .expr
  | .expr (.block _ ss tail) => ss.map .stmt ++ tail.toList.map .expr
  | .expr (.assign _ x e) => [.ident x, .expr e]
  | .expr (.cases _ e arms) => .expr e :: arms.map .arm
  | .expr (.inhabitant _ t) => [.ty t]
  | .arm a => [.pat a.pat, .expr a.body]
  | .pat (.wildcard _) => []
  | .pat (.lit _ l) => [.lit l]
  | .pat (.typed _ t) => [.ty t]
  | .ty (.refer _ x) => [.ident x]
  | .ty (.singleton _ e) => [.expr e]
  | .ty (.lit _ l _) => [.lit l]
  | .ty (.paren _ t) => [.ty t]
  | .param q => [.ident q.name, .ty q.ty]
  | .stmt (.val d) => .ident d.name :: d.ty.toList.map .ty ++ [.expr d.init]
  | .stmt (.typeAlias d) => [.ident d.name, .ty d.ty]
  | .stmt (.fn d) =>
    .ident d.name :: d.params.map .param ++ d.result.toList.map .ty ++ [.expr d.body]
  | .stmt (.expr _ e) => [.expr e]
  | .program q => q.stmts.map .stmt

/-- A node comes right after what is below its children, child by child. -/
theorem Node.below_eq (n : Node ν) : n.below = n.children.flatMap below ++ [n] := by
  cases n with
  | ident x => rfl
  | lit l => rfl
  | expr e =>
    cases e <;>
      simp [below, children, Expr.nodes, exprsNodes_eq, stmtsNodes_eq, tailNodes_eq, armsNodes_eq,
        List.flatMap_map]
  | arm a =>
    obtain ⟨m, q, e⟩ := a
    simp [below, children, Arm.nodes]
  | pat q => cases q <;> simp [below, children, Pat.nodes]
  | ty t => cases t <;> simp [below, children, TyNode.nodes]
  | param q =>
    obtain ⟨m, x, t⟩ := q
    simp [below, children, Param.nodes]
  | stmt s =>
    match s with
    | .val ⟨m, k, x, t, e⟩ => simp [below, children, Stmt.nodes, tyNodes?_eq, List.flatMap_map]
    | .typeAlias ⟨m, x, t⟩ => simp [below, children, Stmt.nodes]
    | .fn ⟨m, x, qs, t, e⟩ =>
      simp [below, children, Stmt.nodes, paramsNodes_eq, tyNodes?_eq, List.flatMap_map]
    | .expr m e => simp [below, children, Stmt.nodes]
  | program q => simp [below, children, Program.nodes, stmtsNodes_eq, List.flatMap_map]

theorem Node.below_suffix (n : Node ν) : [n] <:+ n.below := ⟨_, n.below_eq.symm⟩

theorem Expr.mem_nodes (e : Expr ν) : Node.expr e ∈ e.nodes := by
  cases e <;> simp [nodes]

theorem Expr.mem_exprsNodes {es : List (Expr ν)} {e : Expr ν} (member : e ∈ es) :
    Node.expr e ∈ exprsNodes es := by
  rw [exprsNodes_eq]
  exact List.mem_flatMap.mpr ⟨e, member, e.mem_nodes⟩

theorem TyNode.mem_nodes (t : TyNode ν) : Node.ty t ∈ t.nodes := by
  cases t <;> simp [nodes]

theorem Param.mem_nodes (q : Param ν) : Node.param q ∈ q.nodes := by
  obtain ⟨m, x, t⟩ := q
  simp [nodes]

theorem mem_paramsNodes : ∀ {qs : List (Param ν)} {q : Param ν}, q ∈ qs →
    Node.param q ∈ paramsNodes qs
  | _ :: _, _, member => by
    rcases List.mem_cons.mp member with rfl | later
    · exact List.mem_append_left _ (Param.mem_nodes _)
    · exact List.mem_append_right _ (mem_paramsNodes later)

theorem Param.mem_nodes_ty (q : Param ν) : Node.ty q.ty ∈ q.nodes := by
  obtain ⟨m, x, t⟩ := q
  simp [nodes, t.mem_nodes]

theorem Pat.mem_nodes (p : Pat ν) : Node.pat p ∈ p.nodes := by
  cases p <;> simp [nodes]

theorem Stmt.mem_nodes : ∀ s : Stmt ν, Node.stmt s ∈ s.nodes
  | .val ⟨_, _, _, _, _⟩ => by simp [nodes]
  | .typeAlias ⟨_, _, _⟩ => by simp [nodes]
  | .fn ⟨_, _, _, _, _⟩ => by simp [nodes]
  | .expr _ _ => by simp [nodes]

/-- With a node, the list has everything below it, in one stretch. -/
def Closed (ns : List (Node ν)) : Prop := ∀ n ∈ ns, n.below <:+: ns

namespace Closed

theorem nil : Closed ([] : List (Node ν)) := by
  intro n member
  cases member

theorem leaf {n : Node ν} (alone : n.below = [n]) : Closed [n] := by
  intro k member
  obtain rfl := List.mem_singleton.mp member
  exact ⟨[], [], by simpa using alone⟩

theorem append {ns ks : List (Node ν)} (first : Closed ns) (second : Closed ks) :
    Closed (ns ++ ks) := by
  intro n member
  rcases List.mem_append.mp member with old | new
  · exact (first n old).trans (List.prefix_append ns ks).isInfix
  · exact (second n new).trans (List.suffix_append ns ks).isInfix

theorem snoc {ns : List (Node ν)} {n : Node ν} (parts : Closed ns) (root : n.below = ns ++ [n]) :
    Closed (ns ++ [n]) := by
  intro k member
  rcases List.mem_append.mp member with inner | last
  · exact (parts k inner).trans (List.prefix_append ns [n]).isInfix
  · obtain rfl := List.mem_singleton.mp last
    exact ⟨[], [], by simpa using root⟩

end Closed

mutual
theorem Expr.closed : ∀ e : Expr ν, Closed e.nodes
  | .lit _ => .leaf rfl
  | .name _ => .leaf rfl
  | .paren _ e => e.closed.snoc rfl
  | .unary _ _ e => e.closed.snoc rfl
  | .bin _ _ l r => (l.closed.append r.closed).snoc rfl
  | .call _ f args => ((Closed.leaf (n := .ident f) rfl).append (exprs_closed args)).snoc rfl
  | .block _ ss tail => ((stmts_closed ss).append (tail_closed tail)).snoc rfl
  | .assign _ x e => ((Closed.leaf (n := .ident x) rfl).append e.closed).snoc rfl
  | .cases _ e arms => (e.closed.append (arms_closed arms)).snoc rfl
  | .inhabitant _ t => t.closed.snoc rfl
  | .host _ _ => .leaf rfl

theorem exprs_closed : ∀ es : List (Expr ν), Closed (exprsNodes es)
  | [] => .nil
  | e :: es => e.closed.append (exprs_closed es)

theorem tail_closed : ∀ tail : Option (Expr ν), Closed (tailNodes tail)
  | none => .nil
  | some e => e.closed

theorem Arm.closed : ∀ a : Arm ν, Closed a.nodes
  | ⟨_, p, e⟩ => (p.closed.append e.closed).snoc rfl

theorem arms_closed : ∀ arms : List (Arm ν), Closed (armsNodes arms)
  | [] => .nil
  | a :: as => a.closed.append (arms_closed as)

theorem Pat.closed : ∀ p : Pat ν, Closed p.nodes
  | .wildcard _ => .leaf rfl
  | .lit _ l => (Closed.leaf (n := .lit l) rfl).snoc rfl
  | .typed _ t => t.closed.snoc rfl

theorem TyNode.closed : ∀ t : TyNode ν, Closed t.nodes
  | .refer _ x => (Closed.leaf (n := .ident x) rfl).snoc rfl
  | .singleton _ e => e.closed.snoc rfl
  | .lit _ l _ => (Closed.leaf (n := .lit l) rfl).snoc rfl
  | .paren _ t => t.closed.snoc rfl

theorem tyNodes?_closed : ∀ t : Option (TyNode ν), Closed (tyNodes? t)
  | none => .nil
  | some t => t.closed

theorem Param.closed : ∀ p : Param ν, Closed p.nodes
  | ⟨_, x, t⟩ => ((Closed.leaf (n := .ident x) rfl).append t.closed).snoc rfl

theorem params_closed : ∀ ps : List (Param ν), Closed (paramsNodes ps)
  | [] => .nil
  | p :: ps => p.closed.append (params_closed ps)

theorem Stmt.closed : ∀ s : Stmt ν, Closed s.nodes
  | .val ⟨_, _, x, t, e⟩ =>
    (((Closed.leaf (n := .ident x) rfl).append (tyNodes?_closed t)).append e.closed).snoc rfl
  | .typeAlias ⟨_, x, t⟩ => ((Closed.leaf (n := .ident x) rfl).append t.closed).snoc rfl
  | .fn ⟨_, x, ps, t, e⟩ =>
    ((((Closed.leaf (n := .ident x) rfl).append (params_closed ps)).append
      (tyNodes?_closed t)).append e.closed).snoc rfl
  | .expr _ e => e.closed.snoc rfl

theorem stmts_closed : ∀ ss : List (Stmt ν), Closed (stmtsNodes ss)
  | [] => .nil
  | s :: ss => s.closed.append (stmts_closed ss)
end

theorem Program.closed (p : Program ν) : Closed p.nodes := (stmts_closed p.stmts).snoc rfl

theorem Node.closed (n : Node ν) : Closed n.below := by
  cases n with
  | ident x => exact .leaf rfl
  | lit l => exact .leaf rfl
  | expr e => exact e.closed
  | arm a => exact a.closed
  | pat q => exact q.closed
  | ty t => exact t.closed
  | param q => exact q.closed
  | stmt s => exact s.closed
  | program q => exact q.closed

theorem closed_flatMap (ns : List (Node ν)) : Closed (ns.flatMap Node.below) := by
  induction ns with
  | nil => exact .nil
  | cons n ns ih =>
    rw [List.flatMap_cons]
    exact n.closed.append ih

end Solo

import Mathlib.Data.List.Pairwise
import Solo.Proofs.Grounding

/-!
# Nesting

Where a part of a program stands: everything around it, innermost first. A part stands at one place
only, and what a name stands for is declared by a block, a parameter list or the program around the
name. This holds of every program, also of one with errors.
-/

namespace Solo

/-- The parts right below a node. What stands before `.type` is none, since it is not typed. -/
def Node.parts : Node Mark → List (Node Mark)
  | .expr (.paren _ e) | .expr (.unary _ _ e) | .expr (.assign _ _ e) => [.expr e]
  | .expr (.bin _ _ a b) => [.expr a, .expr b]
  | .expr (.call _ _ args) => args.map .expr
  | .expr (.block _ ss tail) => ss.map .stmt ++ tail.toList.map .expr
  | .expr (.cases _ e arms) => .expr e :: arms.flatMap fun a => [.pat a.pat, .expr a.body]
  | .expr (.inhabitant _ t) => [.ty t]
  | .pat (.typed _ t) => [.ty t]
  | .ty (.paren _ t) => [.ty t]
  | .param q => [.ty q.ty]
  | .stmt (.val d) => d.ty.toList.map .ty ++ [.expr d.init]
  | .stmt (.typeAlias d) => [.ty d.ty]
  | .stmt (.fn d) => d.params.map .param ++ (d.result.toList.map .ty ++ [.expr d.body])
  | .stmt (.expr _ e) => [.expr e]
  | .program q => q.stmts.map .stmt
  | _ => []

/-- `Under L n K k`: if `L` is around `n`, then `k` is a part of `n` with `K` around it. -/
inductive Under : List (Node Mark) → Node Mark → List (Node Mark) → Node Mark → Prop
  | here {L : List (Node Mark)} {n : Node Mark} : Under L n L n
  | down {L K : List (Node Mark)} {n k j : Node Mark} :
    j ∈ n.parts → Under (n :: L) j K k → Under L n K k

/-- A program has a node with `L` around it. -/
def BoundProgram.At (p : BoundProgram) (L : List (Node Mark)) (n : Node Mark) : Prop :=
  Under [] (.program p.program) L n

/-! ### Places are unique -/

theorem Expr.parts_sublist (e : Expr Mark) :
    ((Node.expr e).parts.flatMap Node.below ++ [Node.expr e]).Sublist e.nodes := by
  cases e with
  | call m f args =>
    simp only [Node.parts, Expr.nodes, exprsNodes_eq, List.flatMap_map, Node.below, List.cons_append]
    exact .cons _ (.refl _)
  | block m ss tail =>
    simp only [Node.parts, Expr.nodes, stmtsNodes_eq, tailNodes_eq, List.flatMap_append,
      List.flatMap_map, Node.below]
    exact .refl _
  | cases m e arms =>
    have each : ∀ arms : List (Arm Mark),
        ((arms.flatMap fun a => [Node.pat a.pat, .expr a.body]).flatMap Node.below).Sublist
          (arms.flatMap Arm.nodes) := by
      intro arms
      induction arms with
      | nil => exact .refl _
      | cons a arms ih =>
        obtain ⟨m, q, e⟩ := a
        simp only [List.flatMap_cons, List.flatMap_append, List.flatMap_nil, List.append_nil, Arm.nodes,
          Node.below]
        exact (List.sublist_append_left _ _).append ih
    simp only [Node.parts, Expr.nodes, armsNodes_eq, List.flatMap_cons]
    exact ((List.Sublist.refl _).append (each arms)).append (.refl _)
  | assign m x e =>
    simp only [Node.parts, Expr.nodes, List.flatMap_cons, List.flatMap_nil, List.append_nil, Node.below,
      List.cons_append]
    exact .cons _ (.refl _)
  | _ => simp [Node.parts, Expr.nodes, Node.below]

theorem Stmt.parts_sublist (s : Stmt Mark) :
    ((Node.stmt s).parts.flatMap Node.below ++ [Node.stmt s]).Sublist s.nodes := by
  cases s with
  | val v =>
    obtain ⟨m, k, x, t, e⟩ := v
    simp only [Node.parts, Stmt.nodes, tyNodes?_eq, List.flatMap_append, List.flatMap_map, Node.below,
      List.flatMap_cons, List.flatMap_nil, List.append_nil, List.cons_append]
    exact .cons _ (.refl _)
  | typeAlias d =>
    obtain ⟨m, x, t⟩ := d
    simp only [Node.parts, Stmt.nodes, List.flatMap_cons, List.flatMap_nil, List.append_nil, Node.below,
      List.cons_append]
    exact .cons _ (.refl _)
  | fn d =>
    obtain ⟨m, x, qs, t, e⟩ := d
    simp only [Node.parts, Stmt.nodes, paramsNodes_eq, tyNodes?_eq, List.flatMap_append,
      List.flatMap_map, Node.below, List.flatMap_cons, List.flatMap_nil, List.append_nil,
      List.cons_append, List.append_assoc]
    exact .cons _ (.refl _)
  | expr m e => simp [Node.parts, Stmt.nodes, Node.below]

/-- The nodes of a node's parts stand one after the other among its nodes, and it comes last. -/
theorem Node.parts_sublist (n : Node Mark) : (n.parts.flatMap Node.below ++ [n]).Sublist n.below := by
  cases n with
  | expr e => exact e.parts_sublist
  | stmt s => exact s.parts_sublist
  | ident x => exact .refl _
  | lit l => exact .refl _
  | arm a => exact (below_suffix _).sublist
  | pat q =>
    cases q with
    | typed m t => simp [parts, below, Pat.nodes]
    | _ => exact (below_suffix _).sublist
  | ty t =>
    cases t with
    | paren m t => simp [parts, below, TyNode.nodes]
    | _ => exact (below_suffix _).sublist
  | param q =>
    obtain ⟨m, x, t⟩ := q
    simp only [parts, below, Param.nodes, List.flatMap_cons, List.flatMap_nil, List.append_nil,
      List.cons_append]
    exact .cons _ (.refl _)
  | program q =>
    simp only [parts, below, Program.nodes, stmtsNodes_eq, List.flatMap_map]
    exact .refl _

theorem Node.part_below {n k : Node Mark} (part : k ∈ n.parts) : k.below ⊆ n.below := fun _ inside =>
  n.parts_sublist.subset (List.mem_append_left _ (List.mem_flatMap.mpr ⟨k, part, inside⟩))

theorem Program.mem_part {q : Program Mark} {n k : Node Mark} (node : n ∈ q.nodes)
    (part : k ∈ n.parts) : k ∈ q.nodes :=
  Program.mem_below node (Node.part_below part (k.below_suffix.subset List.mem_cons_self))

namespace Under

variable {L K M : List (Node Mark)} {n k j : Node Mark}

theorem mem_below (under : Under L n K k) : k ∈ n.below := by
  induction under with
  | here => exact (Node.below_suffix _).subset List.mem_cons_self
  | @down L K n k j part _ ih =>
    exact Node.part_below part ih

theorem part (under : Under L n K k) (part : j ∈ k.parts) : Under L n (k :: K) j := by
  induction under with
  | here => exact .down part .here
  | down first _ ih => exact .down first (ih part)

theorem unique (distinct : (n.below.map (·.mark.id)).Nodup) (first : Under L n K k)
    (second : Under L n M j) (same : k.mark.id = j.mark.id) : K = M ∧ k = j := by
  have apart : ∀ {n : Node Mark}, (n.below.map (·.mark.id)).Nodup →
      ((n.parts.flatMap Node.below).map (·.mark.id)).Nodup ∧
        ∀ i ∈ n.parts, ∀ k ∈ i.below, k.mark.id ≠ n.mark.id := by
    intro n distinct
    have parts := distinct.sublist (n.parts_sublist.map (·.mark.id))
    rw [List.map_append, List.nodup_append] at parts
    refine ⟨parts.1, fun i part k below => parts.2.2 _ (List.mem_map_of_mem ?_) _ (by simp)⟩
    exact List.mem_flatMap.mpr ⟨i, part, below⟩
  induction first with
  | here =>
    cases second with
    | here => exact ⟨rfl, rfl⟩
    | down part under => exact absurd same.symm ((apart distinct).2 _ part _ under.mem_below)
  | @down L K n k i part under ih =>
    obtain ⟨parts, above⟩ := apart distinct
    cases second with
    | here => exact absurd same (above _ part _ under.mem_below)
    | @down _ _ _ _ i' part' under' =>
      rw [List.map_flatMap, List.nodup_flatMap] at parts
      obtain rfl : i = i' := by
        by_contra other
        have : Std.Symm (Function.onFun List.Disjoint fun a : Node Mark =>
            a.below.map (·.mark.id)) := ⟨fun _ _ disjoint => List.disjoint_symm disjoint⟩
        have disjoint := parts.2.forall part part' other
        exact disjoint (List.mem_map_of_mem under.mem_below) (same ▸ List.mem_map_of_mem under'.mem_below)
      exact ih (parts.1 _ part) under' same

/-- A part stands right below a node, unless it is all there is. -/
theorem parent (under : Under L n K k) :
    (K = L ∧ k = n) ∨ ∃ j M, K = j :: M ∧ k ∈ j.parts ∧ Under L n M j := by
  induction under with
  | here => exact .inl ⟨rfl, rfl⟩
  | down part _ ih =>
    rcases ih with ⟨rfl, rfl⟩ | ⟨j, M, rfl, inside, under⟩
    · exact .inr ⟨_, _, rfl, part, .here⟩
    · exact .inr ⟨j, M, rfl, inside, .down part under⟩

end Under

namespace BoundProgram

variable {p : BoundProgram} {L K : List (Node Mark)} {n k : Node Mark}

theorem At.part (place : p.At L n) (part : k ∈ n.parts) : p.At (n :: L) k := Under.part place part

theorem At.node (place : p.At L n) : n ∈ p.program.nodes := place.mem_below

/-- A statement stands in the program or in a block. -/
theorem At.stmt_parent {s : Stmt Mark} (place : p.At L (.stmt s)) :
    s ∈ p.program.stmts ∨ ∃ K m ss tail, L = .expr (.block m ss tail) :: K ∧ s ∈ ss ∧
      p.At K (.expr (.block m ss tail)) := by
  rcases Under.parent place with ⟨_, wrong⟩ | ⟨j, M, rfl, inside, under⟩
  · cases wrong
  cases j with
  | program q =>
    have whole : Node.program q = .program p.program := by
      rcases Under.parent under with ⟨_, same⟩ | ⟨j, _, _, wrong, _⟩
      · exact same
      · cases j with
        | expr e => cases e <;> simp [Node.parts] at wrong
        | stmt s => cases s <;> simp [Node.parts] at wrong
        | pat q => cases q <;> simp [Node.parts] at wrong
        | ty t => cases t <;> simp [Node.parts] at wrong
        | _ => simp [Node.parts] at wrong
    cases whole
    exact .inl (by simpa [Node.parts] using inside)
  | expr e =>
    cases e with
    | block m ss tail =>
      exact .inr ⟨M, m, ss, tail, rfl, by simpa [Node.parts] using inside, under⟩
    | _ => simp [Node.parts] at inside
  | stmt s => cases s <;> simp [Node.parts] at inside
  | pat q => cases q <;> simp [Node.parts] at inside
  | ty t => cases t <;> simp [Node.parts] at inside
  | _ => simp [Node.parts] at inside

theorem Grounded.place_unique (ground : p.Grounded) (first : p.At L n) (second : p.At K k)
    (same : n.mark.id = k.mark.id) : L = K ∧ n = k :=
  Under.unique (n := .program p.program) ground.distinct first second same

end BoundProgram

/-! ### Scopes around a place -/

def Node.opens : Node Mark → Bool
  | .program _ | .stmt (.fn _) | .expr (.block _ _ _) => true
  | _ => false

/-- The innermost scope around a place, and everything around it. -/
def scopesOf (L : List (Node Mark)) : List (Node Mark) := L.dropWhile fun n => !n.opens

theorem scopesOf_subset (L : List (Node Mark)) : scopesOf L ⊆ L :=
  (List.dropWhile_suffix _).subset

namespace BoundProgram

variable (p : BoundProgram)

/-- Every declaration of a symbol stands at a place with nothing but `L` around it. -/
def Sees (L : List (Node Mark)) (x : SymbolId) : Prop :=
  ∀ d ∈ (p.symbol x).decls, ∃ K, p.At K d.node ∧ K ⊆ L

/-- What a name at a place stands for is declared around the place. -/
def Finds (L : List (Node Mark)) (x : Ident Mark) : Prop :=
  ∀ s, p.symbolAt? x.mark.id = some s → p.Sees (scopesOf L) s

/-- A declaration at a place has a symbol of that place. -/
def Introduces (L : List (Node Mark)) (d : Decl) : Prop := ∃ x, p.Declares d x ∧ p.Sees L x

/-- What a node declares has a symbol of its place. -/
def Introduced (L : List (Node Mark)) : Node Mark → Prop
  | .param q => p.Introduces L (.param q)
  | .stmt s => ∀ d, s.decl? = some d → p.Introduces L d
  | _ => True

/-- What a node names is declared around it. -/
def Resolved (L : List (Node Mark)) : Node Mark → Prop
  | .expr (.name x) | .expr (.call _ x _) | .expr (.assign _ x _) => p.Finds L x
  | .ty (.refer _ x) | .ty (.singleton _ (.name x)) => p.Finds L x
  | _ => True

/-- A node and its parts have the symbols that their places give them. -/
def Deep (L : List (Node Mark)) (n : Node Mark) : Prop :=
  ∀ K k, Under L n K k → p.Resolved K k ∧ p.Introduced K k

/-- All symbols of a list are declared around a place. -/
def Surrounds (L : List (Node Mark)) (env : List SymbolId) : Prop :=
  ∀ x ∈ env, p.Sees (scopesOf L) x

variable {p} {L K : List (Node Mark)} {n k : Node Mark} {env : List SymbolId}

theorem Sees.mono {x : SymbolId} (sees : p.Sees L x) (wider : L ⊆ K) : p.Sees K x := by
  intro d member
  obtain ⟨M, place, inside⟩ := sees d member
  exact ⟨M, place, fun _ around => wider (inside around)⟩

theorem Deep.intro (resolved : p.Resolved L n) (introduced : p.Introduced L n)
    (parts : ∀ k ∈ n.parts, p.Deep (n :: L) k) : p.Deep L n := by
  intro K k under
  cases under with
  | here => exact ⟨resolved, introduced⟩
  | down part under => exact parts _ part K k under

/-- Only the parts of a scope are declarations. -/
theorem introduced_of_plain (plain : n.opens = false) (part : k ∈ n.parts) :
    p.Introduced L k := by
  have expr : ∀ e, p.Introduced L (.expr e) := fun _ => trivial
  have ty : ∀ t, p.Introduced L (.ty t) := fun _ => trivial
  have pat : ∀ q, p.Introduced L (.pat q) := fun _ => trivial
  cases n with
  | expr e => cases e <;> simp_all [Node.parts, Node.opens] <;> grind
  | stmt s => cases s <;> simp_all [Node.parts, Node.opens]; grind
  | pat q => cases q <;> simp_all [Node.parts]
  | ty t => cases t <;> simp_all [Node.parts]
  | param q => simp_all [Node.parts]
  | program q => cases plain
  | _ => cases part

/-- The declarations of a scope are around its parts. -/
theorem Opens.surrounds {ds : List Decl} (opens : p.Opens env ds)
    (places : ∀ d ∈ ds, p.At (n :: L) d.node) (around : p.Surrounds L env)
    (scope : n.opens = true) : p.Surrounds (n :: L) (p.symbolsOf ds ++ env) := by
  have self : scopesOf (n :: L) = n :: L := by simp [scopesOf, scope]
  intro x member
  rw [self]
  rcases List.mem_append.mp member with own | outer
  · exact fun d decl => ⟨n :: L, places d (opens.owned x own d decl), List.Subset.refl _⟩
  · exact (around x outer).mono fun k inside => List.mem_cons_of_mem n (scopesOf_subset L inside)

theorem Opens.introduces {ds : List Decl} (opens : p.Opens env ds)
    (places : ∀ d ∈ ds, p.At L d.node) {d : Decl} (member : d ∈ ds) : p.Introduces L d := by
  obtain ⟨x, declares⟩ := opens.declares d member
  refine ⟨x, declares, fun k decl => ⟨L, places k (opens.owned x ?_ k decl), List.Subset.refl _⟩⟩
  exact List.mem_filterMap.mpr ⟨d, member, declares.target⟩

end BoundProgram

/-! ### Binding looks around -/

section
variable {N ns ms : List (Node Mark)} {env : List SymbolId} {a c : Binding Unit}

/-- An action that binds the nodes `ns` and resolves what a node names. -/
def Resolving (N : List (Node Mark)) (env : List SymbolId) (ns : List (Node Mark))
    (a : Binding Unit) (n : Node Mark) : Prop :=
  Binds (fun _ => True) N env ns a fun p => ∀ L, p.Surrounds L env → p.Resolved L n

theorem resolveValue_finds {b : Binder} {x : Ident Mark}
    (unbound : b.targets.find? x.mark.id = none) (visible : b.Visible env) {s : SymbolId}
    (target : (Binding.resolveValue x b).2.targets.find? x.mark.id = some s) :
    s = Symbol.unresolvedId ∨ s ∈ env := by
  rw [Binding.resolveValue_apply] at target
  cases found : b.lookup? .value x.name with
  | some s' =>
    rw [found, Table.find?_push_self unbound] at target
    cases target
    exact .inr (visible.lookup found).1
  | none =>
    rw [found, Table.find?_push_self unbound] at target
    cases target
    exact .inl rfl

theorem resolveType_finds {b : Binder} {x : Ident Mark}
    (unbound : b.targets.find? x.mark.id = none) (visible : b.Visible env) {s : SymbolId}
    (target : (Binding.resolveType x b).2.targets.find? x.mark.id = some s) :
    s = Symbol.unresolvedId ∨ s ∈ env := by
  rw [Binding.resolveType_apply] at target
  cases found : b.lookup? .type x.name with
  | some s' =>
    rw [found, Table.find?_push_self unbound] at target
    cases target
    exact .inr (visible.lookup found).1
  | none =>
    rw [found] at target
    dsimp only at target
    split at target
    · rw [unbound] at target
      cases target
    · exact resolveValue_finds unbound visible target

namespace Resolving

variable {n k : Node Mark} {x : Ident Mark}

theorem nothing (plain : ∀ p L, BoundProgram.Resolved p L n) :
    Resolving N env [] (pure ()) n :=
  (Binds.nothing N env).imp fun p _ L _ => plain p L

/-- An action that resolves a name to something visible. -/
theorem name {H P : BoundProgram → Prop} (same : k.mark = x.mark) (binds : Binds H N env [k] a P)
    (finds : ∀ b : Binder, b.targets.find? x.mark.id = none → b.Visible env → ∀ s,
      (a b).2.targets.find? x.mark.id = some s → s = Symbol.unresolvedId ∨ s ∈ env)
    (names : ∀ p L, BoundProgram.Finds p L x → BoundProgram.Resolved p L n) :
    Resolving N env [k] a n := by
  intro inside distinct b unbound visible
  obtain ⟨grows, _⟩ := binds inside distinct b unbound visible
  refine ⟨grows, fun p ends _ L around => names p L fun s target => ?_⟩
  have free := unbound k List.mem_cons_self
  have exact := ends.exact k List.mem_cons_self
  rw [same] at free exact
  rw [BoundProgram.symbolAt?, Option.filter_eq_some_iff, exact] at target
  rcases finds b free visible s target.1 with rfl | found
  · simp at target
  · exact around s found

theorem value (same : k.mark = x.mark)
    (names : ∀ p L, BoundProgram.Finds p L x → BoundProgram.Resolved p L n) :
    Resolving N env [k] (do let _ ← Binding.resolveValue x) n :=
  name same (Binding.name_binds same)
    (fun _ unbound visible _ => resolveValue_finds unbound visible) names

theorem type (same : k.mark = x.mark)
    (names : ∀ p L, BoundProgram.Finds p L x → BoundProgram.Resolved p L n) :
    Resolving N env [k] (Binding.resolveType x) n :=
  name same (Binding.type_binds same)
    (fun _ unbound visible _ => resolveType_finds unbound visible) names

theorem target (same : k.mark = x.mark)
    (names : ∀ p L, BoundProgram.Finds p L x → BoundProgram.Resolved p L n) :
    Resolving N env [k]
      (do
        let s ← Binding.resolveValue x
        if s ≠ Symbol.unresolvedId then Binding.assign s) n := by
  refine name same (Binding.target_binds same) (fun b unbound visible s target => ?_) names
  refine resolveValue_finds unbound visible (s := s) ?_
  rw [← target, Binding.bind_apply]
  split <;> rfl

end Resolving

/-- An action that binds the nodes `ns` and gives the nodes `ks` and their parts the symbols of
their places. -/
def Nests (N : List (Node Mark)) (env : List SymbolId) (ns : List (Node Mark)) (a : Binding Unit)
    (ks : List (Node Mark)) : Prop :=
  Binds (fun _ => True) N env ns a fun p => ∀ L, p.Surrounds L env →
    (∀ k ∈ ks, p.At L k ∧ p.Introduced L k) → ∀ k ∈ ks, p.Deep L k

namespace Nests

variable {ks js : List (Node Mark)} {n : Node Mark}

theorem nothing : Nests N env [] (pure ()) [] := (Binds.nothing N env).imp fun _ _ _ _ _ => nofun

theorem seq (first : Nests N env ns a ks) (second : Nests N env ms c js) :
    Nests N env (ns ++ ms) (do a; c) (ks ++ js) := by
  refine (Binds.seq first second).imp fun p ⟨holds, holds'⟩ L around places k member => ?_
  rcases List.mem_append.mp member with early | late
  · exact holds L around (fun j inside => places j (List.mem_append_left _ inside)) k early
  · exact holds' L around (fun j inside => places j (List.mem_append_right _ inside)) k late

theorem widen (nests : Nests N env ns a ks) (sub : ns.Subperm ms) : Nests N env ms a ks :=
  Binds.widen nests sub

theorem snoc (nests : Nests N env ns a ks) : Nests N env (ns ++ [n]) a ks :=
  nests.widen (List.sublist_append_left _ _).subperm

theorem cons (nests : Nests N env ns a ks) : Nests N env (n :: ns) a ks :=
  nests.widen (List.sublist_cons_self _ _).subperm

theorem node (plain : n.opens = false) (own : Resolving N env ns a n)
    (parts : Nests N env ms c n.parts) : Nests N env (ns ++ ms) (do a; c) [n] := by
  refine (Binds.seq own parts).imp fun p ⟨resolved, holds⟩ L around places => ?_
  obtain ⟨place, introduced⟩ := places n List.mem_cons_self
  have same : scopesOf (n :: L) = scopesOf L := by simp [scopesOf, plain]
  rw [List.forall_mem_singleton]
  refine .intro (resolved L around) introduced (holds (n :: L) ?_ fun k part => ?_)
  · rwa [BoundProgram.Surrounds, same]
  · exact ⟨place.part part, BoundProgram.introduced_of_plain plain part⟩

/-- A node that names nothing and is no scope. -/
theorem inner (plain : n.opens = false) (silent : ∀ p L, BoundProgram.Resolved p L n)
    (parts : Nests N env ns a n.parts) : Nests N env ns a [n] :=
  node plain (.nothing silent) parts

theorem scope (n : Node Mark) (opens : n.opens = true) (silent : ∀ p L, BoundProgram.Resolved p L n)
    (ds : List Decl) (among : ∀ d ∈ ds, d.node ∈ n.parts)
    (declares : ∀ p : BoundProgram, ∀ L, (∀ d ∈ ds, p.Introduces L d) → ∀ k ∈ n.parts,
      p.Introduced L k)
    (body : ∀ env, Nests N env ns a n.parts) :
    Nests N env (ds.map Decl.node ++ ns) (Binding.inScope do ds.forM Binding.declareOwn; a) [n] := by
  refine (Binds.scope env ds body).imp fun p ⟨fresh, holds⟩ L around places => ?_
  obtain ⟨place, introduced⟩ := places n List.mem_cons_self
  have inside : ∀ d ∈ ds, p.At (n :: L) d.node := fun d member => place.part (among d member)
  rw [List.forall_mem_singleton]
  refine .intro (silent p L) introduced (holds (n :: L) ?_ fun k part => ⟨place.part part, ?_⟩)
  · exact fresh.surrounds inside around opens
  · exact declares p _ (fun d member => fresh.introduces inside member) k part

end Nests

theorem Stmt.node_of_decl {s : Stmt Mark} {d : Decl} (declares : s.decl? = some d) :
    d.node = .stmt s := by
  cases s <;> cases declares <;> rfl

theorem decl_mem_stmts {ss : List (Stmt Mark)} {d : Decl} (member : d ∈ ss.filterMap Stmt.decl?) :
    d.node ∈ ss.map Node.stmt := by
  obtain ⟨s, inside, declares⟩ := List.mem_filterMap.mp member
  exact Stmt.node_of_decl declares ▸ List.mem_map_of_mem inside

theorem stmts_introduced {p : BoundProgram} {L : List (Node Mark)} {ss : List (Stmt Mark)}
    (introduces : ∀ d ∈ ss.filterMap Stmt.decl?, p.Introduces L d) :
    ∀ k ∈ ss.map Node.stmt, p.Introduced L k := by
  intro k member
  obtain ⟨s, inside, rfl⟩ := List.mem_map.mp member
  exact fun d declares => introduces d (List.mem_filterMap.mpr ⟨s, inside, declares⟩)

mutual
theorem Expr.nests : ∀ (e : Expr Mark) {env : List SymbolId}, Nests N env e.nodes e.bind [.expr e]
  | .lit l, _ => (Nests.nothing.inner (n := .expr (.lit l)) rfl fun _ _ => trivial).cons
  | .host m desc, _ => (Nests.nothing.inner (n := .expr (.host m desc)) rfl fun _ _ => trivial).cons
  | .name x, _ => .node (n := .expr (.name x)) rfl (.value rfl fun _ _ finds => finds) .nothing
  | .paren m e, _ => (e.nests.inner (n := .expr (.paren m e)) rfl fun _ _ => trivial).snoc
  | .unary m op e, _ => (e.nests.inner (n := .expr (.unary m op e)) rfl fun _ _ => trivial).snoc
  | .bin m op a b, _ =>
    ((a.nests.seq b.nests).inner (n := .expr (.bin m op a b)) rfl fun _ _ => trivial).snoc
  | .call m f args, _ =>
    (Nests.node (n := .expr (.call m f args)) rfl (.value (k := .ident f) rfl fun _ _ finds => finds)
      (exprs_nest args)).snoc
  | .block m ss tail, env => by
    rw [Expr.bind, Binding.hoist_eq]
    have scope : Nests N env _ _ _ := .scope (.expr (.block m ss tail)) rfl (fun _ _ => trivial)
      (ss.filterMap Stmt.decl?) (fun d member => List.mem_append_left _ (decl_mem_stmts member))
      (fun p L introduces k part => ?_) fun _ => (stmts_nest ss).seq (tail_nests tail)
    · refine (scope.widen ?_).snoc
      rw [← List.append_assoc]
      exact (declarations_subperm ss).append (.refl _)
    · rcases List.mem_append.mp part with own | last
      · exact stmts_introduced introduces k own
      · obtain ⟨e, _, rfl⟩ := List.mem_map.mp last
        trivial
  | .assign m x e, _ => by
    rw [Expr.assign_bind]
    exact (Nests.node (n := .expr (.assign m x e)) rfl
      (.target (k := .ident x) rfl fun _ _ finds => finds) e.nests).snoc
  | .cases m e arms, _ =>
    ((e.nests.seq (arms_nest arms)).inner (n := .expr (.cases m e arms)) rfl fun _ _ => trivial).snoc
  | .inhabitant m t, _ => (t.nests.inner (n := .expr (.inhabitant m t)) rfl fun _ _ => trivial).snoc

theorem exprs_nest : ∀ (es : List (Expr Mark)) {env : List SymbolId},
    Nests N env (exprsNodes es) (bindExprs es) (es.map .expr)
  | [], _ => .nothing
  | e :: es, _ => e.nests.seq (exprs_nest es)

theorem tail_nests : ∀ (tail : Option (Expr Mark)) {env : List SymbolId},
    Nests N env (tailNodes tail) (bindTail tail) (tail.toList.map .expr)
  | none, _ => .nothing
  | some e, _ => e.nests

theorem arms_nest : ∀ (arms : List (Arm Mark)) {env : List SymbolId},
    Nests N env (armsNodes arms) (bindArms arms)
      (arms.flatMap fun a => [.pat a.pat, .expr a.body])
  | [], _ => .nothing
  | ⟨m, q, e⟩ :: arms, _ => by
    refine (q.nests.seq (e.nests.seq (arms_nest arms))).widen ?_
    rw [armsNodes, Arm.nodes, ← List.append_assoc]
    exact ((List.sublist_append_left _ _).append (.refl _)).subperm

theorem Pat.nests : ∀ (q : Pat Mark) {env : List SymbolId}, Nests N env q.nodes q.bind [.pat q]
  | .wildcard m, _ => (Nests.nothing.inner (n := .pat (.wildcard m)) rfl fun _ _ => trivial).cons
  | .lit m l, _ => (Nests.nothing.inner (n := .pat (.lit m l)) rfl fun _ _ => trivial).cons.cons
  | .typed m t, _ => (t.nests.inner (n := .pat (.typed m t)) rfl fun _ _ => trivial).snoc

theorem TyNode.nests : ∀ (t : TyNode Mark) {env : List SymbolId}, Nests N env t.nodes t.bind [.ty t]
  | .refer m x, _ =>
    (Nests.node (n := .ty (.refer m x)) rfl (.type (k := .ident x) rfl fun _ _ finds => finds)
      .nothing).snoc
  | .singleton m e, env => by
    have own : Resolving N env e.nodes e.bind (.ty (.singleton m e)) := by
      cases e with
      | name x => exact .value rfl fun _ _ finds => finds
      | _ => exact (Expr.announces _ env).imp fun _ _ _ _ => trivial
    have node := Nests.node rfl own .nothing
    rw [List.append_nil] at node
    exact node.snoc
  | .lit m l dot, _ => (Nests.nothing.inner (n := .ty (.lit m l dot)) rfl fun _ _ => trivial).cons.cons
  | .paren m t, _ => (t.nests.inner (n := .ty (.paren m t)) rfl fun _ _ => trivial).snoc

theorem ty?_nests : ∀ (t : Option (TyNode Mark)) {env : List SymbolId},
    Nests N env (tyNodes? t) (bindTy? t) (t.toList.map .ty)
  | none, _ => .nothing
  | some t, _ => t.nests

theorem params_nest : ∀ (qs : List (Param Mark)) {env : List SymbolId},
    Nests N env (qs.flatMap (·.ty.nodes)) (bindParams qs) (qs.map .param)
  | [], _ => .nothing
  | ⟨m, x, t⟩ :: qs, _ =>
    (t.nests.inner (n := .param ⟨m, x, t⟩) rfl fun _ _ => trivial).seq (params_nest qs)

theorem Stmt.nests : ∀ (s : Stmt Mark) {env : List SymbolId}, Nests N env s.inner s.bind [.stmt s]
  | .val ⟨m, k, x, t, e⟩, _ =>
    (((ty?_nests t).seq e.nests).inner (n := .stmt (.val ⟨m, k, x, t, e⟩)) rfl
      fun _ _ => trivial).cons
  | .typeAlias ⟨m, x, t⟩, _ =>
    (t.nests.inner (n := .stmt (.typeAlias ⟨m, x, t⟩)) rfl fun _ _ => trivial).cons
  | .fn ⟨m, x, qs, t, e⟩, env => by
    rw [Stmt.bind, Binding.params_eq]
    have scope : Nests N env _ _ _ := .scope (.stmt (.fn ⟨m, x, qs, t, e⟩)) rfl
      (fun _ _ => trivial) (qs.map Decl.param) (fun d member => ?_)
      (fun p L introduces k part => ?_)
      fun _ => (params_nest qs).seq ((ty?_nests t).seq e.nests)
    · rw [← List.append_assoc] at scope
      have inner := scope.widen ((parameters_subperm qs).append (.refl (tyNodes? t ++ e.nodes)))
      rw [← List.append_assoc] at inner
      exact inner.cons
    · obtain ⟨q, own, rfl⟩ := List.mem_map.mp member
      exact List.mem_append_left _ (List.mem_map_of_mem own)
    · rcases List.mem_append.mp part with own | other
      · obtain ⟨q, inside, rfl⟩ := List.mem_map.mp own
        exact introduces _ (List.mem_map_of_mem inside)
      · rcases List.mem_append.mp other with result | body
        · obtain ⟨t, _, rfl⟩ := List.mem_map.mp result
          trivial
        · obtain rfl := List.mem_singleton.mp body
          trivial
  | .expr m e, _ => e.nests.inner (n := .stmt (.expr m e)) rfl fun _ _ => trivial

theorem stmts_nest : ∀ (ss : List (Stmt Mark)) {env : List SymbolId},
    Nests N env (ss.flatMap Stmt.inner) (bindStmts ss) (ss.map .stmt)
  | [], _ => .nothing
  | s :: ss, _ => s.nests.seq (stmts_nest ss)
end

end

/-- A program in which no node is bound twice and every name looks around itself. -/
structure BoundProgram.WellNested (p : BoundProgram) : Prop extends p.Grounded where
  once : p.targets.keys.Nodup
  resolved : ∀ L n, p.At L n → p.Resolved L n
  introduced : ∀ L n, p.At L n → p.Introduced L n

theorem Source.bind_wellNested (src : Source)
    (distinct : (src.program.nodes.map (·.mark.id)).Nodup) : src.bind.WellNested := by
  have scope : Nests src.program.nodes [1] _ _ _ := .scope (.program src.program) rfl
    (fun _ _ => trivial) (src.program.stmts.filterMap Stmt.decl?) (fun d => decl_mem_stmts)
    (fun p L introduces => stmts_introduced introduces) fun _ => stmts_nest src.program.stmts
  have whole := (scope.widen (declarations_subperm src.program.stmts)).snoc (n := .program src.program)
  rw [← Binding.hoist_eq] at whole
  obtain ⟨grows, holds⟩ := whole (List.Subset.refl _) distinct .start (fun _ _ => rfl)
    Binder.start_visible
  have same : src.bind = ((Binding.inScope do
      src.program.stmts.forM Binding.hoist
      bindStmts src.program.stmts) .start).2.toBound src := rfl
  have ground := Source.bind_grounded src distinct
  rw [same] at ground ⊢
  generalize ((Binding.inScope do
    src.program.stmts.forM Binding.hoist
    bindStmts src.program.stmts) .start).2 = b at grows holds ground ⊢
  have below := grows.below_toBound src
  have around : (b.toBound src).Surrounds [] [1] := by
    intro x member
    obtain rfl := List.mem_singleton.mp member
    have small : 1 < Binder.start.symbols.size := by decide
    intro d declared
    rw [below.decls 1 (Nat.lt_of_lt_of_le small grows.size), grows.old 1 small] at declared
    cases declared
  have deep := holds _ ⟨below, fun _ _ => rfl⟩ trivial [] around
    (List.forall_mem_singleton.mpr ⟨.here, trivial⟩) _ List.mem_cons_self
  exact { ground with
    once := grows.once List.nodup_nil
    resolved := fun L n place => (deep L n place).1
    introduced := fun L n place => (deep L n place).2 }

theorem Draft.wellNested (d : Draft) (o : Options) : (d.context o).WellNested :=
  Source.bind_wellNested _ (Source.anchor_nodup 0 d.text d.stmts)

end Solo

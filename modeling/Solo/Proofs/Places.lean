import Solo.Proofs.Names

/-!
# Places of evaluation

The expressions of a program that can be evaluated, each with the innermost function around it. No
two places have the same number, so a node is evaluated in the bodies of one function only.
-/

namespace Solo

/-- An expression that is evaluated, with the innermost function around it. -/
structure Place where
  owner : Option (FnDecl Mark)
  expr : Expr Mark

mutual
/-- All expressions that are evaluated in an expression, itself last. -/
def Expr.places (owner : Option (FnDecl Mark)) : Expr Mark → List Place
  | .lit l => [⟨owner, .lit l⟩]
  | .name x => [⟨owner, .name x⟩]
  | .paren m e => e.places owner ++ [⟨owner, .paren m e⟩]
  | .unary m op e => e.places owner ++ [⟨owner, .unary m op e⟩]
  | .bin m op a b => a.places owner ++ b.places owner ++ [⟨owner, .bin m op a b⟩]
  | .call m f args => exprsPlaces owner args ++ [⟨owner, .call m f args⟩]
  | .block m ss tail => stmtsPlaces owner ss ++ tailPlaces owner tail ++ [⟨owner, .block m ss tail⟩]
  | .assign m x e => e.places owner ++ [⟨owner, .assign m x e⟩]
  | .cases m e arms => e.places owner ++ armsPlaces owner arms ++ [⟨owner, .cases m e arms⟩]
  | .inhabitant m node => [⟨owner, .inhabitant m node⟩]
  | .host m desc => [⟨owner, .host m desc⟩]

def exprsPlaces (owner : Option (FnDecl Mark)) : List (Expr Mark) → List Place
  | [] => []
  | e :: es => e.places owner ++ exprsPlaces owner es

def tailPlaces (owner : Option (FnDecl Mark)) : Option (Expr Mark) → List Place
  | none => []
  | some e => e.places owner

def armsPlaces (owner : Option (FnDecl Mark)) : List (Arm Mark) → List Place
  | [] => []
  | ⟨_, _, e⟩ :: arms => e.places owner ++ armsPlaces owner arms

def Stmt.places (owner : Option (FnDecl Mark)) : Stmt Mark → List Place
  | .val ⟨_, _, _, _, e⟩ => e.places owner
  | .typeAlias _ => []
  | .fn ⟨m, name, params, result, e⟩ => e.places (some ⟨m, name, params, result, e⟩)
  | .expr _ e => e.places owner

def stmtsPlaces (owner : Option (FnDecl Mark)) : List (Stmt Mark) → List Place
  | [] => []
  | s :: ss => s.places owner ++ stmtsPlaces owner ss
end

def Program.places (q : Program Mark) : List Place := stmtsPlaces none q.stmts

def Place.node (s : Place) : Node Mark := .expr s.expr

theorem Expr.mem_places (owner : Option (FnDecl Mark)) (e : Expr Mark) : ⟨owner, e⟩ ∈ e.places owner := by
  cases e <;> simp [places]

mutual
theorem Expr.places_sublist : ∀ (e : Expr Mark) (owner : Option (FnDecl Mark)),
    ((e.places owner).map Place.node).Sublist e.nodes
  | .lit _, _ => .refl _
  | .name _, _ => .refl _
  | .paren _ e, owner => by
    rw [Expr.places, List.map_append]
    exact (e.places_sublist owner).append (.refl _)
  | .unary _ _ e, owner => by
    rw [Expr.places, List.map_append]
    exact (e.places_sublist owner).append (.refl _)
  | .bin _ _ a b, owner => by
    rw [Expr.places, List.map_append, List.map_append]
    exact ((a.places_sublist owner).append (b.places_sublist owner)).append (.refl _)
  | .call _ _ args, owner => by
    rw [Expr.places, List.map_append]
    exact ((exprs_places_sublist args owner).cons _).append (.refl _)
  | .block _ ss tail, owner => by
    rw [Expr.places, List.map_append, List.map_append]
    exact ((stmts_places_sublist ss owner).append (tail_places_sublist tail owner)).append (.refl _)
  | .assign _ _ e, owner => by
    rw [Expr.places, List.map_append]
    exact ((e.places_sublist owner).cons _).append (.refl _)
  | .cases _ e arms, owner => by
    rw [Expr.places, List.map_append, List.map_append]
    exact ((e.places_sublist owner).append (arms_places_sublist arms owner)).append (.refl _)
  | .inhabitant _ node, owner => List.sublist_append_right node.nodes _
  | .host _ _, _ => .refl _

theorem exprs_places_sublist : ∀ (es : List (Expr Mark)) (owner : Option (FnDecl Mark)),
    ((exprsPlaces owner es).map Place.node).Sublist (exprsNodes es)
  | [], _ => .refl _
  | e :: es, owner => by
    rw [exprsPlaces, List.map_append]
    exact (e.places_sublist owner).append (exprs_places_sublist es owner)

theorem tail_places_sublist : ∀ (tail : Option (Expr Mark)) (owner : Option (FnDecl Mark)),
    ((tailPlaces owner tail).map Place.node).Sublist (tailNodes tail)
  | none, _ => .refl _
  | some e, owner => e.places_sublist owner

theorem arms_places_sublist : ∀ (arms : List (Arm Mark)) (owner : Option (FnDecl Mark)),
    ((armsPlaces owner arms).map Place.node).Sublist (armsNodes arms)
  | [], _ => .refl _
  | ⟨m, q, e⟩ :: arms, owner => by
    rw [armsPlaces, List.map_append]
    refine List.Sublist.append ?_ (arms_places_sublist arms owner)
    exact (e.places_sublist owner).trans
      ((List.sublist_append_right q.nodes _).trans (List.sublist_append_left _ _))

theorem Stmt.places_sublist : ∀ (s : Stmt Mark) (owner : Option (FnDecl Mark)),
    ((s.places owner).map Place.node).Sublist s.nodes
  | .val ⟨_, _, _, _, e⟩, owner =>
    (e.places_sublist owner).trans
      ((List.sublist_append_right _ e.nodes).trans (List.sublist_append_left _ _))
  | .typeAlias _, _ => List.nil_sublist _
  | .fn ⟨_, _, _, _, e⟩, _ =>
    (e.places_sublist _).trans
      ((List.sublist_append_right _ e.nodes).trans (List.sublist_append_left _ _))
  | .expr _ e, owner => (e.places_sublist owner).trans (List.sublist_append_left _ _)

theorem stmts_places_sublist : ∀ (ss : List (Stmt Mark)) (owner : Option (FnDecl Mark)),
    ((stmtsPlaces owner ss).map Place.node).Sublist (stmtsNodes ss)
  | [], _ => .refl _
  | s :: ss, owner => by
    rw [stmtsPlaces, List.map_append]
    exact (s.places_sublist owner).append (stmts_places_sublist ss owner)
end

theorem Program.places_sublist (q : Program Mark) : (q.places.map Place.node).Sublist q.nodes :=
  (stmts_places_sublist q.stmts none).trans (List.sublist_append_left _ _)

theorem Program.node_of_place {q : Program Mark} {s : Place} (place : s ∈ q.places) :
    .expr s.expr ∈ q.nodes :=
  q.places_sublist.subset (List.mem_map_of_mem place)

theorem BoundProgram.WellBound.place_unique {p : BoundProgram} (bound : p.WellBound) {s s' : Place}
    (first : s ∈ p.program.places) (second : s' ∈ p.program.places) (same : s.expr.id = s'.expr.id) :
    s = s' := by
  have distinct := bound.distinct.sublist (p.program.places_sublist.map (·.mark.id))
  rw [List.map_map] at distinct
  exact List.inj_on_of_nodup_map distinct first second same

end Solo

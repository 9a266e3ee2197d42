import Solo.Proofs.Layout
import Solo.Proofs.Upkeep

/-!
# Anchoring enters all names

Anchoring only adds to the roster of names, and at its end the roster has every name and every text
of the program.
-/

namespace Solo

/-- The name or text that a node without parts stands for. -/
def Node.text? : Node Mark → Option String
  | .ident x | .expr (.name x) => some x.name
  | .lit ⟨_, .str s⟩ | .expr (.lit ⟨_, .str s⟩) | .expr (.host _ s) => some s
  | _ => none

/-- The texts of the nodes `ns` are entered on the way from `b` to `b'`. -/
structure Spells (b : Builder) (ns : List (Node Mark)) (b' : Builder) : Prop where
  grown : b.names.Extends b'.names
  texts : ∀ n ∈ ns, ∀ s, n.text? = some s → s ∈ b'.names

namespace Spells

variable {b b₁ b₂ : Builder} {ns ks : List (Node Mark)} {n : Node Mark}

theorem nil (b : Builder) : Spells b [] b := ⟨.refl _, nofun⟩

theorem append (first : Spells b ns b₁) (second : Spells b₁ ks b₂) : Spells b (ns ++ ks) b₂ where
  grown := first.grown.trans second.grown
  texts n member s text := by
    rcases List.mem_append.mp member with old | new
    · exact second.grown.mem (first.texts n old s text)
    · exact second.texts n new s text

/-- A node above others has no text of its own. -/
theorem snoc (parts : Spells b ns b₁) (plain : n.text? = none) : Spells b (ns ++ [n]) b₁.next where
  grown := parts.grown
  texts k member s text := by
    rcases List.mem_append.mp member with inner | last
    · exact parts.texts k inner s text
    · obtain rfl := List.mem_singleton.mp last
      rw [plain] at text
      cases text

theorem leaf {s : String} (text : ∀ t, n.text? = some t → t = s)
    (entered : b₁.names = b.names.insert s) : Spells b [n] b₁ where
  grown := entered ▸ Roster.extends_insert _ _
  texts k member t own := by
    obtain rfl := List.mem_singleton.mp member
    rw [entered, text t own]
    exact Roster.mem_insert_self _ s

theorem silent (plain : n.text? = none) (same : b₁.names = b.names) : Spells b [n] b₁ where
  grown := same ▸ .refl _
  texts k member t own := by
    obtain rfl := List.mem_singleton.mp member
    rw [plain] at own
    cases own

end Spells

theorem Ident.anchor_spells (x : Ident Labels) (b : Builder) {n : Node Mark}
    (text : ∀ t, n.text? = some t → t = x.name) : Spells b [n] (x.anchor b).2 :=
  .leaf text rfl

theorem Lit.anchor_spells (l : Lit Labels) (b : Builder) {n : Node Mark}
    (text : n.text? = (Node.lit (l.anchor b).1).text?) : Spells b [n] (l.anchor b).2 := by
  obtain ⟨m, v⟩ := l
  cases v with
  | str s =>
    refine .leaf (fun t own => ?_) rfl
    exact Option.some.inj (own.symm.trans text)
  | _ => exact .silent text rfl

open Build

mutual
theorem Expr.anchor_spells : ∀ (e : Expr Labels) (b : Builder),
    Spells b (e.anchor b).1.nodes (e.anchor b).2
  | .lit l, b => by
    refine l.anchor_spells b (n := .expr (.lit (l.anchor b).1)) ?_
    obtain ⟨m, v⟩ := l
    cases v <;> rfl
  | .name x, b => x.anchor_spells b (n := .expr (.name (x.anchor b).1)) fun _ own =>
    (Option.some.inj own).symm
  | .paren _ e, b => (e.anchor_spells b).snoc rfl
  | .unary _ _ e, b => (e.anchor_spells b).snoc rfl
  | .bin _ _ l r, b => ((l.anchor_spells b).append (r.anchor_spells _)).snoc rfl
  | .call _ f args, b =>
    ((f.anchor_spells b (n := .ident (f.anchor b).1) fun _ own => (Option.some.inj own).symm).append
      (anchorExprs_spells args _)).snoc rfl
  | .block _ ss tail, b => by
    have parts := (anchorStmts_spells ss b).append (anchorTail_spells tail _)
    rw [Expr.anchor]
    simp only [bind_apply, pure_apply, mark_apply, coverOrPoint_state]
    exact parts.snoc rfl
  | .assign _ x e, b =>
    ((x.anchor_spells b (n := .ident (x.anchor b).1) fun _ own => (Option.some.inj own).symm).append
      (e.anchor_spells _)).snoc rfl
  | .cases _ e arms, b =>
    ((e.anchor_spells b).append (anchorArms_spells arms _)).snoc rfl
  | .inhabitant _ t, b => (t.anchor_spells b).snoc rfl
  | .host m desc, b => .leaf (s := desc) (fun _ own => (Option.some.inj own).symm) rfl

theorem anchorExprs_spells : ∀ (es : List (Expr Labels)) (b : Builder),
    Spells b (exprsNodes (anchorExprs es b).1) (anchorExprs es b).2
  | [], b => .nil b
  | e :: es, b => (e.anchor_spells b).append (anchorExprs_spells es _)

theorem anchorTail_spells : ∀ (tail : Option (Expr Labels)) (b : Builder),
    Spells b (tailNodes (anchorTail tail b).1) (anchorTail tail b).2
  | none, b => .nil b
  | some e, b => e.anchor_spells b

theorem anchorArms_spells : ∀ (arms : List (Arm Labels)) (b : Builder),
    Spells b (armsNodes (anchorArms arms b).1) (anchorArms arms b).2
  | [], b => .nil b
  | ⟨_, p, e⟩ :: arms, b =>
    (((p.anchor_spells b).append (e.anchor_spells _)).snoc rfl).append
      (anchorArms_spells arms _)

theorem Pat.anchor_spells : ∀ (p : Pat Labels) (b : Builder),
    Spells b (p.anchor b).1.nodes (p.anchor b).2
  | .wildcard _, _ => .silent rfl rfl
  | .lit _ l, b => (l.anchor_spells b (n := .lit (l.anchor b).1) rfl).snoc rfl
  | .typed _ t, b => (t.anchor_spells b).snoc rfl

theorem TyNode.anchor_spells : ∀ (t : TyNode Labels) (b : Builder),
    Spells b (t.anchor b).1.nodes (t.anchor b).2
  | .refer _ x, b =>
    (x.anchor_spells b (n := .ident (x.anchor b).1) fun _ own =>
      (Option.some.inj own).symm).snoc rfl
  | .singleton _ e, b => (e.anchor_spells b).snoc rfl
  | .lit _ l _, b => (l.anchor_spells b (n := .lit (l.anchor b).1) rfl).snoc rfl
  | .paren _ t, b => (t.anchor_spells b).snoc rfl

theorem anchorTy?_spells : ∀ (t : Option (TyNode Labels)) (b : Builder),
    Spells b (tyNodes? (anchorTy? t b).1) (anchorTy? t b).2
  | none, b => .nil b
  | some t, b => t.anchor_spells b

theorem anchorParams_spells : ∀ (ps : List (Param Labels)) (b : Builder),
    Spells b (paramsNodes (anchorParams ps b).1) (anchorParams ps b).2
  | [], b => .nil b
  | ⟨_, x, t⟩ :: ps, b =>
    (((x.anchor_spells b (n := .ident (x.anchor b).1) fun _ own =>
      (Option.some.inj own).symm).append (t.anchor_spells _)).snoc rfl).append
        (anchorParams_spells ps _)

theorem Stmt.anchor_spells : ∀ (s : Stmt Labels) (b : Builder),
    Spells b (s.anchor b).1.nodes (s.anchor b).2
  | .val ⟨_, _, x, t, e⟩, b =>
    (((x.anchor_spells b (n := .ident (x.anchor b).1) fun _ own =>
      (Option.some.inj own).symm).append (anchorTy?_spells t _)).append
        (e.anchor_spells _)).snoc rfl
  | .typeAlias ⟨_, x, t⟩, b =>
    ((x.anchor_spells b (n := .ident (x.anchor b).1) fun _ own =>
      (Option.some.inj own).symm).append (t.anchor_spells _)).snoc rfl
  | .fn ⟨_, x, ps, t, e⟩, b =>
    ((((x.anchor_spells b (n := .ident (x.anchor b).1) fun _ own =>
      (Option.some.inj own).symm).append (anchorParams_spells ps _)).append
        (anchorTy?_spells t _)).append (e.anchor_spells _)).snoc rfl
  | .expr _ e, b => (e.anchor_spells b).snoc rfl

theorem anchorStmts_spells : ∀ (ss : List (Stmt Labels)) (b : Builder),
    Spells b (stmtsNodes (anchorStmts ss b).1) (anchorStmts ss b).2
  | [], b => .nil b
  | s :: ss, b => (s.anchor_spells b).append (anchorStmts_spells ss _)
end

/-- The keywords are entered first, and every name and text of the program after them. -/
theorem Source.anchor_spells (module : ModuleId) (text : String) (stmts : List (Stmt Labels)) :
    Keyword.roster.Extends (Source.anchor module text stmts).names ∧
      ∀ n ∈ (Source.anchor module text stmts).program.nodes, ∀ s, n.text? = some s →
        s ∈ (Source.anchor module text stmts).names := by
  have spells := anchorStmts_spells stmts (.start module text)
  refine ⟨spells.grown, fun n member s own => ?_⟩
  rcases List.mem_append.mp member with inner | last
  · exact spells.texts n inner s own
  · obtain rfl := List.mem_singleton.mp last
    cases own

theorem Draft.spelled (d : Draft) (o : Options) : (d.context o).Spelled := by
  have texts := (Source.anchor_spells 0 d.text d.stmts).2
  intro n member v literal s same
  subst same
  have below : ∃ k ∈ n.below, k.text? = some s := by
    cases n with
    | expr e =>
      cases e with
      | lit l =>
        obtain ⟨m, v⟩ := l
        cases literal
        exact ⟨_, Expr.mem_nodes _, rfl⟩
      | _ => cases literal
    | ty t =>
      cases t with
      | lit m l dot =>
        obtain ⟨m', v⟩ := l
        cases literal
        exact ⟨_, List.mem_cons_self, rfl⟩
      | _ => cases literal
    | pat q =>
      cases q with
      | lit m l =>
        obtain ⟨m', v⟩ := l
        cases literal
        exact ⟨_, List.mem_cons_self, rfl⟩
      | _ => cases literal
    | _ => cases literal
  obtain ⟨k, inside, text⟩ := below
  exact texts k (Program.mem_below member inside) s text

end Solo

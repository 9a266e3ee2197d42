import Solo.Compilation
import Solo.Proofs.Layout
import Solo.Proofs.Names

/-!
# Declarations of every program

What binding does whether or not it reports an error: every declaration of a symbol is a node of
the program, and every parameter has a symbol of its own.
-/

namespace Solo

/-- An action that binds the nodes `ns` and gives every parameter among them a symbol, also in a
program with errors. -/
def Announces (N ns : List (Node Mark)) (a : Binding Unit) : Prop :=
  ∀ env, Binds (fun _ => True) N env ns a fun p =>
    ∀ q, .param q ∈ ns → ∃ x, p.Declares (.param q) x

namespace Announces

variable {N ns ks : List (Node Mark)} {a c : Binding Unit}

theorem leaf {H : BoundProgram → Prop} {P : List SymbolId → BoundProgram → Prop}
    (binds : ∀ env, Binds H N env ns a (P env)) (none : ∀ q, .param q ∉ ns) :
    Announces N ns a := by
  intro env inside distinct b unbound visible
  obtain ⟨grows, _⟩ := binds env inside distinct b unbound visible
  exact ⟨grows, fun p _ _ q member => absurd member (none q)⟩

theorem nothing (N : List (Node Mark)) : Announces N [] (pure ()) :=
  leaf (fun env => Binds.nothing (H := fun _ => True) N env) nofun

theorem seq (first : Announces N ns a) (second : Announces N ks c) :
    Announces N (ns ++ ks) (do a; c) := by
  refine fun env => ((first env).seq (second env)).imp fun p holds q member => ?_
  exact (List.mem_append.mp member).elim (holds.1 q) (holds.2 q)

theorem widen (announces : Announces N ns a) (sub : ns.Subperm ks)
    (params : ∀ q, .param q ∈ ks → .param q ∈ ns) : Announces N ks a :=
  fun env => ((announces env).widen sub).imp fun _ holds q member => holds q (params q member)

/-- The node of a tree itself is no parameter. -/
theorem snoc (announces : Announces N ns a) {n : Node Mark} (other : ∀ q, n ≠ .param q) :
    Announces N (ns ++ [n]) a := by
  refine announces.widen (List.sublist_append_left _ _).subperm fun q member => ?_
  rcases List.mem_append.mp member with inner | last
  · exact inner
  · exact absurd (List.mem_singleton.mp last).symm (other q)

theorem cons (announces : Announces N ns a) {n : Node Mark} (other : ∀ q, n ≠ .param q) :
    Announces N (n :: ns) a := by
  refine announces.widen (List.sublist_cons_self _ _).subperm fun q member => ?_
  rcases List.mem_cons.mp member with first | inner
  · exact absurd first.symm (other q)
  · exact inner

theorem scope (ds : List Decl) {body : Binding Unit} (inner : Announces N ns body) :
    Announces N (ds.map Decl.node ++ ns)
      (Binding.inScope do ds.forM Binding.declareOwn; body) := by
  refine fun env => (Binds.scope env ds inner).imp fun p ⟨opens, holds⟩ q member => ?_
  rcases List.mem_append.mp member with own | later
  · obtain ⟨d, declared, same⟩ := List.mem_map.mp own
    obtain rfl : d = .param q := by
      cases d <;> cases same
      rfl
    exact opens.declares _ declared
  · exact holds q later

end Announces

theorem param_mem_inner {ss : List (Stmt Mark)} {q : Param Mark}
    (member : .param q ∈ stmtsNodes ss) : .param q ∈ ss.flatMap Stmt.inner := by
  induction ss with
  | nil => cases member
  | cons s ss ih =>
    rw [stmtsNodes, ← s.inner_append, List.append_assoc] at member
    rw [List.flatMap_cons]
    rcases List.mem_append.mp member with inner | later
    · exact List.mem_append_left _ inner
    · rcases List.mem_cons.mp later with own | rest
      · cases own
      · exact List.mem_append_right _ (ih rest)

theorem param_mem_own {qs : List (Param Mark)} {q : Param Mark}
    (member : .param q ∈ paramsNodes qs) :
    .param q ∈ (qs.map Decl.param).map Decl.node ++ qs.flatMap (·.ty.nodes) := by
  induction qs with
  | nil => cases member
  | cons r qs ih =>
    obtain ⟨m, x, t⟩ := r
    simp only [paramsNodes, Param.nodes, List.mem_append, List.mem_cons, List.map_cons,
      List.flatMap_cons] at member ih ⊢
    grind [Decl.node]

section
variable {N : List (Node Mark)}

mutual
theorem Expr.announces : ∀ e : Expr Mark, Announces N e.nodes e.bind
  | .lit l => (Announces.nothing N).cons (n := .expr (.lit l)) nofun
  | .host m desc => (Announces.nothing N).cons (n := .expr (.host m desc)) nofun
  | .name _ => .leaf (fun _ => Binding.name_binds rfl) (by simp [Expr.nodes])
  | .paren _ e => e.announces.snoc nofun
  | .unary _ _ e => e.announces.snoc nofun
  | .bin _ _ l r => (l.announces.seq r.announces).snoc nofun
  | .call _ f args =>
    ((Announces.leaf (fun _ => Binding.name_binds (n := .ident f) rfl) (by simp)).seq
      (exprs_announce args)).snoc nofun
  | .block _ ss tail => by
    rw [Expr.bind, Binding.hoist_eq]
    have scope : Announces N _ _ := .scope (ss.filterMap Stmt.decl?)
      ((stmts_announce ss).seq (tail_announces tail))
    refine (scope.widen ?_ fun q member => ?_).snoc nofun
    · rw [← List.append_assoc]
      exact (declarations_subperm ss).append (.refl _)
    · refine List.mem_append_right _ ?_
      rcases List.mem_append.mp member with inner | last
      · exact List.mem_append_left _ (param_mem_inner inner)
      · exact List.mem_append_right _ last
  | .assign m x e => by
    rw [Expr.assign_bind]
    exact ((Announces.leaf (fun _ => Binding.target_binds (n := .ident x) rfl) (by simp)).seq
      e.announces).snoc nofun
  | .cases _ e arms => (e.announces.seq (arms_announce arms)).snoc nofun
  | .inhabitant _ t => t.announces.snoc nofun

theorem exprs_announce : ∀ es : List (Expr Mark), Announces N (exprsNodes es) (bindExprs es)
  | [] => .nothing N
  | e :: es => e.announces.seq (exprs_announce es)

theorem tail_announces : ∀ tail : Option (Expr Mark),
    Announces N (tailNodes tail) (bindTail tail)
  | none => .nothing N
  | some e => e.announces

theorem arms_announce : ∀ arms : List (Arm Mark), Announces N (armsNodes arms) (bindArms arms)
  | [] => .nothing N
  | ⟨m, p, e⟩ :: arms => by
    refine (p.announces.seq (e.announces.seq (arms_announce arms))).widen ?_ fun q member => ?_
    · rw [armsNodes, Arm.nodes, ← List.append_assoc]
      exact ((List.sublist_append_left _ _).append (.refl _)).subperm
    · simp only [armsNodes, Arm.nodes, List.mem_append] at member ⊢
      grind

theorem Pat.announces : ∀ p : Pat Mark, Announces N p.nodes p.bind
  | .wildcard m => (Announces.nothing N).cons (n := .pat (.wildcard m)) nofun
  | .lit m l => ((Announces.nothing N).cons (n := .pat (.lit m l)) nofun).cons (n := .lit l) nofun
  | .typed _ t => t.announces.snoc nofun

theorem TyNode.announces : ∀ t : TyNode Mark, Announces N t.nodes t.bind
  | .refer _ x =>
    (Announces.leaf (fun _ => Binding.type_binds (n := .ident x) rfl) (by simp)).snoc nofun
  | .singleton _ e => e.announces.snoc nofun
  | .lit m l dot =>
    ((Announces.nothing N).cons (n := .ty (.lit m l dot)) nofun).cons (n := .lit l) nofun
  | .paren _ t => t.announces.snoc nofun

theorem ty?_announces : ∀ t : Option (TyNode Mark), Announces N (tyNodes? t) (bindTy? t)
  | none => .nothing N
  | some t => t.announces

theorem params_announce : ∀ ps : List (Param Mark),
    Announces N (ps.flatMap (·.ty.nodes)) (bindParams ps)
  | [] => .nothing N
  | ⟨_, _, t⟩ :: ps => t.announces.seq (params_announce ps)

theorem Stmt.announces : ∀ s : Stmt Mark, Announces N s.inner s.bind
  | .val ⟨_, _, x, t, e⟩ => ((ty?_announces t).seq e.announces).cons (n := .ident x) nofun
  | .typeAlias ⟨_, x, t⟩ => t.announces.cons (n := .ident x) nofun
  | .fn ⟨_, x, ps, t, e⟩ => by
    rw [Stmt.bind, Binding.params_eq]
    have scope : Announces N _ _ := .scope (ps.map Decl.param)
      ((params_announce ps).seq ((ty?_announces t).seq e.announces))
    rw [← List.append_assoc] at scope
    have inner := scope.widen ((parameters_subperm ps).append (.refl (tyNodes? t ++ e.nodes)))
      fun q member => ?_
    · rw [← List.append_assoc] at inner
      exact inner.cons (n := .ident x) nofun
    · rcases List.mem_append.mp member with own | later
      · exact List.mem_append_left _ (param_mem_own own)
      · exact List.mem_append_right _ later
  | .expr _ e => e.announces

theorem stmts_announce : ∀ ss : List (Stmt Mark),
    Announces N (ss.flatMap Stmt.inner) (bindStmts ss)
  | [] => .nothing N
  | s :: ss => s.announces.seq (stmts_announce ss)
end

end

/-- What binding makes of every program with distinct node numbers. -/
structure BoundProgram.Grounded (p : BoundProgram) : Prop where
  distinct : (p.program.nodes.map (·.mark.id)).Nodup
  decl : ∀ x, ∀ d ∈ (p.symbol x).decls, d.node ∈ p.program.nodes
  role : ∀ x, ∀ d ∈ (p.symbol x).decls, (p.symbol x).role.thaw = d.role
  /-- A declaration belongs to one symbol. -/
  target : ∀ x, ∀ d ∈ (p.symbol x).decls, p.targets.find? d.mark.id = some x
  param : ∀ q, .param q ∈ p.program.nodes → ∃ x, p.Declares (.param q) x

namespace BoundProgram.Grounded

variable {p : BoundProgram}

theorem node_unique (ground : p.Grounded) {n k : Node Mark} (first : n ∈ p.program.nodes)
    (second : k ∈ p.program.nodes) (same : n.mark.id = k.mark.id) : n = k :=
  List.inj_on_of_nodup_map ground.distinct first second same

end BoundProgram.Grounded

theorem Source.bind_grounded (src : Source)
    (distinct : (src.program.nodes.map (·.mark.id)).Nodup) : src.bind.Grounded := by
  have announces : Announces src.program.nodes _ _ :=
    (Announces.scope (src.program.stmts.filterMap Stmt.decl?)
      (stmts_announce src.program.stmts)).widen (declarations_subperm src.program.stmts)
      fun q member => List.mem_append_right _ (param_mem_inner member)
  rw [← Binding.hoist_eq] at announces
  have whole := announces.snoc (n := .program src.program) nofun
  obtain ⟨grows, holds⟩ := whole [1] (List.Subset.refl _) distinct .start (fun _ _ => rfl)
    Binder.start_visible
  have same : src.bind = ((Binding.inScope do
      src.program.stmts.forM Binding.hoist
      bindStmts src.program.stmts) .start).2.toBound src := rfl
  rw [same]
  generalize ((Binding.inScope do
    src.program.stmts.forM Binding.hoist
    bindStmts src.program.stmts) .start).2 = b at grows holds ⊢
  have below := grows.below_toBound src
  have fits : ∀ x, ∀ d ∈ ((b.toBound src).symbol x).decls, d.node ∈ src.program.nodes ∧
      ((b.toBound src).symbol x).role.thaw = d.role ∧
      (b.toBound src).targets.find? d.mark.id = some x := by
    intro x d member
    by_cases small : x < b.symbols.size
    · rw [below.decls x small] at member
      by_cases first : x < 2
      · rw [grows.old x first] at member
        match x, first with
        | 0, _ => cases member
        | 1, _ => cases member
      · obtain ⟨node, role, target⟩ := (grows.new x (Nat.not_lt.mp first) small).each d member
        exact ⟨node, (below.roles x small).trans role, below.targets _ _ target⟩
    · rw [BoundProgram.WellBound.symbol_of_large
        (by rw [b.size_toBound]; exact Nat.not_lt.mp small)] at member
      cases member
  exact ⟨distinct, fun x d member => (fits x d member).1, fun x d member => (fits x d member).2.1,
    fun x d member => (fits x d member).2.2, holds _ ⟨below, fun _ _ => rfl⟩ trivial⟩

/-- So every draft is bound, also one with errors. -/
theorem Draft.grounded (d : Draft) (o : Options) : (d.context o).Grounded :=
  Source.bind_grounded _ (Source.anchor_nodup 0 d.text d.stmts)

end Solo

import Solo.Proofs.Growth

/-!
# Stages of a run

What an evaluation finds when it begins. A binding that is visible, belongs to the innermost
function around and is declared before the evaluation's part of the text has been declared by
then, so some frame has a value of it. `Staged` says this of an evaluation, and an evaluation
begins staged ones only.
-/

namespace Solo

open Lexical (visible Legal around)

/-! ### Text in order -/

/-- A node whose part of the text is not empty. -/
def Node.Shown (n : Node Mark) : Prop := n.mark.span.lo < n.mark.span.hi

instance (n : Node Mark) : Decidable n.Shown := inferInstanceAs (Decidable (_ < _))

def Node.isName : Node Mark → Bool
  | .ident _ | .expr (.name _) => true
  | _ => false

/-- All names of a program were found in its text. -/
def Program.Legible (q : Program Mark) : Prop := ∀ n ∈ q.nodes, n.isName = true → n.Shown

instance (q : Program Mark) : Decidable q.Legible :=
  inferInstanceAs (Decidable (∀ n ∈ q.nodes, n.isName = true → n.Shown))

/-- A program whose nodes come in the order of its text. -/
structure BoundProgram.Spaced (p : BoundProgram) : Prop where
  legible : p.program.Legible
  nested : ∀ n ∈ stmtsNodes p.program.stmts, ∀ k ∈ n.below, k.mark.span.Inside n.mark.span
  before : ∀ ks ls, ks ++ ls <:+: stmtsNodes p.program.stmts → Closed ls →
    ∀ k ∈ ks, ∀ n ∈ ls, k.mark.span.hi ≤ n.mark.span.lo

theorem Draft.spaced (d : Draft) (o : Options) (legible : (d.context o).program.Legible) :
    (d.context o).Spaced := by
  obtain ⟨b, laid, _⟩ := Source.anchor_laid 0 d.text d.stmts
  exact ⟨legible, laid.nested, fun _ _ inside closed _ first _ second =>
    laid.before inside closed first second⟩

def BoundProgram.Binds (p : BoundProgram) (x : SymbolId) (d : Decl) : Prop :=
  (p.symbol x).role.isBinding = true ∧ (p.symbol x).decls.head? = some d

/-- Nothing in a list of nodes comes after a declaration. -/
def Late (d : Decl) (ns : List (Node Mark)) : Prop :=
  ∀ n ∈ ns, n.Shown → n.mark.span.lo < d.mark.span.hi

theorem Late.part {d : Decl} {ns ks : List (Node Mark)} (late : Late d ns) (part : ks ⊆ ns) :
    Late d ks := fun n member => late n (part member)

/-- The nodes of a part of a program that a set of expressions does not cut across: each of them
lies inside the part or outside. -/
structure Stretch (p : BoundProgram) (cut : Expr Mark → Prop) (ns : List (Node Mark)) : Prop where
  inside : ns <:+: stmtsNodes p.program.stmts
  whole : ∀ e, cut e → e.nodes ⊆ ns ∨ e.nodes.Disjoint ns

namespace Stretch

variable {p : BoundProgram} {cut : Expr Mark → Prop} {ns ks : List (Node Mark)}

theorem mono {cut' : Expr Mark → Prop} (stretch : Stretch p cut ns) (less : ∀ e, cut' e → cut e) :
    Stretch p cut' ns :=
  ⟨stretch.inside, fun e isCut => stretch.whole e (less e isCut)⟩

theorem nodup (stretch : Stretch p cut ns) (bound : p.WellBound) : ns.Nodup := by
  have distinct := bound.distinct.of_map
  exact stretch.inside.sublist.nodup ((List.sublist_append_left _ _).nodup distinct)

theorem left (stretch : Stretch p cut (ns ++ ks)) (bound : p.WellBound) (first : Closed ns)
    (second : Closed ks) : Stretch p cut ns := by
  refine ⟨(List.prefix_append ns ks).isInfix.trans stretch.inside, fun e isCut => ?_⟩
  have apart := List.disjoint_of_nodup_append (stretch.nodup bound)
  rcases stretch.whole e isCut with all | none
  · rcases List.mem_append.mp (all (Expr.mem_nodes e)) with here | there
    · exact .inl (first _ here).subset
    · exact .inr fun n own other => apart other ((second _ there).subset own)
  · exact .inr fun n own other => none own (List.mem_append_left _ other)

theorem right (stretch : Stretch p cut (ns ++ ks)) (bound : p.WellBound) (first : Closed ns)
    (second : Closed ks) : Stretch p cut ks := by
  refine ⟨(List.suffix_append ns ks).isInfix.trans stretch.inside, fun e isCut => ?_⟩
  have apart := List.disjoint_of_nodup_append (stretch.nodup bound)
  rcases stretch.whole e isCut with all | none
  · rcases List.mem_append.mp (all (Expr.mem_nodes e)) with there | here
    · exact .inr fun n own other => apart ((first _ there).subset own) other
    · exact .inl (second _ here).subset
  · exact .inr fun n own other => none own (List.mem_append_right _ other)

/-- What lies below a node that is not cut out itself. -/
theorem inner {n : Node Mark} (stretch : Stretch p cut (ns ++ [n])) (closed : Closed ns)
    (kept : ∀ e, n = .expr e → ¬cut e) : Stretch p cut ns := by
  refine ⟨(List.prefix_append ns [n]).isInfix.trans stretch.inside, fun e isCut => ?_⟩
  rcases stretch.whole e isCut with all | none
  · rcases List.mem_append.mp (all (Expr.mem_nodes e)) with here | root
    · exact .inl (closed _ here).subset
    · exact absurd isCut (kept e (List.mem_singleton.mp root).symm)
  · exact .inr fun k own other => none own (List.mem_append_left _ other)

theorem stmt {ss : List (Stmt Mark)} (stretch : Stretch p cut (stmtsNodes ss)) (bound : p.WellBound) :
    ∀ t ∈ ss, Stretch p cut t.nodes := by
  induction ss with
  | nil => nofun
  | cons s ss ih =>
    intro t member
    rcases List.mem_cons.mp member with rfl | later
    · exact stretch.left bound t.closed (stmts_closed ss)
    · exact ih (stretch.right bound s.closed (stmts_closed ss)) t later

end Stretch

theorem Stmt.inner_closed (t : Stmt Mark) : Closed t.inner := by
  cases t with
  | val v =>
    obtain ⟨_, _, x, ty, e⟩ := v
    exact ((Closed.leaf (n := .ident x) rfl).append (tyNodes?_closed ty)).append e.closed
  | typeAlias d =>
    obtain ⟨_, x, ty⟩ := d
    exact (Closed.leaf (n := .ident x) rfl).append ty.closed
  | fn d =>
    obtain ⟨_, x, ps, ty, e⟩ := d
    exact (((Closed.leaf (n := .ident x) rfl).append (params_closed ps)).append
      (tyNodes?_closed ty)).append e.closed
  | expr _ e => exact e.closed

/-- A statement does not lie inside an expression that is cut out and does not contain it. -/
theorem Stretch.stmt_outside {p : BoundProgram} {cut : Expr Mark → Prop} {t : Stmt Mark}
    (stretch : Stretch p cut t.nodes) (bound : p.WellBound) {e : Expr Mark} (isCut : cut e) :
    .stmt t ∉ e.nodes := by
  intro member
  have distinct := stretch.nodup bound
  rcases stretch.whole e isCut with all | none
  · rw [← t.inner_append] at all distinct
    have here : .expr e ∈ t.inner := by
      rcases List.mem_append.mp (all (Expr.mem_nodes e)) with here | root
      · exact here
      · cases List.mem_singleton.mp root
    exact List.disjoint_of_nodup_append distinct ((t.inner_closed _ here).subset member)
      List.mem_cons_self
  · exact none member t.mem_nodes

theorem mem_stmtsNodes : ∀ {ss : List (Stmt Mark)} {t : Stmt Mark}, t ∈ ss → t.nodes ⊆ stmtsNodes ss
  | _ :: _, _, member => by
    rcases List.mem_cons.mp member with rfl | later
    · exact List.subset_append_left _ _
    · exact List.Subset.trans (mem_stmtsNodes later) (List.subset_append_right _ _)

theorem mem_stmtsPlaces (owner : Option (FnDecl Mark)) :
    ∀ {ss : List (Stmt Mark)} {t : Stmt Mark}, t ∈ ss → t.places owner ⊆ stmtsPlaces owner ss
  | _ :: _, _, member => by
    rcases List.mem_cons.mp member with rfl | later
    · exact List.subset_append_left _ _
    · exact List.Subset.trans (mem_stmtsPlaces owner later) (List.subset_append_right _ _)

theorem Program.mem_stmtsNodes {q : Program Mark} {n : Node Mark} (node : n ∈ q.nodes)
    (other : ∀ q', n ≠ .program q') : n ∈ stmtsNodes q.stmts := by
  rcases List.mem_append.mp node with inner | root
  · exact inner
  · exact absurd (List.mem_singleton.mp root) (other q)

theorem Decl.node_ne_program (d : Decl) (q : Program Mark) : d.node ≠ .program q := by
  cases d <;> nofun

section
variable {p : BoundProgram} {cut : Expr Mark → Prop} {x : SymbolId} {d : Decl}

theorem BoundProgram.Binds.declares (binds : p.Binds x d) (bound : p.WellBound) :
    p.Declares d x ∧ d.node ∈ stmtsNodes p.program.stmts := by
  obtain ⟨d', only, declares, node⟩ := bound.binding_decl binds.1
  have head := binds.2
  rw [only] at head
  cases head
  exact ⟨declares, Program.mem_stmtsNodes node d.node_ne_program⟩

theorem BoundProgram.Binds.decl (binds : p.Binds x d) (bound : p.WellBound) :
    (∃ v, d = .val v) ∨ ∃ q, d = .param q := by
  have binding : d.role.isBinding = true := by
    rw [← (binds.declares bound).1.role, Role.isBinding_thaw]
    exact binds.1
  cases d with
  | val v => exact .inl ⟨v, rfl⟩
  | param q => exact .inr ⟨q, rfl⟩
  | typeAlias a => cases binding
  | fn g => cases binding

theorem BoundProgram.Opens.val {seen : List SymbolId} {ss : List (Stmt Mark)}
    (opens : p.Opens seen (ss.filterMap Stmt.decl?)) (member : x ∈ p.declared ss) {v : ValDecl Mark}
    (head : (p.symbol x).decls.head? = some (.val v)) : .val v ∈ ss := by
  obtain ⟨t, inside, same⟩ := List.mem_filterMap.mp
    (opens.owned x member _ (List.mem_of_mem_head? head))
  cases t <;> cases same
  exact inside

theorem BoundProgram.Opens.binds {seen : List SymbolId} {ss : List (Stmt Mark)}
    (opens : p.Opens seen (ss.filterMap Stmt.decl?)) (bound : p.WellBound)
    (member : x ∈ p.declared ss) (binds : p.Binds x d) : ∃ v, d = .val v ∧ .val v ∈ ss := by
  rcases binds.decl bound with ⟨v, rfl⟩ | ⟨q, rfl⟩
  · exact ⟨v, rfl, opens.val member binds.2⟩
  · obtain ⟨t, _, same⟩ := List.mem_filterMap.mp
      (opens.owned x member _ (List.mem_of_mem_head? binds.2))
    cases t <;> cases same

theorem BoundProgram.Spaced.name (spaced : p.Spaced) (node : d.node ∈ stmtsNodes p.program.stmts) :
    d.mark.span.lo ≤ d.name.mark.span.lo ∧ d.name.mark.span.lo < d.name.mark.span.hi ∧
      d.name.mark.span.hi ≤ d.mark.span.hi := by
  have inside := spaced.nested _ node _ d.name_below
  rw [d.node_mark] at inside
  have shown := spaced.legible (.ident d.name)
    (Program.mem_below (List.mem_append_left _ node) d.name_below) rfl
  exact ⟨inside.1, shown, inside.2⟩

/-- A declaration does not belong to a function whose text comes later. -/
theorem not_owns_of_before (spaced : p.Spaced) (node : d.node ∈ stmtsNodes p.program.stmts)
    {g : FnDecl Mark} (before : d.name.mark.span.hi ≤ g.mark.span.lo) : ¬Owns (some g) d := by
  intro owns
  have inside := Span.within_iff.mp owns
  have name := spaced.name node
  have start := inside.1
  omega

theorem not_owns_of_after (spaced : p.Spaced) (node : d.node ∈ stmtsNodes p.program.stmts)
    {g : FnDecl Mark} (after : g.mark.span.hi ≤ d.mark.span.lo) : ¬Owns (some g) d := by
  intro owns
  have inside := Span.within_iff.mp owns
  have name := spaced.name node
  have stop := inside.2
  omega

/-- A function inside the initializer of a binding does not own the binding. -/
theorem not_owns_inside (spaced : p.Spaced) {v : ValDecl Mark} {g : FnDecl Mark}
    (stretch : Stretch p cut (Stmt.val v).nodes) (fn : .stmt (.fn g) ∈ (Stmt.val v).nodes) :
    ¬Owns (some g) (.val v) := by
  have node : (Decl.val v).node ∈ stmtsNodes p.program.stmts :=
    stretch.inside.subset (Stmt.mem_nodes (.val v))
  obtain ⟨m, k, name, ty, e⟩ := v
  refine not_owns_of_before spaced node ?_
  have fn : Node.stmt (.fn g) ∈ tyNodes? ty ++ e.nodes := by
    simpa [Stmt.nodes] using fn
  refine spaced.before [.ident name] (tyNodes? ty ++ e.nodes) ?_ ((tyNodes?_closed ty).append e.closed)
    _ List.mem_cons_self _ fn
  refine List.IsInfix.trans ?_ stretch.inside
  exact (List.prefix_append _ [_]).isInfix

/-- Of the statements of a block, no function owns a binding beside it. -/
theorem stmts_apart (spaced : p.Spaced) (bound : p.WellBound) {ss : List (Stmt Mark)}
    (stretch : Stretch p cut (stmtsNodes ss)) {v : ValDecl Mark} (member : .val v ∈ ss)
    {g : FnDecl Mark} (fn : .stmt (.fn g) ∈ stmtsNodes ss) : ¬Owns (some g) (.val v) := by
  induction ss with
  | nil => cases member
  | cons s ss ih =>
    have first := stretch.left bound s.closed (stmts_closed ss)
    have rest := stretch.right bound s.closed (stmts_closed ss)
    have before := spaced.before s.nodes (stmtsNodes ss) stretch.inside (stmts_closed ss)
    rcases List.mem_append.mp fn with here | there
    · rcases List.mem_cons.mp member with rfl | later
      · exact not_owns_inside spaced first here
      · have inner : Node.stmt (.val v) ∈ stmtsNodes ss := mem_stmtsNodes later (Stmt.mem_nodes _)
        exact not_owns_of_after spaced (d := .val v) (rest.inside.subset inner)
          (before _ here _ inner)
    · rcases List.mem_cons.mp member with rfl | later
      · have own := Stmt.mem_nodes (.val v)
        have name := spaced.name (d := .val v) (first.inside.subset own)
        exact not_owns_of_before spaced (d := .val v) (first.inside.subset own)
          (Nat.le_trans name.2.2 (before _ own _ there))
      · exact ih rest later there

end

/-! ### Staged evaluations -/

namespace Task

def nodes : Task → List (Node Mark)
  | .expr e => e.nodes
  | .exprs es => exprsNodes es
  | .tail last => tailNodes last
  | .arms _ rest => armsNodes rest
  | .stmt t => t.nodes
  | .stmts ss => stmtsNodes ss

def places (owner : Option (FnDecl Mark)) : Task → List Place
  | .expr e => e.places owner
  | .exprs es => exprsPlaces owner es
  | .tail last => tailPlaces owner last
  | .arms _ rest => armsPlaces owner rest
  | .stmt t => t.places owner
  | .stmts ss => stmtsPlaces owner ss

def Scoped (p : BoundProgram) (seen : List SymbolId) : Task → Prop
  | .expr e => e.Scoped p seen
  | .exprs es => exprsScoped p seen es
  | .tail last => tailScoped p seen last
  | .arms _ rest => armsScoped p seen rest
  | .stmt t => t.Scoped p seen
  | .stmts ss => stmtsScoped p seen ss

/-- A declaration that has not run when the task begins. -/
def Awaits (d : Decl) : Task → Prop
  | .stmts ss => d.node ∈ ss.map Node.stmt ∨ Late d (stmtsNodes ss)
  | t => Late d t.nodes

end Task

/-- What an evaluation begins before it calls a function is not cut across either, if it is not cut
out itself. -/
theorem Stretch.enters {q : Plan} {cut : Expr Mark → Prop} {c c' : Config}
    (stretch : Stretch q.toBoundProgram cut c.task.nodes) (bound : q.WellBound)
    (enters : q.Enters c c') (same : c'.left = c.left) (kept : ∀ e, c.task = .expr e → ¬cut e) :
    Stretch q.toBoundProgram cut c'.task.nodes := by
  have root : ∀ e, c.task = .expr e → ∀ e', Node.expr e = Node.expr e' → ¬cut e' := by
    rintro e task _ ⟨⟩
    exact kept e task
  cases enters with
  | @paren _ _ _ e => exact stretch.inner e.closed (root _ rfl)
  | @unary _ _ _ _ e => exact stretch.inner e.closed (root _ rfl)
  | @left _ _ _ _ a b =>
    exact (stretch.inner (a.closed.append b.closed) (root _ rfl)).left bound a.closed b.closed
  | @right _ _ _ _ _ a b =>
    exact (stretch.inner (a.closed.append b.closed) (root _ rfl)).right bound a.closed b.closed
  | @args _ _ _ f args =>
    have leaf : Closed [.ident f] := .leaf rfl
    exact (stretch.inner (leaf.append (exprs_closed args)) (root _ rfl)).right bound leaf
      (exprs_closed args)
  | body => exact absurd same (Nat.ne_of_lt (Nat.lt_succ_self _))
  | @block _ _ _ ss tail =>
    exact (stretch.inner ((stmts_closed ss).append (tail_closed tail)) (root _ rfl)).left bound
      (stmts_closed ss) (tail_closed tail)
  | @tail _ _ _ _ ss tail =>
    exact (stretch.inner ((stmts_closed ss).append (tail_closed tail)) (root _ rfl)).right bound
      (stmts_closed ss) (tail_closed tail)
  | @assign _ _ _ x e =>
    have leaf : Closed [.ident x] := .leaf rfl
    exact (stretch.inner (leaf.append e.closed) (root _ rfl)).right bound leaf e.closed
  | @scrutinee _ _ _ e arms =>
    exact (stretch.inner (e.closed.append (arms_closed arms)) (root _ rfl)).left bound e.closed
      (arms_closed arms)
  | @arms _ _ _ _ e arms =>
    exact (stretch.inner (e.closed.append (arms_closed arms)) (root _ rfl)).right bound e.closed
      (arms_closed arms)
  | @arg _ _ e es => exact stretch.left bound e.closed (exprs_closed es)
  | @nextArgs _ _ _ e es => exact stretch.right bound e.closed (exprs_closed es)
  | last => exact stretch
  | @arm _ _ _ _ a e arms =>
    have arm := (stretch.left bound (Arm.closed _) (arms_closed arms)).inner
      (a.closed.append e.closed) nofun
    exact arm.right bound a.closed e.closed
  | @nextArms _ _ _ _ _ _ arms => exact stretch.right bound (Arm.closed _) (arms_closed arms)
  | @init _ _ d =>
    obtain ⟨m, kind, name, ty, e⟩ := d
    exact (stretch.inner (Stmt.inner_closed (.val ⟨m, kind, name, ty, e⟩)) nofun).right bound
      ((Closed.leaf (n := .ident name) rfl).append (tyNodes?_closed ty)) e.closed
  | @effect _ _ _ e => exact stretch.inner e.closed nofun
  | @stmt _ _ t ss => exact stretch.left bound t.closed (stmts_closed ss)
  | @nextStmts _ _ _ t ss => exact stretch.right bound t.closed (stmts_closed ss)

section
variable (p : BoundProgram) (cut : Expr Mark → Prop)

/-- No function of these scopes owns a binding that is visible at its declaration. -/
def Clear : List LiveScope → Prop
  | [] => True
  | z :: outer =>
    (∀ y ∈ z.declares, ∀ g, .fn g ∈ (p.symbol y).decls →
      g.body.places (some g) ⊆ p.program.places ∧ Stretch p cut (Stmt.fn g).nodes ∧
        ∀ x ∈ visible (z :: outer), ∀ d, p.Binds x d → ¬Owns (some g) d) ∧
      Clear outer

/-- What holds when an evaluation begins in the body of `owner`, in scopes `env`: the bindings of
`owner` that are visible and are declared before have values, and so have those of others for which
`R` answers. -/
structure Staged (owner : Option (FnDecl Mark)) (R : SymbolId → Prop) (env : List LiveScope)
    (c : Config) : Prop where
  names : c.task.Scoped p (visible env)
  stretch : Stretch p cut c.task.nodes
  places : c.task.places owner ⊆ p.program.places
  legal : Legal p env
  clear : Clear p cut env
  early : ∀ x ∈ visible env, ∀ d, p.Binds x d → Owns owner d →
    Held x c.machine.frames ∨ c.task.Awaits d
  apart : ∀ x ∈ visible env, ∀ d, p.Binds x d → ∀ g, .stmt (.fn g) ∈ c.task.nodes →
    ¬Owns (some g) d
  bare : ∀ x ∈ visible env, ∀ v, (p.symbol x).decls.head? = some (.val v) →
    ∀ e, cut e → .stmt (.val v) ∉ e.nodes
  opened : c.machine.frames ≠ []
  home : ∀ g, owner = some g → ∀ n ∈ c.task.nodes, n.mark.span.Inside g.mark.span
  outer : ∀ x ∈ visible env, ∀ d, p.Binds x d → ¬Owns owner d → R x → Held x c.machine.frames

end

section
variable {p : BoundProgram} {cut : Expr Mark → Prop} {owner : Option (FnDecl Mark)}
  {R : SymbolId → Prop} {env : List LiveScope} {c c' : Config}

theorem Clear.around {env : List LiveScope} (clear : Clear p cut env) (y : SymbolId) :
    Clear p cut (around y env) := by
  induction env with
  | nil => trivial
  | cons z outer ih =>
    rw [Lexical.around]
    split
    · exact clear
    · exact ih clear.2

theorem Clear.fn {env : List LiveScope} (clear : Clear p cut env) {y : SymbolId}
    (seen : y ∈ visible env) (own : y ≠ 1) {g : FnDecl Mark} (overload : .fn g ∈ (p.symbol y).decls) :
    g.body.places (some g) ⊆ p.program.places ∧ Stretch p cut (Stmt.fn g).nodes ∧
      ∀ x ∈ visible (Lexical.around y env), ∀ d, p.Binds x d → ¬Owns (some g) d := by
  induction env with
  | nil => exact absurd (List.mem_singleton.mp seen) own
  | cons z outer ih =>
    rw [Lexical.around]
    split
    · next here => exact clear.1 y here g overload
    · next elsewhere => exact ih clear.2 ((List.mem_append.mp seen).resolve_left elsewhere)

theorem Clear.mono {cut' : Expr Mark → Prop} {env : List LiveScope} (clear : Clear p cut env)
    (less : ∀ e, cut' e → cut e) : Clear p cut' env := by
  induction env with
  | nil => trivial
  | cons z outer ih =>
    refine ⟨fun y member g overload => ?_, ih clear.2⟩
    obtain ⟨places, stretch, apart⟩ := clear.1 y member g overload
    exact ⟨places, stretch.mono less, apart⟩

namespace Staged

/-- A part of a staged evaluation that begins in the same scopes. -/
theorem part (staged : Staged p cut owner R env c) (names : c'.task.Scoped p (visible env))
    (stretch : Stretch p cut c'.task.nodes) (places : c'.task.places owner ⊆ c.task.places owner)
    (nodes : c'.task.nodes ⊆ c.task.nodes) (waits : ∀ d, c.task.Awaits d → c'.task.Awaits d)
    (grows : Grows c.machine.frames c'.machine.frames) : Staged p cut owner R env c' where
  names
  stretch
  places := List.Subset.trans places staged.places
  legal := staged.legal
  clear := staged.clear
  early x seen d binds owns := (staged.early x seen d binds owns).imp (·.grows grows) (waits d)
  apart x seen d binds g member := staged.apart x seen d binds g (nodes member)
  bare := staged.bare
  opened := grows.ne_nil staged.opened
  home g same n member := staged.home g same n (nodes member)
  outer x seen d binds foreign read := (staged.outer x seen d binds foreign read).grows grows

/-- Statements that begin, in the scope of their own declarations. -/
theorem openBlock (spaced : p.Spaced) (bound : p.WellBound) {ss : List (Stmt Mark)}
    (opens : p.Opens (visible env) (ss.filterMap Stmt.decl?))
    (names : stmtsScoped p (p.declared ss ++ visible env) ss)
    (stretch : Stretch p cut (stmtsNodes ss)) (places : stmtsPlaces owner ss ⊆ p.program.places)
    (legal : Legal p env) (clear : Clear p cut env) {n : Nat} {s : Machine}
    (early : ∀ x ∈ visible env, ∀ d, p.Binds x d → Owns owner d →
      Held x s.frames ∨ Late d (stmtsNodes ss))
    (apart : ∀ x ∈ visible env, ∀ d, p.Binds x d → ∀ g, .stmt (.fn g) ∈ stmtsNodes ss →
      ¬Owns (some g) d)
    (bare : ∀ x ∈ visible env, ∀ v, (p.symbol x).decls.head? = some (.val v) →
      ∀ e, cut e → .stmt (.val v) ∉ e.nodes)
    (opened : s.frames ≠ [])
    (home : ∀ g, owner = some g → ∀ n ∈ stmtsNodes ss, n.mark.span.Inside g.mark.span)
    (outer : ∀ x ∈ visible env, ∀ d, p.Binds x d → ¬Owns owner d → R x → Held x s.frames) :
    Staged p cut owner R (⟨p.declared ss, 0⟩ :: env) ⟨n, .stmts ss, s⟩ := by
  have apart' : ∀ x ∈ visible (⟨p.declared ss, 0⟩ :: env), ∀ d, p.Binds x d →
      ∀ g, .stmt (.fn g) ∈ stmtsNodes ss → ¬Owns (some g) d := by
    intro x seen d binds g fn
    rcases List.mem_append.mp seen with here | there
    · obtain ⟨v, rfl, member⟩ := opens.binds bound here binds
      exact stmts_apart spaced bound stretch member fn
    · exact apart x there d binds g fn
  refine ⟨names, stretch, places, legal.block opens names 0, ⟨?_, clear⟩, ?_, apart', ?_, opened,
    home, ?_⟩
  · intro y member g overload
    obtain ⟨t, inside, same⟩ := List.mem_filterMap.mp (opens.owned y member _ overload)
    obtain rfl : t = .fn g := by cases t <;> cases same; rfl
    refine ⟨?_, stretch.stmt bound _ inside, ?_⟩
    · have below := List.Subset.trans (mem_stmtsPlaces owner inside) places
      obtain ⟨m, name, params, result, e⟩ := g
      exact below
    · intro x seen d binds
      exact apart' x seen d binds g (mem_stmtsNodes inside (Stmt.mem_nodes _))
  · intro x seen d binds owns
    rcases List.mem_append.mp seen with here | there
    · obtain ⟨v, rfl, member⟩ := opens.binds bound here binds
      exact .inr (.inl (List.mem_map_of_mem member))
    · exact (early x there d binds owns).imp id .inr
  · intro x seen v head e isCut
    rcases List.mem_append.mp seen with here | there
    · exact (stretch.stmt bound _ (opens.val here head)).stmt_outside bound isCut
    · exact bare x there v head e isCut
  · intro x seen d binds foreign read
    rcases List.mem_append.mp seen with here | there
    · obtain ⟨v, rfl, member⟩ := opens.binds bound here binds
      refine absurd ?_ foreign
      cases owner with
      | none => rfl
      | some g =>
        exact Span.within_iff.mpr
          (home g rfl _ (mem_stmtsNodes member (Stmt.mem_nodes (.val v))))
    · exact outer x there d binds foreign read

theorem block (spaced : p.Spaced) (bound : p.WellBound) {n : Nat} {s : Machine} {m : Mark}
    {ss : List (Stmt Mark)} {last : Option (Expr Mark)}
    (staged : Staged p cut owner R env ⟨n, .expr (.block m ss last), s⟩)
    (kept : ¬cut (.block m ss last)) :
    Staged p cut owner R (⟨p.declared ss, 0⟩ :: env) ⟨n, .stmts ss, s⟩ := by
  have part : stmtsNodes ss ⊆ (Expr.block m ss last).nodes :=
    List.subset_append_of_subset_left _ (List.subset_append_left _ _)
  have stretch := staged.stretch.inner ((stmts_closed ss).append (tail_closed last)) fun e same => by
    cases same
    exact kept
  exact openBlock spaced bound staged.names.1 staged.names.2.1
    (stretch.left bound (stmts_closed ss) (tail_closed last))
    (List.Subset.trans (List.subset_append_of_subset_left _ (List.subset_append_left _ _))
      staged.places)
    staged.legal staged.clear
    (fun x seen d binds owns => (staged.early x seen d binds owns).imp id (·.part part))
    (fun x seen d binds g fn => staged.apart x seen d binds g (part fn)) staged.bare staged.opened
    (fun g same n member => staged.home g same n (part member)) staged.outer

theorem blockTail {q : Plan} (spaced : q.Spaced) (bound : q.WellBound) {n : Nat} {s s' : Machine}
    {m : Mark} {ss : List (Stmt Mark)} {last : Option (Expr Mark)}
    (staged : Staged q.toBoundProgram cut owner R env ⟨n, .expr (.block m ss last), s⟩)
    (kept : ¬cut (.block m ss last)) (run : q.evalStmts (q.call n) ss s = (.ok (), s')) :
    Staged q.toBoundProgram cut owner R (⟨q.declared ss, 0⟩ :: env) ⟨n, .tail last, s'⟩ := by
  have opened := staged.block spaced bound kept
  have grows : Grows s.frames s'.frames := (q.evalStmts_growing (q.call_growing n) ss).run run
  have parts : Stretch q.toBoundProgram cut (stmtsNodes ss ++ tailNodes last) :=
    staged.stretch.inner ((stmts_closed ss).append (tail_closed last)) fun e same => by
      cases same
      exact kept
  have before := spaced.before _ _ parts.inside (tail_closed last)
  have within : tailNodes last ⊆ (Expr.block m ss last).nodes :=
    List.Subset.trans (List.subset_append_right _ _) (List.subset_append_left _ _)
  have value : ∀ x ∈ q.declared ss, ∀ d, q.Binds x d → ∃ v, d = .val v ∧ .val v ∈ ss :=
    fun x member d binds => staged.names.1.binds bound member binds
  refine ⟨staged.names.2.2, parts.right bound (stmts_closed ss) (tail_closed last), ?_, opened.legal,
    opened.clear, ?_, ?_, opened.bare, grows.ne_nil staged.opened, ?_, ?_⟩
  · exact List.Subset.trans (List.subset_append_of_subset_left _ (List.subset_append_right _ _))
      staged.places
  · intro x seen d binds owns
    rcases List.mem_append.mp seen with here | there
    · obtain ⟨v, rfl, member⟩ := value x here d binds
      exact .inl (held_of_stmts (binds.declares bound).1.target member staged.opened run)
    · exact (staged.early x there d binds owns).imp (·.grows grows) (·.part within)
  · intro x seen d binds g fn
    rcases List.mem_append.mp seen with here | there
    · obtain ⟨v, rfl, member⟩ := value x here d binds
      have node := (binds.declares bound).2
      exact not_owns_of_before spaced node (Nat.le_trans (spaced.name node).2.2
        (before _ (mem_stmtsNodes member (Stmt.mem_nodes (.val v))) _ fn))
    · exact staged.apart x there d binds g (within fn)
  · exact fun g same n member => staged.home g same n (within member)
  · exact fun x seen d binds foreign read => (opened.outer x seen d binds foreign read).grows grows

theorem firstStmt (spaced : p.Spaced) (bound : p.WellBound) {n : Nat} {s : Machine} {t : Stmt Mark}
    {ss : List (Stmt Mark)} (staged : Staged p cut owner R env ⟨n, .stmts (t :: ss), s⟩) :
    Staged p cut owner R env ⟨n, .stmt t, s⟩ := by
  have part : t.nodes ⊆ stmtsNodes (t :: ss) := List.subset_append_left _ _
  have first : Stretch p cut t.nodes := staged.stretch.left bound t.closed (stmts_closed ss)
  refine staged.part staged.names.1 first (List.subset_append_left _ _) part ?_ (.refl _)
  rintro d (member | late)
  · intro n inside shown
    have shown : n.mark.span.lo < n.mark.span.hi := shown
    rw [← d.node_mark]
    rcases List.mem_cons.mp member with same | later
    · have within := spaced.nested _ (first.inside.subset t.mem_nodes) n inside
      rw [same]
      exact Nat.lt_of_lt_of_le shown within.2
    · obtain ⟨t', inner, same⟩ := List.mem_map.mp later
      have before := spaced.before _ _ staged.stretch.inside (stmts_closed ss) n inside
        (.stmt t') (mem_stmtsNodes inner t'.mem_nodes)
      have ordered := d.node.mark.span.lo_le_hi
      rw [same] at before
      omega
  · exact late.part part

/-- The others, once the first one has run. -/
theorem nextStmts {q : Plan} (bound : q.WellBound) {n : Nat} {s s' : Machine} {t : Stmt Mark}
    {ss : List (Stmt Mark)}
    (staged : Staged q.toBoundProgram cut owner R env ⟨n, .stmts (t :: ss), s⟩)
    (run : q.evalStmt (q.call n) t s = (.ok (), s')) :
    Staged q.toBoundProgram cut owner R env ⟨n, .stmts ss, s'⟩ := by
  have grows : Grows s.frames s'.frames := (q.evalStmt_growing (q.call_growing n) t).run run
  have part : stmtsNodes ss ⊆ stmtsNodes (t :: ss) := List.subset_append_right _ _
  refine ⟨staged.names.2, staged.stretch.right bound t.closed (stmts_closed ss),
    List.Subset.trans (List.subset_append_right _ _) staged.places, staged.legal, staged.clear, ?_,
    fun x seen d binds g fn => staged.apart x seen d binds g (part fn), staged.bare,
    grows.ne_nil staged.opened, fun g same n member => staged.home g same n (part member),
    fun x seen d binds foreign read => (staged.outer x seen d binds foreign read).grows grows⟩
  intro x seen d binds owns
  rcases staged.early x seen d binds owns with held | member | late
  · exact .inl (held.grows grows)
  · rcases List.mem_cons.mp member with same | later
    · -- only a value is declared by a statement and has one
      rcases binds.decl bound with ⟨v, rfl⟩ | ⟨a, rfl⟩
      · cases same
        exact .inl (held_of_stmt (binds.declares bound).1.target staged.opened run)
      · cases same
    · exact .inr (.inl later)
  · exact .inr (.inr (late.part part))

/-- The body of a called function, whose parameters have values. -/
theorem enterBody {q : Plan} (spaced : q.Spaced) (bound : q.WellBound) {n k : Nat} {s s' : Machine}
    {m : Mark} {f : Ident Mark} {args : List (Expr Mark)} {vs : List Literal} {y : SymbolId}
    {g : FnDecl Mark} {R' : SymbolId → Prop}
    (staged : Staged q.toBoundProgram cut owner R env ⟨n, .expr (.call m f args), s⟩)
    (target : q.symbolAt? f.mark.id = some y) (overload : .fn g ∈ (q.symbol y).decls)
    (count : vs.length = g.params.length)
    (reads : ∀ x ∈ visible env, ∀ d, q.Binds x d → R' x → Held x s'.frames) :
    ∃ env', Staged q.toBoundProgram cut (some g) R' env'
      ⟨k, .expr g.body, { s' with frames := q.frameOf g vs :: s'.frames }⟩ := by
  obtain ⟨y', seen, target', _⟩ := staged.names.1
  cases target.symm.trans target'
  have own : y ≠ 1 := Lexical.ne_builtin bound (List.ne_nil_of_mem overload)
  obtain ⟨places, stretch, apart⟩ := staged.clear.fn seen own overload
  have names := staged.legal.decl seen own overload
  have node : (Decl.fn g).node ∈ stmtsNodes q.program.stmts :=
    stretch.inside.subset (Stmt.mem_nodes (.fn g))
  have nested := spaced.nested _ node
  have params : ∀ x ∈ q.paramSymbols g.params, Held x (q.frameOf g vs :: s'.frames) :=
    fun x member => .own (frameOf_contains count member) _
  obtain ⟨m', name, ps, result, e⟩ := g
  obtain ⟨opens, _, _, body⟩ := names
  have outer := Lexical.visible_around y env
  have isParam : ∀ x ∈ q.paramSymbols ps, ∀ d ∈ (q.symbol x).decls, ∃ a ∈ ps, d = .param a := by
    intro x member d decl
    obtain ⟨a, inside, rfl⟩ := List.mem_map.mp (opens.owned x member d decl)
    exact ⟨a, inside, rfl⟩
  have parts : Stretch q.toBoundProgram cut (.ident name :: paramsNodes ps ++ tyNodes? result ++ e.nodes) :=
    stretch.inner (Stmt.inner_closed (.fn ⟨m', name, ps, result, e⟩)) nofun
  have below : e.nodes ⊆ (Stmt.fn ⟨m', name, ps, result, e⟩).nodes :=
    List.Subset.trans (List.subset_append_right _ _) (List.subset_append_left _ _)
  refine ⟨⟨q.paramSymbols ps, 0⟩ :: around y env, body, ?_, places,
    (staged.legal.around y).params opens 0, ⟨?_, staged.clear.around y⟩, ?_, ?_, ?_, nofun, ?_, ?_⟩
  · exact parts.right bound (((Closed.leaf (n := .ident name) rfl).append (params_closed ps)).append
      (tyNodes?_closed result)) e.closed
  · intro z member g' decl
    obtain ⟨a, _, impossible⟩ := isParam z member _ decl
    cases impossible
  · intro x visible d binds owns
    rcases List.mem_append.mp visible with here | there
    · exact .inl (params x here)
    · exact absurd owns (apart x there d binds)
  · intro x visible d binds g' fn
    rcases List.mem_append.mp visible with here | there
    · obtain ⟨a, member, rfl⟩ := isParam x here d (List.mem_of_mem_head? binds.2)
      have param : Node.param a ∈ .ident name :: paramsNodes ps ++ tyNodes? result :=
        List.mem_append_left _ (List.mem_cons_of_mem _ (mem_paramsNodes member))
      have declared := (binds.declares bound).2
      exact not_owns_of_before spaced declared (Nat.le_trans (spaced.name declared).2.2
        (spaced.before _ _ parts.inside e.closed _ param _ fn))
    · intro owns
      have inner := Span.within_iff.mp owns
      exact apart x there d binds
        (Span.within_iff.mpr (inner.trans (nested _ (below fn))))
  · intro x visible v head
    rcases List.mem_append.mp visible with here | there
    · obtain ⟨a, _, impossible⟩ := isParam x here _ (List.mem_of_mem_head? head)
      cases impossible
    · exact staged.bare x (outer there) v head
  · rintro _ ⟨⟩ k member
    exact nested _ (below member)
  · intro x visible d binds _ read
    rcases List.mem_append.mp visible with here | there
    · exact params x here
    · exact (reads x (outer there) d binds read).push _

/-- What an evaluation begins before it calls a function is staged in the same function. -/
theorem inside {q : Plan} (spaced : q.Spaced) (bound : q.WellBound)
    (staged : Staged q.toBoundProgram cut owner R env c) (enters : q.Enters c c')
    (same : c'.left = c.left) (kept : ∀ e, c.task = .expr e → ¬cut e) :
    ∃ env', Staged q.toBoundProgram cut owner R env' c' := by
  have stretch := staged.stretch.enters bound enters same kept
  have still : ∀ {v : Literal} {a : Pat Mark} {hit : Bool} {s s' : Machine},
      q.matchesPat v a s = (.ok hit, s') → Grows s.frames s'.frames := by
    intro v a hit s s' first
    have state := q.matchesPat_state v a s
    rw [first] at state
    rw [← state]
    exact .refl _
  cases enters with
  | @paren n s m e =>
    have part : e.nodes ⊆ (Expr.paren m e).nodes := List.subset_append_left _ _
    exact ⟨env, staged.part staged.names stretch (List.subset_append_left _ _) part
      (fun _ late => late.part part) (.refl _)⟩
  | @unary n s m op e =>
    have part : e.nodes ⊆ (Expr.unary m op e).nodes := List.subset_append_left _ _
    exact ⟨env, staged.part staged.names stretch (List.subset_append_left _ _) part
      (fun _ late => late.part part) (.refl _)⟩
  | @left n s m op a b =>
    have part : a.nodes ⊆ (Expr.bin m op a b).nodes :=
      List.subset_append_of_subset_left _ (List.subset_append_left _ _)
    exact ⟨env, staged.part staged.names.1 stretch
      (List.subset_append_of_subset_left _ (List.subset_append_left _ _)) part
      (fun _ late => late.part part) (.refl _)⟩
  | @right n s s' m op a b v _ first =>
    have part : b.nodes ⊆ (Expr.bin m op a b).nodes :=
      List.subset_append_of_subset_left _ (List.subset_append_right _ _)
    exact ⟨env, staged.part staged.names.2 stretch
      (List.subset_append_of_subset_left _ (List.subset_append_right _ _)) part
      (fun _ late => late.part part) ((q.evalExpr_growing (q.call_growing n) a).run first)⟩
  | @args n s m f args =>
    have part : exprsNodes args ⊆ (Expr.call m f args).nodes :=
      List.subset_append_of_subset_left _ (List.subset_cons_self _ _)
    exact ⟨env, staged.part staged.names.2 stretch (List.subset_append_left _ _) part
      (fun _ late => late.part part) (.refl _)⟩
  | body => exact absurd same (Nat.ne_of_lt (Nat.lt_succ_self _))
  | block => exact ⟨_, staged.block spaced bound (kept _ rfl)⟩
  | tail _ first => exact ⟨_, staged.blockTail spaced bound (kept _ rfl) first⟩
  | @assign n s m x e =>
    have part : e.nodes ⊆ (Expr.assign m x e).nodes :=
      List.subset_append_of_subset_left _ (List.subset_cons_self _ _)
    exact ⟨env, staged.part staged.names.2 stretch (List.subset_append_left _ _) part
      (fun _ late => late.part part) (.refl _)⟩
  | @scrutinee n s m e arms =>
    have part : e.nodes ⊆ (Expr.cases m e arms).nodes :=
      List.subset_append_of_subset_left _ (List.subset_append_left _ _)
    exact ⟨env, staged.part staged.names.1 stretch
      (List.subset_append_of_subset_left _ (List.subset_append_left _ _)) part
      (fun _ late => late.part part) (.refl _)⟩
  | @arms n s s' m e arms v _ first =>
    have part : armsNodes arms ⊆ (Expr.cases m e arms).nodes :=
      List.subset_append_of_subset_left _ (List.subset_append_right _ _)
    exact ⟨env, staged.part staged.names.2 stretch
      (List.subset_append_of_subset_left _ (List.subset_append_right _ _)) part
      (fun _ late => late.part part) ((q.evalExpr_growing (q.call_growing n) e).run first)⟩
  | @arg n s e es =>
    have part : e.nodes ⊆ exprsNodes (e :: es) := List.subset_append_left _ _
    exact ⟨env, staged.part staged.names.1 stretch (List.subset_append_left _ _) part
      (fun _ late => late.part part) (.refl _)⟩
  | @nextArgs n s s' e es v first =>
    have part : exprsNodes es ⊆ exprsNodes (e :: es) := List.subset_append_right _ _
    exact ⟨env, staged.part staged.names.2 stretch (List.subset_append_right _ _) part
      (fun _ late => late.part part) ((q.evalExpr_growing (q.call_growing n) e).run first)⟩
  | last =>
    exact ⟨env, staged.part staged.names stretch (List.Subset.refl _) (List.Subset.refl _)
      (fun _ late => late) (.refl _)⟩
  | @arm n s s' m a e arms v first =>
    have part : e.nodes ⊆ armsNodes (⟨m, a, e⟩ :: arms) :=
      List.subset_append_of_subset_left _
        (List.subset_append_of_subset_left _ (List.subset_append_right _ _))
    exact ⟨env, staged.part staged.names.2.1 stretch (List.subset_append_left _ _) part
      (fun _ late => late.part part) (still first)⟩
  | @nextArms n s s' m a e arms v first =>
    have part : armsNodes arms ⊆ armsNodes (⟨m, a, e⟩ :: arms) := List.subset_append_right _ _
    exact ⟨env, staged.part staged.names.2.2 stretch (List.subset_append_right _ _) part
      (fun _ late => late.part part) (still first)⟩
  | @init n s d =>
    obtain ⟨m, kind, name, ty, e⟩ := d
    have part : e.nodes ⊆ (Stmt.val ⟨m, kind, name, ty, e⟩).nodes :=
      List.subset_append_of_subset_left _ (List.subset_append_right _ _)
    exact ⟨env, staged.part staged.names.2 stretch (List.Subset.refl _) part
      (fun _ late => late.part part) (.refl _)⟩
  | @effect n s m e =>
    have part : e.nodes ⊆ (Stmt.expr m e).nodes := List.subset_append_left _ _
    exact ⟨env, staged.part staged.names stretch (List.Subset.refl _) part
      (fun _ late => late.part part) (.refl _)⟩
  | stmt => exact ⟨env, staged.firstStmt spaced bound⟩
  | nextStmts first => exact ⟨env, staged.nextStmts bound first⟩

/-- A read that was judged good finds a value. -/
theorem read {n : Nat} {s : Machine} {e : Expr Mark} {x : SymbolId}
    (staged : Staged p cut owner R env ⟨n, .expr e, s⟩) (seen : x ∈ visible env)
    (shown : (Node.expr e).Shown) (well : ReadsWell p owner R x e.span) : Held x s.frames := by
  obtain ⟨d, binding, head, ⟨owns, before⟩ | ⟨foreign, read⟩⟩ := well
  · rcases staged.early x seen d ⟨binding, head⟩ owns with held | late
    · exact held
    · exact absurd (late _ (Expr.mem_nodes e) shown) (Nat.not_lt.mpr before)
  · exact staged.outer x seen d ⟨binding, head⟩ foreign read

/-- With less cut out, an evaluation is staged all the more. -/
theorem mono {cut' : Expr Mark → Prop} (staged : Staged p cut owner R env c)
    (less : ∀ e, cut' e → cut e) : Staged p cut' owner R env c :=
  { staged with
    stretch := staged.stretch.mono less
    clear := staged.clear.mono less
    bare := fun x seen v head e isCut => staged.bare x seen v head e (less e isCut) }

theorem start {q : Plan} (spaced : q.Spaced) (bound : q.WellBound)
    (within : ∀ e, cut e → e.nodes ⊆ stmtsNodes q.program.stmts) :
    Staged q.toBoundProgram cut none R [⟨q.declared q.program.stmts, 0⟩] q.begin := by
  have none : ∀ x ∈ visible [], ∀ d, (q.symbol x).decls.head? ≠ some d := by
    intro x seen d
    cases List.mem_singleton.mp seen
    rw [bound.builtin]
    nofun
  have opens : q.Opens (visible []) (q.program.stmts.filterMap Stmt.decl?) := bound.opens
  exact openBlock spaced bound opens bound.names
    ⟨List.infix_refl _, fun e isCut => .inl (within e isCut)⟩ (List.Subset.refl _) trivial trivial
    (fun x seen d binds => absurd binds.2 (none x seen d))
    (fun x seen d binds => absurd binds.2 (none x seen d))
    (fun x seen v head => absurd head (none x seen _)) nofun nofun
    (fun x seen d binds => absurd binds.2 (none x seen d))

end Staged

end

end Solo

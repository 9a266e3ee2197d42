import Solo.Proofs.FoldedRuns
import Solo.Proofs.Tallies

/-!
# What folding covers

A run does not get into the arguments of a folded call: it begins nothing there itself, and a
function that is declared there is visible only there. Everywhere else folding has been, so an
inhabitant expression that a run gets to has its value.
-/

namespace Solo

open Lexical (visible Legal around)

/-! ### Evaluations outside of folded calls -/

/-- A task in scopes `env`, neither part of an expression that is cut out nor cut across by one.
The functions that it may call are like that as well. -/
structure Task.Stands (p : BoundProgram) (cut : Expr Mark → Prop) (env : List LiveScope)
    (t : Task) : Prop where
  names : t.Scoped p (visible env)
  stretch : Stretch p cut t.nodes
  legal : Legal p env
  clear : ∀ x ∈ visible env, ∀ g, .fn g ∈ (p.symbol x).decls → Stretch p cut (Stmt.fn g).nodes

namespace Task.Stands

variable {p : BoundProgram} {cut : Expr Mark → Prop} {env : List LiveScope} {c c' : Config}

/-- Statements that begin, in the scope of their own declarations. -/
theorem openBlock {ss : List (Stmt Mark)} (bound : p.WellBound)
    (opens : p.Opens (visible env) (ss.filterMap Stmt.decl?))
    (names : stmtsScoped p (p.declared ss ++ visible env) ss)
    (stretch : Stretch p cut (stmtsNodes ss)) (legal : Legal p env)
    (clear : ∀ x ∈ visible env, ∀ g, .fn g ∈ (p.symbol x).decls →
      Stretch p cut (Stmt.fn g).nodes) :
    Stands p cut (⟨p.declared ss, 0⟩ :: env) (.stmts ss) := by
  refine ⟨names, stretch, legal.block opens names 0, fun x seen g overload => ?_⟩
  rcases List.mem_append.mp seen with here | there
  · obtain ⟨t, inside, same⟩ := List.mem_filterMap.mp (opens.owned x here _ overload)
    obtain rfl : t = .fn g := by cases t <;> cases same; rfl
    exact stretch.stmt bound _ inside
  · exact clear x there g overload

theorem called {m : Mark} {f : Ident Mark} {args : List (Expr Mark)} {y : SymbolId}
    {g : FnDecl Mark} (stands : Stands p cut env (.expr (.call m f args))) (bound : p.WellBound)
    (target : p.symbolAt? f.mark.id = some y) (overload : .fn g ∈ (p.symbol y).decls) :
    ∃ env', Stands p cut env' (.expr g.body) := by
  obtain ⟨y', seen, target', _⟩ := stands.names.1
  cases target.symm.trans target'
  have own : y ≠ 1 := Lexical.ne_builtin bound (List.ne_nil_of_mem overload)
  have stretch := stands.clear y seen g overload
  have names := stands.legal.decl seen own overload
  obtain ⟨m', name, ps, result, e⟩ := g
  obtain ⟨opens, _, _, body⟩ := names
  have parts := stretch.inner (Stmt.inner_closed (.fn ⟨m', name, ps, result, e⟩)) nofun
  refine ⟨⟨p.paramSymbols ps, 0⟩ :: around y env, body, ?_,
    (stands.legal.around y).params opens 0, fun x seen g overload => ?_⟩
  · exact parts.right bound (((Closed.leaf (n := .ident name) rfl).append (params_closed ps)).append
      (tyNodes?_closed result)) e.closed
  · rcases List.mem_append.mp seen with here | there
    · obtain ⟨a, _, impossible⟩ := List.mem_map.mp (opens.owned x here _ overload)
      cases impossible
    · exact stands.clear x (Lexical.visible_around y env there) g overload

/-- What an evaluation begins before it calls a function. -/
theorem inside {q : Plan} (stands : Stands q.toBoundProgram cut env c.task) (bound : q.WellBound)
    (enters : q.Enters c c') (same : c'.left = c.left) (kept : ∀ e, c.task = .expr e → ¬cut e) :
    ∃ env', Stands q.toBoundProgram cut env' c'.task := by
  have stretch := stands.stretch.enters bound enters same kept
  obtain ⟨names, whole, legal, clear⟩ := stands
  have block : ∀ {m : Mark} {ss : List (Stmt Mark)} {last : Option (Expr Mark)},
      c.task = .expr (.block m ss last) →
        Stands q.toBoundProgram cut (⟨q.declared ss, 0⟩ :: env) (.stmts ss) := by
    intro m ss last task
    rw [task] at names whole
    have parts := whole.inner ((stmts_closed ss).append (tail_closed last)) fun e same => by
      cases same
      exact kept _ task
    exact openBlock bound names.1 names.2.1 (parts.left bound (stmts_closed ss) (tail_closed last))
      legal clear
  cases enters with
  | paren | unary | last | effect => exact ⟨env, names, stretch, legal, clear⟩
  | left | scrutinee | arg | stmt => exact ⟨env, names.1, stretch, legal, clear⟩
  | right | args | arms | assign | nextArgs | nextStmts =>
    exact ⟨env, names.2, stretch, legal, clear⟩
  | arm => exact ⟨env, names.2.1, stretch, legal, clear⟩
  | nextArms => exact ⟨env, names.2.2, stretch, legal, clear⟩
  | @init _ _ d =>
    obtain ⟨_, _, _, _, _⟩ := d
    exact ⟨env, names.2, stretch, legal, clear⟩
  | block => exact ⟨_, block rfl⟩
  | tail =>
    have opened := block rfl
    exact ⟨⟨q.declared _, 0⟩ :: env, names.2.2, stretch, opened.legal, opened.clear⟩
  | body => exact absurd same (Nat.ne_of_lt (Nat.lt_succ_self _))

theorem start (bound : p.WellBound)
    (within : ∀ e, cut e → e.nodes ⊆ stmtsNodes p.program.stmts) :
    Stands p cut [⟨p.declared p.program.stmts, 0⟩] (.stmts p.program.stmts) := by
  refine openBlock bound bound.opens bound.names
    ⟨List.infix_refl _, fun e isCut => .inl (within e isCut)⟩ trivial fun x seen g overload => ?_
  cases List.mem_singleton.mp seen
  rw [bound.builtin] at overload
  cases overload

end Task.Stands

namespace Plan

variable {q : Plan} {c c' : Config}

theorem Enters.kept (enters : q.Enters c c') : ∀ e, c.task = .expr e → ¬q.Cuts e := by
  rintro e task ⟨m, f, args, rfl, _, known⟩
  cases enters with
  | args kept | body kept =>
    cases task
    rw [kept] at known
    cases known
  | _ => cases task

theorem Cuts.within {e : Expr Mark} (cuts : q.Cuts e) : e.nodes ⊆ stmtsNodes q.program.stmts := by
  obtain ⟨_, _, _, rfl, node, _⟩ := cuts
  exact ((stmts_closed _) _ (Program.mem_stmtsNodes node nofun)).subset

end Plan

namespace Ready

variable {q : Plan} {F : Checker} {P : Table NodeId Purity} {c : Config}

theorem stands (ready : Ready q F P) (reached : q.Reached c) :
    ∃ env, c.task.Stands q.toBoundProgram q.Cuts env := by
  have bound := ready.cert.bound
  induction reached with
  | refl => exact ⟨_, .start bound fun _ cuts => cuts.within⟩
  | @tail c c' before enters ih =>
    obtain ⟨env, stands⟩ := ih
    by_cases same : c'.left = c.left
    · exact stands.inside bound enters same enters.kept
    · cases enters with
      | body _ first own found =>
        obtain ⟨x, target, overload, _⟩ := ready.called (ready.reached before) first own found
        exact stands.called bound target overload
      | _ => exact absurd rfl same

/-- A run does not get into the arguments of a call that has a value. -/
theorem outside (ready : Ready q F P) (reached : q.Reached c) {e : Expr Mark}
    (task : c.task = .expr e) : q.folds.omits q.program.nodes (.expr e) = false := by
  obtain ⟨env, _, stretch, _⟩ := ready.stands reached
  rw [task] at stretch
  have bound := ready.cert.bound
  rw [← Bool.not_eq_true, Table.omits_iff]
  rintro ⟨m, f, args, node, known, k, argument, same⟩
  have closed := Program.closed q.program
  have below : (Expr.call m f args).nodes <:+: q.program.nodes := closed _ node
  have inner : exprsNodes args ⊆ (Expr.call m f args).nodes :=
    List.subset_append_of_subset_left _ (List.subset_cons_self _ _)
  have own : .expr e ∈ q.program.nodes :=
    List.mem_append_left _ (stretch.inside.subset (Expr.mem_nodes e))
  obtain rfl := bound.node_unique (below.subset (inner argument)) own same
  have cuts : q.Cuts (.call m f args) := ⟨m, f, args, rfl, node, known⟩
  -- the call would lie below one of its own arguments
  rcases stretch.whole _ cuts with all | none
  · have again : .expr (.call m f args) ∈ exprsNodes args :=
      (exprs_closed args _ argument).subset (all (Expr.mem_nodes _))
    have distinct : ((Expr.call m f args).nodes).Nodup :=
      below.sublist.nodup bound.distinct.of_map
    exact List.disjoint_of_nodup_append distinct (List.mem_cons_of_mem _ again) List.mem_cons_self
  · exact none (inner argument) (Expr.mem_nodes e)

end Ready

/-! ### Checked drafts -/

/-- Folding a draft that was checked without an error. An inhabitant expression that the run gets to
has the value of its recorded witness, and whatever has a value is an inhabitant expression or a
call. There are as many values as were counted, and the counted calls, folded or retained, are those
with a result type of one value that do not lie in the arguments of a folded call. -/
theorem folding_covers (d : Draft) (o : Options) (q : Checked) (passes : d.Passes o q) :
    ∃ folding checker, q.context.fold.run q.checker = .ok (folding, checker) ∧
      (∀ c m ty, Plan.Reached ⟨q.context, checker, folding.values⟩ c →
        c.task = .expr (.inhabitant m ty) → ∃ w, q.checker.witnesses.find? m.id = some w ∧
          folding.values.find? m.id = some w.value) ∧
      (∀ i v, folding.values.find? i = some v → ∃ n ∈ q.context.program.nodes, n.mark.id = i ∧
        (n.kind = .inhabitant ∨ n.kind = .call)) ∧
      (folding.values.keys.Nodup ∧
        folding.values.size = folding.stats.inhabitants + folding.stats.calls) ∧
      folding.stats.calls + folding.stats.retained = q.context.program.nodes.countP fun n =>
        q.checker.singleCall n && !folding.values.omits q.context.program.nodes n := by
  obtain ⟨context, cert⟩ := passes.certified
  obtain ⟨folding, checker, run, like, tallied⟩ := Context.fold_tallied cert (d.sized o)
  rw [← context] at run tallied
  have plans : q.Plans ⟨q.context, checker, folding.values⟩ := ⟨rfl, folding, run, rfl⟩
  obtain ⟨_, ready⟩ := plans.ready passes
  refine ⟨folding, checker, run, ?_, ?_, ⟨tallied.keys .nil, ?_⟩, ?_⟩
  · intro c m ty reached task
    have fine := (ready.reached reached).typed
    rw [task] at fine
    obtain ⟨inside, _, _, _, w, witness, _⟩ := fine
    exact ⟨w, witness, tallied.found m ty w (inside (Expr.mem_nodes _)) witness
      (ready.outside reached task)⟩
  · intro i v found
    obtain ⟨⟨owner, e⟩, place, same, reason⟩ := ready.folds i v found
    refine ⟨.expr e, Program.node_of_place place, same, ?_⟩
    cases e with
    | inhabitant m ty => exact .inl rfl
    | call m f args => exact .inr rfl
    | _ => exact reason.elim
  · exact tallied.size.trans (Nat.zero_add _)
  · exact tallied.calls.trans (Nat.zero_add _)

/-- A draft with a call that is folded and one that is retained, both with an inhabitant expression
for an argument. -/
def Draft.halfFolded : Draft where
  text := "def one(n: Int): 1 = 1 def two(n: Int): 2 = { println(n) 2 } println(one(inhabitant[3]) + two(inhabitant[4]))"
  stmts :=
    [.fn ⟨[], ⟨[], "one"⟩, [⟨[], ⟨[], "n"⟩, .refer [] ⟨[], "Int"⟩⟩],
        some (.lit [] ⟨[], .int 1⟩ false), .lit ⟨[], .int 1⟩⟩,
      .fn ⟨[], ⟨[], "two"⟩, [⟨[], ⟨[], "n"⟩, .refer [] ⟨[], "Int"⟩⟩],
        some (.lit [] ⟨[], .int 2⟩ false),
        .block [] [.expr [] (.call [] ⟨[], "println"⟩ [.name ⟨[], "n"⟩])]
          (some (.lit ⟨[], .int 2⟩))⟩,
      .expr [] (.call [] ⟨[], "println"⟩ [.bin [] (.arith .add)
        (.call [] ⟨[], "one"⟩ [.inhabitant [] (.lit [] ⟨[], .int 3⟩ false)])
        (.call [] ⟨[], "two"⟩ [.inhabitant [] (.lit [] ⟨[], .int 4⟩ false)])])]

/-- Of its inhabitant expressions, the one in the folded call is passed over. -/
theorem folding_covers_halfFolded : ∃ q folding checker, Draft.halfFolded.Passes default q ∧
    q.context.fold.run q.checker = .ok (folding, checker) ∧ folding.stats = ⟨1, 1, 1⟩ ∧
    folding.values.size = 2 ∧
    (q.context.program.nodes.countP fun n =>
      q.checker.singleCall n && !folding.values.omits q.context.program.nodes n) = 2 := by
  obtain ⟨q, passes, found⟩ : ∃ q, Draft.halfFolded.Passes default q ∧
      ((q.context.fold.run q.checker).toOption.any fun r => r.1.stats = ⟨1, 1, 1⟩) = true :=
    Draft.exists_passes (by decide +kernel)
  obtain ⟨folding, checker, run, _, _, ⟨_, size⟩, calls⟩ :=
    folding_covers .halfFolded default q passes
  have stats : folding.stats = ⟨1, 1, 1⟩ := by
    rw [run] at found
    exact of_decide_eq_true found
  rw [stats] at size calls
  exact ⟨q, folding, checker, passes, run, stats, size, calls.symm⟩

end Solo

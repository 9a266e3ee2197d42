import Solo.Proofs.AddedSymbols
import Solo.Proofs.Endings
import Solo.Proofs.PairedGoals

/-!
# Overloads that do not apply

Functions that serve no call of their names can be added to an accepted draft: expressions keep
their types and calls their signatures. An added function can still change the types of arguments:
where it is the second one with as many parameters as there are arguments, they are no longer
expected to have the types of the first one's parameters. This counts only where an argument ends in
a name whose singleton is expected.
-/

namespace Solo

/-- The symbol that a symbol becomes in a draft with functions added. -/
def Checked.counterpart (q q' : Checked) (ν : NodeId → NodeId) : SymbolId → SymbolId :=
  q.context.counterpart q'.context.toBoundProgram ν

section
variable (q q' : Checked) (ν : NodeId → NodeId)

/-- The signature of a function that was added to the overloads of `x`. -/
def Checked.Adds (x : SymbolId) (sig : Signature) : Prop :=
  ∃ k, .fn k ∈ (q'.context.symbol (q.counterpart q' ν x)).decls ∧ k.mark.id ∉ Set.range ν ∧
    q'.checker.signatures.find? k.mark.id = some sig

/-- An added function does not serve a call: it has other parameters than there are arguments, or
the type of an argument is no subtype of its parameter's type. -/
def Checked.Refuses (args : List (Expr Mark)) (sig : Signature) : Prop :=
  sig.params.length ≠ args.length ∨ ∃ (i : ℕ) (e : Expr Mark) (t p : Ty) (c : Checker),
    args[i]? = some e ∧ q.checker.nodeTypes.find? e.id = some t ∧ sig.params[i]? = some p ∧
      q'.context.resolver.isSubtype (t.move (q.counterpart q' ν)) p q'.checker = .ok (false, c)

/-- Functions with declared results are added to a checked draft, under names that their scopes
declare as functions already. They assign no variable that was assigned nowhere, and none serves a
call of its name. Where one has as many parameters as a call has arguments, these are no names whose
singletons were expected. -/
structure Checked.Gains : Prop where
  injective : ν.Injective
  program : q.context.program.Gains ν q'.context.program
  steady : ∀ x, (q.context.symbol x).role = .var true → ∀ m y e,
    .expr (.assign m y e) ∈ q'.context.program.nodes → m.id ∉ Set.range ν →
      q'.context.symbolAt? y.mark.id ≠ some (q.counterpart q' ν x)
  refused : ∀ m f args x, .expr (.call m f args) ∈ q.context.program.nodes →
    q.context.symbolAt? f.mark.id = some x → ∀ sig, q.Adds q' ν x sig → q.Refuses q' ν args sig
  unswayed : ∀ m f args x, .expr (.call m f args) ∈ q.context.program.nodes →
    q.context.symbolAt? f.mark.id = some x → ∀ sig, q.Adds q' ν x sig →
      sig.params.length = args.length → q.context.Indifferent args
        (Resolver.expectedArgs args.length (q.context.overloads q.checker x))

/-- Expressions have the types and calls the signatures that they had, and errors are reported in
added functions only. -/
structure Checked.Retains : Prop where
  type : ∀ L e, q.context.At L (.expr e) → ∃ t, q.checker.nodeTypes.find? e.id = some t ∧
    q'.checker.nodeTypes.find? (ν e.id) = some (t.move (q.counterpart q' ν))
  call : ∀ L m f args x, q.context.At L (.expr (.call m f args)) →
    q.context.symbolAt? f.mark.id = some x → (q.context.symbol x).role = .function →
      ∃ sig sig', q.checker.signatures.find? m.id = some sig ∧
        q'.checker.signatures.find? (ν m.id) = some sig' ∧ sig.Moves ν (q.counterpart q' ν) sig'
  reported : ∀ k ∈ q'.allDiagnostics, k.isError = true → ∃ n ∈ q'.context.program.nodes,
    n.mark.id ∉ Set.range ν ∧ n.mark.span = k.span

/-- Something of the first draft is reported to need itself. -/
def Checked.Circles (q' : Checked) (ν : NodeId → NodeId) : Prop :=
  ∃ k ∈ q'.diagnostics, k.problem.isCircle = true ∧ ∃ n ∈ q'.context.program.nodes,
    n.mark.id ∈ Set.range ν ∧ k.span = n.mark.span

end

/-- What the check of a draft with functions added ends with retains what there was, unless something
of the first draft is found to need itself now. -/
theorem Checked.Gains.retains {d d' : Draft} {o : Options} {ν : NodeId → NodeId} {q q' : Checked}
    (gains : q.Gains q' ν) (passes : d.Passes o q) (checked : (d'.context o).checked = .ok q') :
    q'.Circles ν ∨ q.Retains q' ν := by
  obtain ⟨F, gs, tables, recalled⟩ := passes.recalled
  obtain ⟨F', run, rfl⟩ := Context.checked_ok checked
  obtain ⟨same, _⟩ := passes.certified
  obtain ⟨cx, checker, diagnostics⟩ := q
  cases same
  cases tables
  refine or_iff_not_imp_left.mpr fun calm => ?_
  have sources :
      Source.Gains ν (Source.anchor 0 d.text d.stmts) (Source.anchor 0 d'.text d'.stmts) := {
    program := gains.program
    injective := gains.injective
    nested := d.wellNested o
    nested' := d'.wellNested o
    clean := fun e member => passes.quiet e (List.mem_append_left _ member)
    steady := gains.steady }
  have ground' := d'.grounded o
  have striding : (d'.context o).Striding (d'.context o).check := by
    rw [Context.check, Context.resolver, Resolver.ofDepth_eq]
    exact ((Context.Steadfast.oracle ground' _).located ground').checkStmts ground'
      (List.Subset.refl _) (fun _ _ => trivial) _ (List.subset_append_left _ _)
  obtain ⟨upright, strides⟩ := striding _ (.start (d'.context o) (d'.context o).names) () F' run
  let g : Graft := {
    cx := d.context o
    F
    gs
    cx' := d'.context o
    F'
    ν
    ρ := (d.context o).counterpart (d'.context o).toBoundProgram ν
    recalled
    ground := d'.grounded o
    upright
    idle := List.forall₂_nil_left_iff.mp strides.marks
    injective := gains.injective
    apart := sources.counterpart_injective
    options := rfl
    program := gains.program
    size := sources.size
    unresolved := Source.Gains.counterpart_unresolved
    targets := sources.targets
    role := sources.role
    decls := sources.decls
    plain := fun x => sources.plain
    inner := fun y other d member => sources.inner other member
    refused := fun L m f args x place target k sig member new known arity => by
      refine ⟨?_, gains.unswayed m f args x place.node target sig ⟨k, member, new, known⟩ arity⟩
      obtain ⟨i, e, t, p, c, argument, type, param, below⟩ := (gains.refused m f args x place.node
        target sig ⟨k, member, new, known⟩).resolve_left fun other => other arity
      obtain ⟨follows, compares⟩ := upright.compares ground' below
      exact ⟨i, e, t, p, c, argument, type, param, follows, compares⟩
    calm := fun n node old k member same => by
      by_contra circle
      exact calm ⟨k, Array.mem_toList_iff.mpr member, (Bool.not_eq_false _).mp circle, n,
        node, old, same⟩ }
  obtain ⟨agrees, kept⟩ := g.adopted run
  exact {
    type := fun L e place => by
      obtain ⟨t, found⟩ := recalled.noted L e place
      exact ⟨t, found, (kept [] L e place).type t found⟩
    call := fun L m f args x place target role =>
      (kept [] L _ place).call m f args x rfl target role
    reported := fun k member error => by
      rcases List.mem_append.mp member with bound | told
      · exact sources.reported bound
      · obtain ⟨m, ⟨new, n, node, rfl⟩, same⟩ := agrees.told k (Array.mem_toList_iff.mp told) error
        exact ⟨n, node, new, same⟩ }

/-- The check of a draft ends, unless a circle of bindings is found on the way. If this draft is an
accepted one with functions added that serve no call of their names, expressions have the types and
calls the signatures that they had, and no error is reported of them. Drafts are excepted in which
something of the first one needs itself now. -/
theorem Draft.inapplicable_overload (d d' : Draft) (o : Options) (ν : NodeId → NodeId) (q : Checked)
    (passes : d.Passes o q) :
    let cx := d'.context o
    ((∃ q', cx.checked = .ok q') ∨
      ∃ n p s a s', cx.Occurs [] [] n p s ∧ cx.oracle n p s = .ok (a, s') ∧ s'.Circular) ∧
    ∀ q', cx.checked = .ok q' → q.Gains q' ν → q'.Circles ν ∨ q.Retains q' ν := by
  intro cx
  refine ⟨?_, fun q' checked gains => gains.retains passes checked⟩
  rcases d'.visit_ends o with ⟨_, F', visited⟩ | circle
  · rw [← Context.check_eq] at visited
    exact .inl ⟨_, Context.checked_of_check visited⟩
  · exact .inr circle

/-- A draft that calls a function of an integer. -/
def Draft.lone : Draft where
  text := "def f(n: Int): Int = 1 f(7)"
  stmts :=
    [.fn ⟨[], ⟨[], "f"⟩, [⟨[], ⟨[], "n"⟩, .refer [] ⟨[], "Int"⟩⟩], some (.refer [] ⟨[], "Int"⟩),
        .lit ⟨[], .int 1⟩⟩,
      .expr [] (.call [] ⟨[], "f"⟩ [.lit ⟨[], .int 7⟩])]

/-- The same draft with a function of a string. -/
def Draft.joined : Draft where
  text := lone.text ++ " def f(n: String): Int = 2"
  stmts := lone.stmts ++
    [.fn ⟨[], ⟨[], "f"⟩, [⟨[], ⟨[], "n"⟩, .refer [] ⟨[], "String"⟩⟩],
        some (.refer [] ⟨[], "Int"⟩), .lit ⟨[], .int 2⟩⟩]

/-- The numbers that the nodes of the first draft have in the second. -/
def Draft.joinedAt (i : ℕ) : ℕ := if i < 13 then i else i + 9

theorem Draft.joined_call :
    ((lone.context default).checked.toOption.any fun (q : Checked) =>
      (joined.context default).checked.toOption.any fun (q' : Checked) =>
      match q.context.program.stmts, q'.context.program.stmts with
      | [.fn ⟨m, x, [⟨m₁, x₁, .refer m₂ x₂⟩], some (.refer m₃ x₃), .lit l⟩,
            .expr m₄ (.call m₅ f [.lit a])],
          [.fn ⟨n, y, [⟨n₁, y₁, .refer n₂ y₂⟩], some (.refer n₃ y₃), .lit k⟩,
            .expr n₄ (.call n₅ h [.lit b]), .fn g] =>
        decide ([n, y.mark, n₁, y₁.mark, n₂, y₂.mark, n₃, y₃.mark, k.mark, n₄, n₅, h.mark, b.mark,
            q'.context.program.mark].map (·.id) =
          [m, x.mark, m₁, x₁.mark, m₂, x₂.mark, m₃, x₃.mark, l.mark, m₄, m₅, f.mark, a.mark,
            q.context.program.mark].map fun m => joinedAt m.id) &&
        decide ([y, y₁, y₂, y₃, h, g.name].map (·.name) = [x, x₁, x₂, x₃, f, x].map (·.name)) &&
        decide ([k, b].map (·.value) = [l, a].map (·.value)) && g.result.isSome &&
        ((Stmt.fn g).nodes.all fun n => decide (13 ≤ n.mark.id ∧ n.mark.id < 22)) &&
        (q'.context.program.nodes.all fun n => n.assignee?.isNone) && !q.hasErrors &&
        !q'.hasErrors && decide (q.context.symbolAt? f.mark.id = some 2) &&
        decide ((q.context.symbol 2).role = .function) && decide (q.counterpart q' joinedAt 2 = 2) &&
        q.checker.nodeTypes.find? a.mark.id == some (.literal (.int 7)) &&
        match (q'.context.symbol 2).decls with
        | [.fn i, .fn j] =>
          decide (i.mark.id < 13) &&
          ((q'.checker.signatures.find? j.mark.id).all fun sig => sig.params == [.intrinsic .string]) &&
          match q'.context.resolver.isSubtype (.literal (.int 7)) (.intrinsic .string) q'.checker with
          | .ok (false, _) => true
          | _ => false
        | _ => false
      | _, _ => false) = true := by
  decide +kernel

theorem Draft.joinedAt_injective : joinedAt.Injective := by
  intro i j same
  rw [joinedAt, joinedAt] at same
  split at same <;> split at same <;> omega

theorem Draft.joinedAt_range {i : ℕ} (low : 13 ≤ i) (high : i < 22) :
    i ∉ Set.range joinedAt := by
  rintro ⟨j, same⟩
  rw [joinedAt] at same
  split at same <;> omega

/-- The added function of a string serves the only call of `f` not. -/
theorem Draft.joined_gains : ∃ q q' m s f e, lone.Passes default q ∧
    joined.Passes default q' ∧ q.Gains q' joinedAt ∧
    q.context.program.stmts[1]? = some (.expr s (.call m f [e])) ∧
    q.context.symbolAt? f.mark.id = some 2 ∧ (q.context.symbol 2).role = .function ∧
    q.checker.nodeTypes.find? e.id = some (.literal (.int 7)) := by
  have served := joined_call
  cases checked : (lone.context default).checked with
  | error e =>
    rw [checked] at served
    cases served
  | ok q =>
  cases checked' : (joined.context default).checked with
  | error e =>
    rw [checked, checked'] at served
    cases served
  | ok q' =>
  simp only [checked, checked', Except.toOption, Option.any_some] at served
  split at served
  next m x m₁ x₁ m₂ x₂ m₃ x₃ l m₄ m₅ f a n y n₁ y₁ n₂ y₂ n₃ y₃ k n₄ n₅ h b g stmts stmts' =>
    split at served
    next i j decls =>
      simp only [Bool.and_eq_true, Bool.not_eq_true', beq_iff_eq, List.all_eq_true,
        decide_eq_true_eq, List.map_cons, List.map_nil, List.cons.injEq, and_true] at served
      obtain ⟨⟨⟨⟨⟨⟨⟨⟨⟨⟨⟨⟨ids, names⟩, values⟩, annotated⟩, fresh⟩, plain⟩, clean⟩, clean'⟩, target⟩,
        role⟩, same⟩, type⟩, ⟨old, string⟩, served⟩ := served
      split at served
      next c below =>
        obtain ⟨i₀, i₁, i₂, i₃, i₄, i₅, i₆, i₇, i₈, i₉, i₁₀, i₁₁, i₁₂, i₁₃⟩ := ids
        obtain ⟨s₁, s₂, s₃, s₄, s₅, s₆⟩ := names
        have only : ∀ m' f' args x', .expr (.call m' f' args) ∈ q.context.program.nodes →
            q.context.symbolAt? f'.mark.id = some x' → args = [.lit a] ∧ x' = 2 := by
          intro m' f' args x' member symbol
          simp only [Program.nodes, stmts, stmtsNodes, Stmt.nodes, paramsNodes, Param.nodes,
            TyNode.nodes, tyNodes?, Expr.nodes, exprsNodes, List.append_nil, List.nil_append,
            List.cons_append, List.mem_cons, List.not_mem_nil, reduceCtorEq, Node.expr.injEq,
            Expr.call.injEq, false_or, or_false] at member
          obtain ⟨rfl, rfl, rfl⟩ := member
          exact ⟨rfl, Option.some.inj (symbol.symm.trans target)⟩
        have added : ∀ sig, q.Adds q' joinedAt 2 sig → sig.params = [.intrinsic .string] := by
          rintro sig ⟨fn, member, new, known⟩
          rw [same, decls] at member
          rcases List.mem_cons.mp member with first | second
          · cases first
            exact absurd ⟨_, if_pos old⟩ new
          · cases List.mem_singleton.mp second
            rw [known] at string
            exact beq_iff_eq.mp string
        refine ⟨q, q', m₅, m₄, f, .lit a, ⟨checked, clean⟩, ⟨checked', clean'⟩, {
          injective := joinedAt_injective
          program := ?_
          steady := fun x _ m y e assign => by cases plain _ assign
          refused := ?_
          unswayed := ?_ }, ?_, target, role, type⟩
        · have none {S : List String} : ∀ s ∈ ([] : List (Stmt Mark)), s.Added joinedAt S :=
            fun s member => absurd member List.not_mem_nil
          rw [Program.Gains, stmts, stmts']
          refine ⟨i₁₃, [], _, _, rfl, none, ⟨_, _, _, _, _, rfl, i₀, ⟨i₁, s₁⟩,
            ⟨_, _, _, _, rfl, i₂, ⟨i₃, s₂⟩, ⟨_, _, rfl, i₄, i₅, s₃⟩, rfl⟩,
            ⟨_, rfl, _, _, rfl, i₆, i₇, s₄⟩, _, rfl, i₈, values.1⟩, [], _, _, rfl, none,
            ⟨_, _, rfl, i₉, _, _, _, rfl, i₁₀, ⟨i₁₁, s₅⟩, _, _, rfl, ⟨_, rfl, i₁₂, values.2⟩, rfl⟩,
            fun s member => ?_⟩
          cases List.mem_singleton.mp member
          exact ⟨g, rfl, annotated, List.mem_singleton.mpr s₆, fun n member =>
            joinedAt_range (fresh n member).1 (fresh n member).2⟩
        · intro m' f' args x' member symbol sig adds
          obtain ⟨rfl, rfl⟩ := only m' f' args x' member symbol
          exact .inr ⟨0, .lit a, .literal (.int 7), .intrinsic .string, c, rfl, type,
            by rw [added sig adds]; rfl, below⟩
        · intro m' f' args x' member symbol sig adds _
          obtain ⟨rfl, rfl⟩ := only m' f' args x' member symbol
          rintro (_ | i) e t argument _ ⟨x, ends, _⟩
          · cases argument
            cases ends
          · cases argument
        · rw [stmts]
          rfl
      · cases served
    · rw [Bool.and_false] at served
      cases served
  · cases served

/-- `f(7)` stays with the function of an integer when one of a string is added. -/
theorem Draft.inapplicable_overload_string : ∃ q q' s m f e sig sig',
    lone.Passes default q ∧ joined.Passes default q' ∧ q.Gains q' joinedAt ∧
    q.context.program.stmts[1]? = some (.expr s (.call m f [e])) ∧
    q'.checker.nodeTypes.find? (joinedAt e.id) = some (.literal (.int 7)) ∧
    q.checker.signatures.find? m.id = some sig ∧
    q'.checker.signatures.find? (joinedAt m.id) = some sig' ∧
    sig.Moves joinedAt (q.counterpart q' joinedAt) sig' := by
  obtain ⟨q, q', m, s, f, e, passes, passes', gains, second, target, role, type⟩ := joined_gains
  have stmt : .stmt (.expr s (.call m f [e])) ∈ (Node.program q.context.program).parts :=
    List.mem_map_of_mem (List.mem_of_getElem? second)
  have call : q.context.At _ (.expr (.call m f [e])) := .down stmt (.down List.mem_cons_self .here)
  have argument : q.context.At _ (.expr e) :=
    .down stmt (.down List.mem_cons_self (.down List.mem_cons_self .here))
  rcases (inapplicable_overload lone joined default joinedAt q passes).2 q' passes'.checked gains
    with ⟨k, reported, circle, _⟩ | retains
  · have error := passes'.quiet k (List.mem_append_right _ reported)
    rw [Diagnostic.isError, k.problem.severity_eq_error circle] at error
    cases error
  · obtain ⟨t, known, kept⟩ := retains.type _ e argument
    cases type.symm.trans known
    obtain ⟨sig, sig', signed, signed', moves⟩ := retains.call _ m f [e] 2 call target role
    exact ⟨q, q', s, m, f, e, sig, sig', passes, passes', gains, second, kept, signed, signed',
      moves⟩

/-- A draft with a function of the singleton of `x`, called with `x`. -/
def Draft.named : Draft where
  text := "val x: Int = 1 def f(p: x.type): Int = 1 f(x)"
  stmts :=
    [.val ⟨[], .val, ⟨[], "x"⟩, some (.refer [] ⟨[], "Int"⟩), .lit ⟨[], .int 1⟩⟩,
      .fn ⟨[], ⟨[], "f"⟩, [⟨[], ⟨[], "p"⟩, .singleton [] (.name ⟨[], "x"⟩)⟩],
        some (.refer [] ⟨[], "Int"⟩), .lit ⟨[], .int 1⟩⟩,
      .expr [] (.call [] ⟨[], "f"⟩ [.name ⟨[], "x"⟩])]

def Draft.overnamed : Draft where
  text := named.text ++ " def f(p: String): Int = 2"
  stmts := named.stmts ++
    [.fn ⟨[], ⟨[], "f"⟩, [⟨[], ⟨[], "p"⟩, .refer [] ⟨[], "String"⟩⟩],
        some (.refer [] ⟨[], "Int"⟩), .lit ⟨[], .int 2⟩⟩]

/-- Checked with and without the overload of a string, `f(x)` is resolved only without it. -/
theorem Draft.named_call :
    ((named.context default).checked.toOption.any fun (q : Checked) =>
      (overnamed.context default).checked.toOption.any fun (q' : Checked) =>
      match q.context.program.stmts.drop 2, q'.context.program.stmts.drop 2 with
      | .expr s (.call m f [.name x]) :: _, .expr s' (.call m' f' [.name x']) :: _ =>
        decide (s = s') && decide (m = m') &&
        decide (f.mark = f'.mark ∧ f.name = f'.name) &&
        decide (x.mark = x'.mark ∧ x.name = x'.name) &&
        match q.context.resolver.isSubtype (.path 2) (.intrinsic .string) q.checker with
        | .ok (false, _) =>
          !q.hasErrors && q.checker.nodeTypes.find? x.mark.id == some (.path 2) &&
          q.checker.signatures.contains m.id &&
          q'.checker.nodeTypes.find? x.mark.id == some (.intrinsic .int) &&
          !q'.checker.signatures.contains m.id &&
          q'.diagnostics.any fun d => decide (d.span = m.span) && d.isError
        | _ => false
      | _, _ => false) = true := by
  decide +kernel

/-- The overload of a string changes what is expected of `x`, so that its type is no longer its
singleton and no overload accepts it. -/
theorem Draft.inapplicable_overload_counts : ∃ q q' s m f x p,
    named.Passes default q ∧ (overnamed.context default).checked = .ok q' ∧
    q.context.program.stmts[2]? = some (.expr s (.call m f [.name x])) ∧
    q'.context.program.stmts[2]? = some (.expr s (.call m f [.name x])) ∧
    q.checker.nodeTypes.find? x.mark.id = some (.path p) ∧
    (∃ c, q.context.resolver.isSubtype (.path p) (.intrinsic .string) q.checker = .ok (false, c)) ∧
    q.checker.signatures.contains m.id = true ∧
    q'.checker.nodeTypes.find? x.mark.id = some (.intrinsic .int) ∧
    q'.checker.signatures.contains m.id = false ∧
    ∃ d ∈ q'.diagnostics, d.span = m.span ∧ d.isError = true := by
  have served := named_call
  cases checked : (named.context default).checked with
  | error e =>
    rw [checked] at served
    cases served
  | ok q =>
  cases checked' : (overnamed.context default).checked with
  | error e =>
    rw [checked, checked'] at served
    cases served
  | ok q' =>
  simp only [checked, checked', Except.toOption, Option.any_some] at served
  split at served
  next s m f x after s' m' f' x' after' place place' =>
    simp only [Bool.and_eq_true, decide_eq_true_eq] at served
    obtain ⟨⟨⟨⟨rfl, rfl⟩, called⟩, named⟩, served⟩ := served
    obtain ⟨⟩ := f
    obtain ⟨⟩ := x
    obtain ⟨rfl, rfl⟩ := called
    obtain ⟨rfl, rfl⟩ := named
    have third : ∀ {stmts after : List (Stmt Mark)} {a}, stmts.drop 2 = a :: after →
        stmts[2]? = some a := fun same => by
      rw [← List.head?_drop, same, List.head?_cons]
    split at served
    next c below =>
      simp only [Bool.and_eq_true, Bool.not_eq_true', beq_iff_eq, List.any_eq_true,
        decide_eq_true_eq] at served
      obtain ⟨⟨⟨⟨⟨clean, path⟩, resolved⟩, int⟩, unresolved⟩, d, reported, here, bad⟩ := served
      exact ⟨q, q', s, m, f', x', 2, ⟨checked, clean⟩, rfl, third place, third place', path,
        ⟨c, below⟩, resolved, int, unresolved, d, reported, here, bad⟩
    · cases served
  · cases served

end Solo

import Solo.Compilation
import Solo.Proofs.Declarations
import Solo.Proofs.Layout

/-!
# Checked programs

What is known of a program once it is checked without an error: every statement of it is typed, and
every binding has a type.
-/

namespace Solo

/-! ### Statements inside typed trees -/

section
variable (p : BoundProgram) (c : Checker)

/-- A statement or a pattern that is typed, a type node that stands for something, or a parameter
that has a type. -/
def Node.Settled : Node Mark → Prop
  | .stmt s => s.Typed p c
  | .pat q => q.Typed p c
  | .ty node => ∃ t, Denotes p node t
  | .param q => ∃ t, ParamTyped p c q t
  | _ => True

def Covered (ns : List (Node Mark)) : Prop := ∀ n ∈ ns, n.Settled p c

end

section
variable {p : BoundProgram} {c : Checker}

namespace Covered

variable {ns ks : List (Node Mark)}

theorem nil : Covered p c [] := nofun

theorem append (first : Covered p c ns) (second : Covered p c ks) : Covered p c (ns ++ ks) := by
  intro n member
  rcases List.mem_append.mp member with left | right
  · exact first n left
  · exact second n right

theorem cons {n : Node Mark} (root : n.Settled p c) (parts : Covered p c ns) :
    Covered p c (n :: ns) := by
  intro k member
  rcases List.mem_cons.mp member with rfl | later
  · exact root
  · exact parts k later

theorem snoc {n : Node Mark} (parts : Covered p c ns) (root : n.Settled p c) :
    Covered p c (ns ++ [n]) :=
  parts.append (cons root nil)

end Covered

/-- There are no statements in a type that stands for something. -/
theorem Denotes.covered {node : TyNode Mark} {t : Ty} (denotes : Denotes p node t) :
    Covered p c node.nodes := by
  induction denotes with
  | kind plain named => exact .cons trivial (.cons ⟨_, .kind plain named⟩ .nil)
  | typeAlias target decl next => exact .cons trivial (.cons ⟨_, .typeAlias target decl next⟩ .nil)
  | literal => exact .cons trivial (.cons ⟨_, .literal⟩ .nil)
  | path target stable => exact .cons trivial (.cons ⟨_, .path target stable⟩ .nil)
  | lit => exact .cons trivial (.cons ⟨_, .lit⟩ .nil)
  | paren inner ih => exact .snoc ih ⟨_, .paren inner⟩

theorem covered_ty? {ty : Option (TyNode Mark)}
    (denotes : ∀ node, ty = some node → ∃ t, Denotes p node t) : Covered p c (tyNodes? ty) := by
  cases ty with
  | none => exact .nil
  | some node =>
    obtain ⟨t, denotes⟩ := denotes node rfl
    exact denotes.covered

theorem covered_params {qs : List (Param Mark)} {ts : List Ty}
    (typed : List.Forall₂ (ParamTyped p c) qs ts) : Covered p c (paramsNodes qs) := by
  induction typed with
  | nil => exact .nil
  | @cons q t qs ts head _ ih =>
    obtain ⟨m, x, node⟩ := q
    exact .append (.snoc (.cons (n := .ident x) trivial head.1.covered) ⟨t, head⟩) ih

theorem Pat.Typed.covered {q : Pat Mark} (typed : q.Typed p c) : Covered p c q.nodes := by
  cases q with
  | wildcard m => exact .cons trivial .nil
  | lit m l => exact .cons trivial (.cons trivial .nil)
  | typed m node =>
    have ⟨t, _, denotes⟩ := typed
    exact .snoc denotes.covered typed

mutual
theorem Expr.Typed.covered : ∀ {e : Expr Mark} {t : Ty}, e.Typed p c t → Covered p c e.nodes
  | .lit _, _, _ => .cons trivial .nil
  | .name _, _, _ => .cons trivial .nil
  | .paren _ _, _, ⟨_, inner⟩ => .snoc inner.covered trivial
  | .unary _ _ _, _, ⟨_, _, _, _, inner, _⟩ => .snoc inner.covered trivial
  | .bin _ _ _ _, _, ⟨_, _, _, _, _, _, left, right, _⟩ =>
    .snoc (left.covered.append right.covered) trivial
  | .call _ f _, _, ⟨_, _, _, _, args, _⟩ =>
    .snoc (.cons (n := .ident f) trivial (exprsCovered args)) trivial
  | .block _ _ _, _, ⟨_, stmts, tail⟩ =>
    .snoc ((stmtsCovered stmts).append (tailCovered tail)) trivial
  | .assign _ x _, _, ⟨_, _, _, _, _, _, _, _, inner, _⟩ =>
    .snoc (.cons (n := .ident x) trivial inner.covered) trivial
  | .cases _ _ _, _, ⟨_, ⟨_, inner⟩, arms⟩ =>
    .snoc (inner.covered.append (armsCovered arms)) trivial
  | .inhabitant _ _, _, ⟨_, denotes, _⟩ => .snoc denotes.covered trivial
  | .host _ _, _, _ => .cons trivial .nil

theorem exprsCovered : ∀ {es : List (Expr Mark)} {ts : List Ty}, exprsTyped p c es ts →
    Covered p c (exprsNodes es)
  | [], _, _ => .nil
  | _ :: _, _, ⟨_, _, _, typed, rest⟩ => typed.covered.append (exprsCovered rest)

theorem tailCovered : ∀ {tail : Option (Expr Mark)} {t : Ty}, tailTyped p c tail t →
    Covered p c (tailNodes tail)
  | none, _, _ => .nil
  | some e, _, typed => Expr.Typed.covered (e := e) typed

theorem armsCovered : ∀ {arms : List (Arm Mark)} {t : Ty}, armsTyped p c arms t →
    Covered p c (armsNodes arms)
  | [], _, _ => .nil
  | ⟨m, q, e⟩ :: _, _, ⟨pat, ⟨_, body, _⟩, rest⟩ =>
    .append (.snoc (n := .arm ⟨m, q, e⟩) (pat.covered.append body.covered) trivial)
      (armsCovered rest)

theorem Stmt.Typed.covered : ∀ {s : Stmt Mark}, s.Typed p c → Covered p c s.nodes
  | .val ⟨m, k, x, ty, e⟩, typed => by
    have ⟨annotated, _, _, _, _, _, inner, _⟩ := typed
    exact .snoc (.append (.cons (n := .ident x) trivial (covered_ty? annotated)) inner.covered) typed
  | .typeAlias ⟨m, x, node⟩, ⟨t, denotes⟩ =>
    .snoc (.cons (n := .ident x) trivial denotes.covered) ⟨t, denotes⟩
  | .fn ⟨m, x, qs, result, e⟩, typed => by
    have ⟨declared, _, _, _, _, params, inner, _⟩ := typed
    exact .snoc (.append (.append (.cons (n := .ident x) trivial (covered_params params))
      (covered_ty? declared)) inner.covered) typed
  | .expr m e, ⟨t, inner⟩ => .snoc inner.covered ⟨t, inner⟩

theorem stmtsCovered : ∀ {ss : List (Stmt Mark)}, stmtsTyped p c ss → Covered p c (stmtsNodes ss)
  | [], _ => .nil
  | _ :: _, ⟨typed, rest⟩ => typed.covered.append (stmtsCovered rest)
end

end

/-! ### The tables that checking leaves -/

/-- A program and the tables that an error-free check of it leaves. -/
structure Certified (p : BoundProgram) (c : Checker) : Prop where
  bound : p.WellBound
  sound : Sound p c c
  stmts : stmtsTyped p c p.program.stmts
  pursuits : c.pursuits = []
  diagnostics : c.diagnostics = #[]
  purities : c.purities = .empty
  evaluating : c.evaluating = []

namespace Certified

variable {p : BoundProgram} {c : Checker}

theorem settled (cert : Certified p c) {n : Node Mark} (node : n ∈ p.program.nodes) :
    n.Settled p c :=
  Covered.snoc (stmtsCovered cert.stmts) (n := .program p.program) trivial n node

theorem stmt (cert : Certified p c) {s : Stmt Mark} (node : .stmt s ∈ p.program.nodes) :
    s.Typed p c :=
  cert.settled node

/-- The function that a statement declares, with its signature. -/
theorem fn (cert : Certified p c) {d : FnDecl Mark} (node : .stmt (.fn d) ∈ p.program.nodes) :
    ∃ sig s, c.signatures.find? d.mark.id = some sig ∧ sig.decl = d ∧
      List.Forall₂ (ParamTyped p c) d.params sig.params ∧ d.body.Typed p c s ∧
      Below p c s sig.result := by
  obtain ⟨m, x, qs, result, e⟩ := d
  obtain ⟨_, sig, s, found⟩ := cert.stmt node
  exact ⟨sig, s, found⟩

/-- Every binding has a type, which agrees with its declaration. -/
theorem binding (cert : Certified p c) {x : SymbolId}
    (binding : (p.symbol x).role.isBinding = true) :
    ∃ t, c.symbolTypes.find? x = some t ∧ Declared p c x t := by
  obtain ⟨d, only, declares, node⟩ := cert.bound.binding_decl binding
  have known : ∃ t, c.symbolTypes.find? x = some t := by
    cases d with
    | param q =>
      obtain ⟨t, _, x', target, known⟩ := cert.settled node
      cases declares.target.symm.trans target
      exact ⟨t, known⟩
    | val d =>
      obtain ⟨m, k, name, ty, e⟩ := d
      obtain ⟨_, x', t, _, target, known, _⟩ := cert.stmt node
      cases declares.target.symm.trans target
      exact ⟨t, known⟩
    | _ =>
      rw [← Role.isBinding_thaw, declares.role] at binding
      cases binding
  obtain ⟨t, known⟩ := known
  exact ⟨t, known, cert.sound.symbolTypes x t known⟩

/-- The initializer of a binding has values of the binding's type only. -/
theorem init (cert : Certified p c) {x : SymbolId} {d : ValDecl Mark}
    (binding : (p.symbol x).role.isBinding = true)
    (decl : (p.symbol x).decls.head? = some (.val d)) :
    ∃ t s, c.symbolTypes.find? x = some t ∧ d.init.Typed p c s ∧ Below p c s t := by
  obtain ⟨d', only, declares, node⟩ := cert.bound.binding_decl binding
  rw [only] at decl
  cases decl
  obtain ⟨m, k, name, ty, e⟩ := d
  obtain ⟨_, x', t, s, target, known, typed, below⟩ := cert.stmt node
  cases declares.target.symm.trans target
  exact ⟨t, s, known, typed, below⟩

end Certified

theorem Sound.start {p : BoundProgram} {F : Checker} (names : Roster String) :
    Sound p F (.start names) where
  once := .nil
  unsettled := nofun
  inferring := nofun
  symbolTypes := nofun
  aliasTargets := nofun
  signatures := nofun
  calls := nofun
  exprs := nofun
  types := nofun
  subtypes := nofun

theorem Except.bind_ok {ε α β : Type} {a : Except ε α} {f : α → Except ε β} {y : β}
    (run : (a >>= f) = .ok y) : ∃ x, a = .ok x ∧ f x = .ok y := by
  cases a with
  | error e => cases run
  | ok x => exact ⟨x, rfl, run⟩

theorem Except.eq_ok_of_toOption {ε α : Type} {a : Except ε α} {x : α}
    (found : a.toOption = some x) : a = .ok x := by
  cases a with
  | error e => cases found
  | ok y => exact congrArg Except.ok (Option.some.inj found)

/-- A check ends with its tables and with what it reported. -/
theorem Context.checked_ok {cx : Context} {q : Checked} (run : cx.checked = .ok q) :
    ∃ F, cx.check (.start cx.names) = .ok ((), F) ∧
      q = ⟨cx, { F with diagnostics := #[] }, F.diagnostics.toList⟩ := by
  obtain ⟨⟨diagnostics, c⟩, checked, run⟩ := Except.bind_ok run
  cases run
  obtain ⟨_, F, check, taken⟩ := Check.bind_ok checked
  obtain ⟨s, c₂, read, taken⟩ := Check.bind_ok taken
  cases read
  cases taken
  exact ⟨F, check, rfl⟩

theorem Context.checked_of_check {cx : Context} {F : Checker}
    (run : cx.check (.start cx.names) = .ok ((), F)) :
    cx.checked = .ok ⟨cx, { F with diagnostics := #[] }, F.diagnostics.toList⟩ := by
  have taken : (do cx.check; Check.takeDiagnostics) (.start cx.names) =
      .ok (F.diagnostics.toList, { F with diagnostics := #[] }) := by
    change (cx.check (.start cx.names)).bind _ = _
    rw [run]
    rfl
  rw [Context.checked, StateT.run, taken]
  rfl

theorem Context.checked_certified {cx : Context} (bound : cx.WellBound) {q : Checked}
    (run : cx.checked = .ok q) (clean : ∀ d ∈ q.diagnostics, d.isError = false) :
    q.context = cx ∧ Certified cx.toBoundProgram q.checker := by
  obtain ⟨c₁, check, rfl⟩ := Context.checked_ok run
  refine ⟨rfl, ?_⟩
  have answers := Answers.ofDepth bound { c₁ with diagnostics := #[] } cx.questionBound
  have same := Resolver.toContext_ofDepth cx cx.questionBound
  have keeps := answers.checkStmts (by rw [same]; exact bound) cx.program.stmts (P := True)
    fun _ => by rw [same]; exact List.subset_append_left _ _
  rw [same] at keeps
  obtain ⟨grows, keeps⟩ := keeps _ _ _ check
  have pursuits : c₁.pursuits = [] := List.forall₂_nil_left_iff.mp grows.pursuits
  have quiet : c₁.Quiet :=
    ⟨fun d member => clean d (Array.mem_toList_iff.mpr member), by simp [pursuits]⟩
  have within := Checker.Grows.refl c₁
  obtain ⟨sound, typed⟩ := keeps trivial quiet { within with } (.start _)
  exact ⟨bound, { sound with }, typed, pursuits, rfl, grows.purities, grows.evaluating⟩

/-- A draft that is checked without an error. -/
structure Draft.Passes (d : Draft) (o : Options) (q : Checked) : Prop where
  checked : (d.context o).checked = .ok q
  clean : q.hasErrors = false

namespace Draft.Passes

variable {d : Draft} {o : Options} {q : Checked}

theorem quiet (passes : d.Passes o q) : ∀ e ∈ q.allDiagnostics, e.isError = false := by
  have none := passes.clean
  rw [Checked.hasErrors, List.any_eq_false] at none
  exact fun e member => (Bool.not_eq_true _).mp (none e member)

theorem certified (passes : d.Passes o q) :
    q.context = d.context o ∧ Certified (d.context o).toBoundProgram q.checker := by
  have same : q.context = d.context o := by
    obtain ⟨_, _, rfl⟩ := Context.checked_ok passes.checked
    rfl
  have clean : ∀ e ∈ (d.context o).diagnostics ++ q.diagnostics, e.isError = false := by
    have quiet := passes.quiet
    rwa [Checked.allDiagnostics, same] at quiet
  refine Context.checked_certified ?_ passes.checked
    fun e member => clean e (List.mem_append_right _ member)
  exact Source.bind_wellBound _ (Source.anchor_nodup 0 d.text d.stmts)
    fun e member => clean e (List.mem_append_left _ member)

end Draft.Passes

/-- Whether a draft passes is found out by checking it. -/
theorem Draft.exists_passes {d : Draft} {o : Options} {test : Checked → Bool}
    (accepted : ((d.context o).checked.toOption.any fun q => !q.hasErrors && test q) = true) :
    ∃ q, d.Passes o q ∧ test q = true := by
  obtain ⟨q, found, holds⟩ := (Option.any_eq_true _ _).mp accepted
  rw [Bool.and_eq_true, Bool.not_eq_true'] at holds
  exact ⟨q, ⟨Except.eq_ok_of_toOption found, holds.1⟩, holds.2⟩

theorem Draft.sized (d : Draft) (o : Options) :
    (d.context o).program.nodes.length ≤ (d.context o).nodeCount := by
  obtain ⟨b, laid, last⟩ := Source.anchor_laid 0 d.text d.stmts
  have count : b.count = 0 + _ := laid.count
  have last : (d.context o).program.mark.id = b.count := last
  rw [BoundProgram.nodeCount, last, count, Nat.zero_add, Program.nodes, List.length_append]
  exact Nat.le_refl _

end Solo

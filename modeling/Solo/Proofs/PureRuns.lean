import Solo.Proofs.Operands
import Solo.Proofs.Stages

/-!
# Runs of pure expressions

What a verdict of purity is worth. A pure evaluation prints nothing and changes nothing but the
bindings that it declares itself. It has a value, unless it goes too many calls deep or stumbles on
one of two things that the verdict leaves out: a pattern that asks for a binding without a value, or
a null string that is joined to what is no string.
-/

namespace Solo

section
variable (p : Plan)

/-- A failure that no verdict of purity excludes. -/
inductive Plan.Stumbles : Config → EvalError → Prop
  | unset {n : Nat} {s : Machine} {v : Literal} {m a : Mark} {ty : TyNode Mark} {e : Expr Mark}
      {arms : List (Arm Mark)} {x : SymbolId}
      (asks : p.checker.nodeTypes.find? a.id = some (.path x))
      (missing : lookFrames x s.frames = none) :
    Stumbles ⟨n, .arms v (⟨m, .typed a ty, e⟩ :: arms), s⟩ (.uninitialized (p.nameOf x))
  | join {c : Config} {a : Operation} (performs : p.Performs c a) (joins : a.JoinsNull) :
    Stumbles c (.invalidOperands "+")

/-- An evaluation that stumbles somewhere inside. -/
def Plan.Trips (c : Config) (err : EvalError) : Prop :=
  ∃ c', Relation.ReflTransGen p.Enters c c' ∧ p.Stumbles c' err

/-- A failure that a pure evaluation may have. -/
def Plan.Loses (c : Config) (err : EvalError) : Prop :=
  (∃ k, err = .callDepthExceeded k) ∨ p.Trips c err

end

namespace Plan

variable {p : Plan} {c c' : Config} {err : EvalError}

theorem Trips.enter (trips : p.Trips c' err) (enters : p.Enters c c') : p.Trips c err := by
  obtain ⟨c'', inside, stumbles⟩ := trips
  exact ⟨c'', .head enters inside, stumbles⟩

theorem Loses.enter (loses : p.Loses c' err) (enters : p.Enters c c') : p.Loses c err :=
  loses.imp id (·.enter enters)

theorem lookup_missing {x : SymbolId} {s : Machine} (missing : lookFrames x s.frames = none) :
    p.lookup x s = (.error (.uninitialized (p.nameOf x)), s) := by
  rw [p.lookup_apply, missing]

theorem Stumbles.fails (stumbles : p.Stumbles c err) : p.failure? c = some err := by
  cases stumbles with
  | @unset n s v m a ty e arms x asks missing =>
    dsimp only [failure?]
    rw [evalArms]
    refine Eval.failure?_first ?_
    rw [matchesPat, asks]
    exact Eval.failure?_first (Eval.failure?_of_run (lookup_missing missing))
  | join performs joins =>
    rw [← joins.symbol]
    exact (performs.raises joins.result).fails

theorem Trips.fails (trips : p.Trips c err) : p.failure? c = some err := by
  obtain ⟨c', inside, stumbles⟩ := trips
  induction inside using Relation.ReflTransGen.head_induction_on with
  | refl => exact stumbles.fails
  | head enters _ ih => exact enters.fails ih

end Plan

/-! ### Tidy evaluations -/

/-- Only the innermost frame changes, and only at values that `ns` declares. -/
inductive Touches (p : BoundProgram) (ns : List (Node Mark)) : List Frame → List Frame → Prop
  | nil : Touches p ns [] []
  | cons {f f' : Frame} {outer : List Frame}
      (own : ∀ x, f'.find? x = f.find? x ∨
        ∃ v, (p.symbol x).decls.head? = some (.val v) ∧ .stmt (.val v) ∈ ns) :
    Touches p ns (f :: outer) (f' :: outer)

namespace Touches

variable {p : BoundProgram} {ns ks : List (Node Mark)} {frames frames' frames'' : List Frame}

theorem refl (frames : List Frame) : Touches p ns frames frames := by
  cases frames with
  | nil => exact .nil
  | cons f outer => exact .cons fun _ => .inl rfl

theorem trans (first : Touches p ns frames frames') (second : Touches p ns frames' frames'') :
    Touches p ns frames frames'' := by
  cases first with
  | nil => exact second
  | cons own =>
    cases second with
    | cons own' =>
      refine .cons fun x => ?_
      rcases own' x with same | declared
      · rw [same]
        exact own x
      · exact .inr declared

theorem mono (touches : Touches p ns frames frames') (part : ns ⊆ ks) :
    Touches p ks frames frames' := by
  cases touches with
  | nil => exact .nil
  | cons own =>
    refine .cons fun x => (own x).imp id ?_
    rintro ⟨v, head, member⟩
    exact ⟨v, head, part member⟩

theorem tail (touches : Touches p ns frames frames') : frames'.tail = frames.tail := by
  cases touches <;> rfl

end Touches

/-- What a pure evaluation does to a state. -/
structure Tidies (p : BoundProgram) (ns : List (Node Mark)) (s s' : Machine) : Prop where
  printed : s'.printed = s.printed
  frames : Touches p ns s.frames s'.frames

/-- An evaluation that tidies or fails as `lost` allows. -/
def Eval.Tidy {α : Type} (p : BoundProgram) (ns : List (Node Mark)) (lost : EvalError → Prop)
    (a : Eval α) (s : Machine) : Prop :=
  match a s with
  | (.ok _, s') => Tidies p ns s s'
  | (.error e, _) => lost e

namespace Eval.Tidy

variable {p : BoundProgram} {ns ks : List (Node Mark)} {lost lost' : EvalError → Prop} {α β : Type}
  {a : Eval α} {s s' : Machine}

theorem ok {x : α} (run : a s = (.ok x, s')) (tidies : Tidies p ns s s') : a.Tidy p ns lost s := by
  rw [Tidy, run]
  exact tidies

theorem error {e : EvalError} (run : a s = (.error e, s')) (holds : lost e) :
    a.Tidy p ns lost s := by
  rw [Tidy, run]
  exact holds

theorem pure (x : α) (s : Machine) : Eval.Tidy p ns lost (Pure.pure x) s := ok rfl ⟨rfl, .refl _⟩

theorem part (tidy : a.Tidy p ks lost' s) (inside : ks ⊆ ns) (gives : ∀ e, lost' e → lost e) :
    a.Tidy p ns lost s := by
  unfold Tidy at tidy ⊢
  split at tidy
  · exact ⟨tidy.printed, tidy.frames.mono inside⟩
  · exact gives _ tidy

theorem bind {f : α → Eval β} (first : a.Tidy p ns lost s)
    (rest : ∀ x s', a s = (.ok x, s') → (f x).Tidy p ns lost s') : (a >>= f).Tidy p ns lost s := by
  cases run : a s with
  | mk r s₁ =>
    rw [Tidy, run] at first
    cases r with
    | error e => exact error (Eval.bind_error run) first
    | ok x =>
      have second := rest x s₁ run
      rw [Tidy] at second ⊢
      rw [Eval.bind_ok run]
      split at second
      · exact ⟨second.printed.trans first.printed, first.frames.trans second.frames⟩
      · exact second

theorem inFrame {action : Eval Literal} {frame : Frame}
    (tidy : action.Tidy p ns lost { s with frames := frame :: s.frames }) :
    (Eval.inFrame frame action).Tidy p ks lost s := by
  cases run : action { s with frames := frame :: s.frames } with
  | mk r s₁ =>
    have whole : Eval.inFrame frame action s = (r, { s₁ with frames := s₁.frames.tail }) := by
      rw [Eval.inFrame, run]
    rw [Tidy, run] at tidy
    cases r with
    | error e => exact error whole tidy
    | ok v =>
      refine ok whole ⟨tidy.printed, ?_⟩
      rw [tidy.frames.tail]
      exact .refl _

theorem declare {x : SymbolId} {v : Literal} {d : ValDecl Mark}
    (head : (p.symbol x).decls.head? = some (.val d)) (member : .stmt (.val d) ∈ ns) :
    (Eval.declare x v).Tidy p ns lost s := by
  obtain ⟨frames, printed, names⟩ := s
  cases frames with
  | nil => exact ok (x := ()) rfl ⟨rfl, .nil⟩
  | cons f outer =>
    refine ok (x := ()) rfl ⟨rfl, .cons fun y => ?_⟩
    by_cases same : y = x
    · subst same
      exact .inr ⟨d, head, member⟩
    · exact .inl (Table.find?_insert_other _ _ same)

theorem unlessFolded {q : Plan} {node : NodeId} {find : Eval Literal}
    (kept : q.folds.find? node = none → find.Tidy p ns lost s) :
    (q.unlessFolded node find).Tidy p ns lost s := by
  unfold Plan.unlessFolded
  split
  · exact pure _ s
  · next none => exact kept none

/-- An operator changes no frame, so what matters is how it fails. -/
theorem apply {symbol : String} {result : Except OpError Literal}
    (division : result = .error .divisionByZero → lost .divisionByZero)
    (operands : result = .error .unsupported → lost (.invalidOperands symbol)) :
    (Eval.apply symbol result).Tidy p ns lost s := by
  cases result with
  | error e =>
    cases e with
    | divisionByZero => exact error rfl (division rfl)
    | unsupported => exact error rfl (operands rfl)
  | ok v => cases v <;> exact ok rfl ⟨rfl, .refl _⟩

end Eval.Tidy

/-! ### Pure evaluations -/

section
variable (q : Plan) (F : Checker) (P : Table NodeId Purity)

/-- A task that was judged pure in the body of `owner`. -/
def Task.Pure (owner : Option (FnDecl Mark)) (R : SymbolId → Prop) : Task → Prop
  | .expr e => e.Pure q.toBoundProgram F P owner R
  | .exprs es => exprsPure q.toBoundProgram F P owner R es
  | .tail last => tailPure q.toBoundProgram F P owner R last
  | .arms _ rest =>
    rest.any (·.pat.isWildcard) = true ∧ armsPure q.toBoundProgram F P owner R rest
  | .stmt t => stmtPure q.toBoundProgram F P owner R t
  | .stmts ss => stmtsPure q.toBoundProgram F P owner R ss

/-- An evaluation of a pure task in a state that is as the verdict takes it to be. -/
structure Config.Sober (c : Config) : Prop where
  fine : c.Fine q F
  pure : ∃ owner R env, Staged q.toBoundProgram (fun _ => False) owner R env c ∧
    c.task.Pure q F P owner R

/-- What verdicts of purity need to be worth something in a run. -/
structure Trusted (P₀ : Table NodeId Purity) : Prop where
  ready : Ready q F P₀
  spaced : q.Spaced
  verdicts : ∀ d, .stmt (.fn d) ∈ q.program.nodes → ∀ reads,
    P.find? d.mark.id = some (.pure reads) → d.body.Pure q.toBoundProgram F P (some d) (· ∈ reads)

end

section
variable {q : Plan} {F : Checker} {P P₀ : Table NodeId Purity} {c c' : Config}

/-- A part of a pure task that is evaluated in the same body is pure. -/
theorem Task.Pure.inside {owner : Option (FnDecl Mark)} {R : SymbolId → Prop}
    (pure : c.task.Pure q F P owner R) (enters : q.Enters c c') (same : c'.left = c.left) :
    c'.task.Pure q F P owner R := by
  cases enters with
  | paren | unary | last | effect => exact pure
  | left | block | arg | stmt => exact pure.1
  | right => exact pure.2.1
  | args =>
    obtain ⟨_, _, _, args, _⟩ := pure
    exact args
  | body => exact absurd same (Nat.ne_of_lt (Nat.lt_succ_self _))
  | tail | nextArgs | nextStmts => exact pure.2
  | assign => exact pure.elim
  | scrutinee => exact pure.2.1
  | arms => exact ⟨pure.1, pure.2.2⟩
  | arm => exact pure.2.1
  | @nextArms n s s' m a e arms v first =>
    refine ⟨?_, pure.2.2⟩
    -- the arm that did not match is not the wildcard
    cases a with
    | wildcard => cases first
    | lit | typed => exact pure.1
  | @init n s d =>
    obtain ⟨_, _, _, _, e⟩ := d
    exact pure

theorem Expr.call_shown (spaced : q.Spaced) {m : Mark} {f : Ident Mark} {args : List (Expr Mark)}
    (inside : (Expr.call m f args).nodes ⊆ stmtsNodes q.program.stmts) :
    (Node.expr (.call m f args)).Shown := by
  have callee : Node.ident f ∈ (Expr.call m f args).nodes :=
    List.mem_append_left _ List.mem_cons_self
  have shown := spaced.legible _ (List.mem_append_left _ (inside callee)) rfl
  have nested := spaced.nested _ (inside (Expr.mem_nodes _)) _ callee
  exact Nat.lt_of_le_of_lt nested.1 (Nat.lt_of_lt_of_le shown nested.2)

/-- The function that a call gets to, with a value for each parameter. -/
theorem Ready.called (ready : Ready q F P₀) {n : Nat} {s s' : Machine} {m : Mark} {f : Ident Mark}
    {args : List (Expr Mark)} {vs : List Literal} {sig : Signature}
    (fine : Config.Fine q F ⟨n, .expr (.call m f args), s⟩)
    (first : q.evalExprs (q.call n) args s = (.ok vs, s'))
    (own : (q.symbolAt? f.mark.id).any (fun x => (q.symbol x).role = .builtin) = false)
    (found : q.checker.signatures.find? m.id = some sig) :
    ∃ x, q.symbolAt? f.mark.id = some x ∧ .fn sig.decl ∈ (q.symbol x).decls ∧
      vs.length = sig.decl.params.length := by
  obtain ⟨⟨inside, t, _, x, types, target, typed, resolved⟩, fit⟩ := fine
  have keeps := ready.evalExprs (ready.bodies n) args
    (List.cons_subset.mp (Answers.below_left inside)).2 typed s fit
  rw [first] at keeps
  rw [ready.like.signatures] at found
  rcases resolved with ⟨role, _⟩ | ⟨_, sig', found', offers, below, _⟩
  · rw [target] at own
    simp [role] at own
  · cases found.symm.trans found'
    have fn := (ready.cert.callee (inside (Expr.mem_nodes _)) found).2
    obtain ⟨sig', _, known, _, params, _⟩ := ready.cert.fn fn
    cases known.symm.trans offers.known
    refine ⟨x, target, offers.overload, ?_⟩
    rw [(keeps.2 vs rfl).length_eq, below.length_eq, params.length_eq]

/-- The body of a function that a pure call gets to. -/
theorem Trusted.body (trusted : Trusted q F P P₀) {n : Nat} {s s' : Machine} {m : Mark}
    {f : Ident Mark} {args : List (Expr Mark)} {vs : List Literal} {sig : Signature}
    {owner : Option (FnDecl Mark)} {R : SymbolId → Prop} {env : List LiveScope}
    (fine : Config.Fine q F ⟨n + 1, .expr (.call m f args), s⟩)
    (staged : Staged q.toBoundProgram (fun _ => False) owner R env
      ⟨n + 1, .expr (.call m f args), s⟩)
    (pure : (Expr.call m f args).Pure q.toBoundProgram F P owner R)
    (first : q.evalExprs (q.call (n + 1)) args s = (.ok vs, s'))
    (own : (q.symbolAt? f.mark.id).any (fun x => (q.symbol x).role = .builtin) = false)
    (found : q.checker.signatures.find? m.id = some sig) :
    ∃ (reads : List SymbolId) (env' : List LiveScope),
      Staged q.toBoundProgram (fun _ => False) (some sig.decl) (· ∈ reads) env'
        ⟨n, .expr sig.decl.body, { s' with frames := q.frameOf sig.decl vs :: s'.frames }⟩ ∧
      sig.decl.body.Pure q.toBoundProgram F P (some sig.decl) (· ∈ reads) := by
  have ready := trusted.ready
  obtain ⟨x, target, overload, count⟩ := ready.called fine first own found
  rw [ready.like.signatures] at found
  obtain ⟨sig', reads, found', _, verdict, readsWell⟩ := pure
  cases found.symm.trans found'
  have fn := (ready.cert.callee (fine.typed.1 (Expr.mem_nodes _)) found).2
  have grows := (q.evalExprs_growing (q.call_growing (n + 1)) args).run first
  -- the call answers for what the body reads outside
  have after : Staged q.toBoundProgram (fun _ => False) owner R env
      ⟨n + 1, .expr (.call m f args), s'⟩ :=
    staged.part staged.names staged.stretch (List.Subset.refl _) (List.Subset.refl _)
      (fun _ late => late) grows
  have held : ∀ x ∈ Lexical.visible env, ∀ d, q.Binds x d → x ∈ reads → Held x s'.frames :=
    fun x seen _ _ member => after.read seen
      (Expr.call_shown trusted.spaced staged.stretch.inside.subset) (readsWell x member)
  obtain ⟨env', entered⟩ := staged.enterBody trusted.spaced ready.cert.bound (k := n) target overload
    count held
  exact ⟨reads, env', entered, trusted.verdicts sig.decl fn reads verdict⟩

theorem Config.Sober.enters (trusted : Trusted q F P P₀) (sober : c.Sober q F P)
    (enters : q.Enters c c') : c'.Sober q F P := by
  refine ⟨trusted.ready.enters sober.fine enters, ?_⟩
  obtain ⟨owner, R, env, staged, pure⟩ := sober.pure
  by_cases same : c'.left = c.left
  · obtain ⟨env', inner⟩ := staged.inside trusted.spaced trusted.ready.cert.bound enters same
      fun _ _ => id
    exact ⟨owner, R, env', inner, pure.inside enters same⟩
  · cases enters with
    | body kept first own found =>
      obtain ⟨reads, env', inner, body⟩ := trusted.body sober.fine staged pure first own found
      exact ⟨_, _, env', inner, body⟩
    | _ => exact absurd rfl same

end

/-! ### Trees -/

namespace Trusted

variable {q : Plan} {F : Checker} {P P₀ : Table NodeId Purity} (trusted : Trusted q F P P₀)
include trusted

/-- A part that is tidy for itself is tidy for the whole. -/
theorem part {α : Type} {c c' : Config} {a : Eval α} {s : Machine} (sober : c.Sober q F P)
    (enters : q.Enters c c') (inside : c'.task.nodes ⊆ c.task.nodes)
    (tidy : c'.Sober q F P → a.Tidy q.toBoundProgram c'.task.nodes (q.Loses c') s) :
    a.Tidy q.toBoundProgram c.task.nodes (q.Loses c) s :=
  (tidy (sober.enters trusted enters)).part inside fun _ loses => loses.enter enters

theorem read {n : Nat} {s : Machine} {x : Ident Mark}
    (sober : Config.Sober q F P ⟨n, .expr (.name x), s⟩) {ns : List (Node Mark)}
    {lost : EvalError → Prop} : (q.read x).Tidy q.toBoundProgram ns lost s := by
  obtain ⟨owner, R, env, staged, y, target, well⟩ := sober.pure
  obtain ⟨y', seen, target', _⟩ := staged.names
  cases target.symm.trans target'
  have shown : (Node.expr (.name x)).Shown :=
    trusted.spaced.legible _
      (List.mem_append_left _ (staged.stretch.inside.subset (Expr.mem_nodes (.name x)))) rfl
  obtain ⟨v, found⟩ := Option.isSome_iff_exists.mp (staged.read seen shown well)
  have same : Tidies q.toBoundProgram ns s s := ⟨rfl, .refl _⟩
  refine .ok (x := v) ?_ same
  rw [Plan.read, target]
  dsimp only
  rw [q.lookup_apply, found]

theorem unary {n : Nat} {s s' : Machine} {m : Mark} {op : UnaryOp} {e : Expr Mark} {v : Literal}
    (sober : Config.Sober q F P ⟨n, .expr (.unary m op e), s⟩)
    (operand : q.evalExpr (q.call n) e s = (.ok v, s')) {ns : List (Node Mark)}
    {lost : EvalError → Prop} : (Eval.apply op.symbol (op.eval v)).Tidy q.toBoundProgram ns lost s' := by
  obtain ⟨⟨inside, _, _, t, k, j, inner, kind, result, _⟩, fit⟩ := sober.fine
  have keeps := trusted.ready.evalExpr (trusted.ready.bodies n) e (Answers.below_left inside) inner s
    fit
  rw [operand] at keeps
  obtain ⟨w, value, _⟩ := UnaryOp.eval_ok (kind.may (keeps.2 v rfl).1) result
  rw [value]
  exact .apply nofun nofun

theorem bin {n : Nat} {s s' s'' : Machine} {m : Mark} {op : BinOp} {a b : Expr Mark}
    {v w : Literal} (sober : Config.Sober q F P ⟨n, .expr (.bin m op a b), s⟩)
    (kept : q.folds.find? m.id = none) (left : q.evalExpr (q.call n) a s = (.ok v, s'))
    (both : ¬op.Short v) (right : q.evalExpr (q.call n) b s' = (.ok w, s'')) :
    (Eval.apply op.symbol (op.eval v w)).Tidy q.toBoundProgram (Expr.bin m op a b).nodes
      (q.Loses ⟨n, .expr (.bin m op a b), s⟩) s'' := by
  have performs : q.Performs ⟨n, .expr (.bin m op a b), s⟩ (.bin op v w) :=
    .bin kept left both right
  refine .apply (fun division => ?_) fun unsupported => ?_
  · -- the divisor is a constant, and not zero
    obtain ⟨divides, zero⟩ := BinOp.divisionByZero division
    obtain ⟨_, _, _, _, _, _, constant⟩ := sober.pure
    obtain ⟨w', constant, nonZero⟩ := constant divides
    have fine := trusted.ready.enters sober.fine (.right kept left both)
    obtain ⟨⟨inside, t, typed⟩, fit⟩ := fine
    have keeps := trusted.ready.evalExpr (trusted.ready.bodies n) b inside typed s' fit
    rw [right] at keeps
    obtain rfl := (keeps.2 w rfl).2 w' constant
    cases zero.symm.trans nonZero
  · have joins := trusted.ready.joinsNull sober.fine performs unsupported
    have symbol : op.symbol = "+" := joins.symbol
    rw [symbol]
    exact .inr ⟨_, .refl, .join performs joins⟩

theorem matchesPat {n : Nat} {s : Machine} {v : Literal} {m : Mark} {a : Pat Mark} {e : Expr Mark}
    {arms : List (Arm Mark)} (sober : Config.Sober q F P ⟨n, .arms v (⟨m, a, e⟩ :: arms), s⟩)
    {ns : List (Node Mark)} : (q.matchesPat v a).Tidy q.toBoundProgram ns
      (q.Loses ⟨n, .arms v (⟨m, a, e⟩ :: arms), s⟩) s := by
  cases a with
  | wildcard => exact .pure _ s
  | lit => exact .pure _ s
  | typed m' ty =>
    obtain ⟨⟨_, _, ⟨t, noted, _⟩, _⟩, _⟩ := sober.fine
    rw [← trusted.ready.like.nodeTypes] at noted
    rw [Plan.matchesPat, noted]
    cases t with
    | literal w => exact .pure _ s
    | intrinsic k => cases k <;> exact .pure _ s
    | path x =>
      cases found : lookFrames x s.frames with
      | none =>
        exact .error (Eval.bind_error (Plan.lookup_missing found))
          (.inr ⟨_, .refl, .unset noted found⟩)
      | some w =>
        have run : q.lookup x s = (.ok w, s) := by rw [q.lookup_apply, found]
        exact .ok (Eval.bind_ok run) ⟨rfl, .refl _⟩

section
variable {n : Nat}
  (bodies : ∀ k, n = k + 1 → ∀ e s, Config.Sober q F P ⟨k, .expr e, s⟩ →
    (q.evalExpr (q.call k) e).Tidy q.toBoundProgram e.nodes (q.Loses ⟨k, .expr e, s⟩) s)
include bodies

theorem applyCall {s s' : Machine} {m : Mark} {f : Ident Mark} {args : List (Expr Mark)}
    {vs : List Literal} (sober : Config.Sober q F P ⟨n, .expr (.call m f args), s⟩)
    (kept : q.folds.find? m.id = none) (first : q.evalExprs (q.call n) args s = (.ok vs, s'))
    {ns : List (Node Mark)} : (q.applyCall (q.call n) m f vs).Tidy q.toBoundProgram ns
      (q.Loses ⟨n, .expr (.call m f args), s⟩) s' := by
  have node : .expr (.call m f args) ∈ q.program.nodes := sober.fine.typed.1 (Expr.mem_nodes _)
  obtain ⟨_, _, _, _, sig, _, found, _⟩ := sober.pure
  obtain ⟨⟨x, target, role, _⟩, _⟩ := trusted.ready.cert.callee node found
  have own : (q.symbolAt? f.mark.id).any (fun x => (q.symbol x).role = .builtin) = false := by
    simp [target, role]
  rw [← trusted.ready.like.signatures] at found
  rw [Plan.applyCall, own, found]
  cases n with
  | zero => exact .error rfl (.inl ⟨_, rfl⟩)
  | succ k =>
    have enters := Plan.Enters.body kept first own found
    refine .inFrame (.part (bodies k rfl _ _ (sober.enters trusted enters)) (List.Subset.refl _) ?_)
    exact fun _ loses => loses.enter enters

set_option linter.unusedSectionVars false

mutual
theorem evalExpr : ∀ (e : Expr Mark) (s : Machine), Config.Sober q F P ⟨n, .expr e, s⟩ →
    (q.evalExpr (q.call n) e).Tidy q.toBoundProgram e.nodes (q.Loses ⟨n, .expr e, s⟩) s
  | .lit _, s, _ => .unlessFolded fun _ => .pure _ s
  | .name _, _, sober => .unlessFolded fun _ => trusted.read sober
  | .paren _ e, s, sober => .unlessFolded fun kept =>
    trusted.part sober (.paren kept) (List.subset_append_left _ _) (evalExpr e s)
  | .unary _ _ e, s, sober => .unlessFolded fun kept =>
    .bind (trusted.part sober (.unary kept) (List.subset_append_left _ _) (evalExpr e s))
      fun _ _ operand => trusted.unary sober operand
  | .bin _ _ a b, s, sober => .unlessFolded fun kept => by
    refine .bind (trusted.part sober (.left kept)
      (List.subset_append_of_subset_left _ (List.subset_append_left _ _)) (evalExpr a s))
      fun v s' left => ?_
    split
    · exact .pure _ s'
    · next both =>
      exact .bind (trusted.part sober (.right kept left both)
        (List.subset_append_of_subset_left _ (List.subset_append_right _ _)) (evalExpr b s'))
        fun _ _ right => trusted.bin sober kept left both right
  | .call _ _ args, s, sober => .unlessFolded fun kept =>
    .bind (trusted.part sober (.args kept)
      (List.subset_append_of_subset_left _ (List.subset_cons_self _ _)) (evalExprs args s))
      fun _ _ first => trusted.applyCall bodies sober kept first
  | .block _ ss last, s, sober => .unlessFolded fun kept =>
    .bind (trusted.part sober (.block kept)
      (List.subset_append_of_subset_left _ (List.subset_append_left _ _)) (evalStmts ss s))
      fun _ s' first => trusted.part sober (.tail kept first)
        (List.subset_append_of_subset_left _ (List.subset_append_right _ _)) (evalTail last s')
  | .assign _ _ _, _, sober => by
    obtain ⟨_, _, _, _, impossible⟩ := sober.pure
    exact impossible.elim
  | .cases _ e arms, s, sober => .unlessFolded fun kept =>
    .bind (trusted.part sober (.scrutinee kept)
      (List.subset_append_of_subset_left _ (List.subset_append_left _ _)) (evalExpr e s))
      fun v s' first => trusted.part sober (.arms kept first)
        (List.subset_append_of_subset_left _ (List.subset_append_right _ _)) (evalArms v arms s')
  | .inhabitant m node, s, sober => .unlessFolded fun _ => by
    obtain ⟨⟨_, _, _, _, w, found, _⟩, _⟩ := sober.fine
    rw [trusted.ready.like.witnesses, found]
    exact .pure _ s
  | .host _ _, s, _ => .unlessFolded fun _ => .pure _ s

theorem evalExprs : ∀ (es : List (Expr Mark)) (s : Machine), Config.Sober q F P ⟨n, .exprs es, s⟩ →
    (q.evalExprs (q.call n) es).Tidy q.toBoundProgram (exprsNodes es) (q.Loses ⟨n, .exprs es, s⟩) s
  | [], s, _ => .pure _ s
  | e :: es, s, sober =>
    .bind (trusted.part sober .arg (List.subset_append_left _ _) (evalExpr e s)) fun _ s' first =>
      .bind (trusted.part sober (.nextArgs first) (List.subset_append_right _ _) (evalExprs es s'))
        fun _ s'' _ => .pure _ s''

theorem evalTail : ∀ (last : Option (Expr Mark)) (s : Machine),
    Config.Sober q F P ⟨n, .tail last, s⟩ →
    (q.evalTail (q.call n) last).Tidy q.toBoundProgram (tailNodes last) (q.Loses ⟨n, .tail last, s⟩) s
  | none, s, _ => .pure _ s
  | some e, s, sober => trusted.part sober .last (List.Subset.refl _) (evalExpr e s)

theorem evalArms (v : Literal) : ∀ (arms : List (Arm Mark)) (s : Machine),
    Config.Sober q F P ⟨n, .arms v arms, s⟩ →
    (q.evalArms (q.call n) v arms).Tidy q.toBoundProgram (armsNodes arms)
      (q.Loses ⟨n, .arms v arms, s⟩) s
  | [], _, sober => by
    obtain ⟨_, _, _, _, impossible, _⟩ := sober.pure
    cases impossible
  | ⟨m, a, e⟩ :: arms, s, sober => by
    refine .bind (trusted.matchesPat sober) fun hit s' first => ?_
    cases hit with
    | true =>
      exact trusted.part sober (.arm first) (List.subset_append_of_subset_left _
        (List.subset_append_of_subset_left _ (List.subset_append_right _ _))) (evalExpr e s')
    | false =>
      exact trusted.part sober (.nextArms first) (List.subset_append_right _ _) (evalArms v arms s')

theorem evalStmt : ∀ (t : Stmt Mark) (s : Machine), Config.Sober q F P ⟨n, .stmt t, s⟩ →
    (q.evalStmt (q.call n) t).Tidy q.toBoundProgram t.nodes (q.Loses ⟨n, .stmt t, s⟩) s
  | .val ⟨m, kind, name, ty, e⟩, s, sober => by
    refine .bind (trusted.part sober .init
      (List.subset_append_of_subset_left _ (List.subset_append_right _ _)) (evalExpr e s))
      fun v s' _ => ?_
    split
    · next x target =>
      have node : Node.stmt (.val ⟨m, kind, name, ty, e⟩) ∈ q.program.nodes :=
        sober.fine.typed.1 (Stmt.mem_nodes _)
      obtain ⟨x', declares⟩ := trusted.ready.cert.bound.named _ node _ rfl
      cases target.symm.trans declares.target
      exact .declare (declares.head nofun) (Stmt.mem_nodes _)
    · exact .pure _ s'
  | .expr _ e, s, sober =>
    .bind (trusted.part sober .effect (List.subset_append_left _ _) (evalExpr e s))
      fun _ s' _ => .pure _ s'
  | .typeAlias _, s, _ => .pure _ s
  | .fn _, s, _ => .pure _ s

theorem evalStmts : ∀ (ss : List (Stmt Mark)) (s : Machine), Config.Sober q F P ⟨n, .stmts ss, s⟩ →
    (q.evalStmts (q.call n) ss).Tidy q.toBoundProgram (stmtsNodes ss) (q.Loses ⟨n, .stmts ss, s⟩) s
  | [], s, _ => .pure _ s
  | t :: ss, s, sober =>
    .bind (trusted.part sober .stmt (List.subset_append_left _ _) (evalStmt t s)) fun _ s' first =>
      trusted.part sober (.nextStmts first) (List.subset_append_right _ _) (evalStmts ss s')
end

end

/-- A pure evaluation has a value and leaves no trace outside of its own declarations, unless it
goes too many calls deep or stumbles. -/
theorem tidy (n : Nat) (e : Expr Mark) (s : Machine) (sober : Config.Sober q F P ⟨n, .expr e, s⟩) :
    (q.evalExpr (q.call n) e).Tidy q.toBoundProgram e.nodes (q.Loses ⟨n, .expr e, s⟩) s := by
  induction n generalizing e s with
  | zero => exact trusted.evalExpr (fun k same => absurd same (Nat.succ_ne_zero k).symm) e s sober
  | succ n ih =>
    refine trusted.evalExpr ?_ e s sober
    rintro _ ⟨⟩ e s sober
    exact ih e s sober

end Trusted

end Solo

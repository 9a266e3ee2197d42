import Solo.Proofs.Slots

/-!
# Effects of pure expressions

What was judged pure leaves no trace. Its evaluation prints nothing and sets no slot of a frame that
was there before, but for the values it declares itself, whether it has a value or fails. This rests
on the verdicts alone: it holds in every state, with whatever folds, and says nothing about values.
Verdicts may be asked for in any order, before and after folding.
-/

namespace Solo

open Lexical (slot?)

theorem slot?_beyond {a : Nat} (x : SymbolId) {frames : List Frame} (high : frames.length ≤ a) :
    slot? a x frames = none := by
  cases found : slot? a x frames with
  | none => rfl
  | some v => exact absurd (Lexical.slot?_lt found) (Nat.not_lt.mpr high)

/-- What is left as it was: all that is printed, and all slots but those of `xs` in the innermost
frame. -/
structure Untouched (xs : List SymbolId) (s s' : Machine) : Prop where
  printed : s'.printed = s.printed
  count : s'.frames.length = s.frames.length
  slots : ∀ a x, slot? a x s'.frames = slot? a x s.frames ∨ (a + 1 = s.frames.length ∧ x ∈ xs)

namespace Untouched

variable {xs ys : List SymbolId} {s s' s'' : Machine}

theorem still (printed : s'.printed = s.printed) (frames : s'.frames = s.frames) :
    Untouched xs s s' :=
  ⟨printed, congrArg List.length frames, fun _ _ => .inl (by rw [frames])⟩

theorem mono (untouched : Untouched xs s s') (more : xs ⊆ ys) : Untouched ys s s' :=
  { untouched with
    slots := fun a x => (untouched.slots a x).imp id fun ⟨top, own⟩ => ⟨top, more own⟩ }

theorem trans (first : Untouched xs s s') (second : Untouched xs s' s'') : Untouched xs s s'' where
  printed := second.printed.trans first.printed
  count := second.count.trans first.count
  slots a x := by
    rcases second.slots a x with same | ⟨top, own⟩
    · rw [same]
      exact first.slots a x
    · exact .inr ⟨first.count ▸ top, own⟩

/-- What is set in a frame that is gone leaves no trace. -/
theorem pop {frame : Frame} (inner : Untouched xs { s with frames := frame :: s.frames } s') :
    Untouched ys s { s' with frames := s'.frames.tail } := by
  obtain ⟨printed, count, slots⟩ := inner
  obtain ⟨frames, lines, names⟩ := s'
  cases frames with
  | nil => cases count
  | cons f outer =>
    have count : outer.length = s.frames.length := Nat.succ.inj count
    refine ⟨printed, count, fun a x => .inl ?_⟩
    change slot? a x outer = slot? a x s.frames
    by_cases low : a < s.frames.length
    · have below : a ≠ s.frames.length := Nat.ne_of_lt low
      have same := slots a x
      rw [slot?_below f x (count ▸ below), slot?_below frame x below] at same
      exact same.resolve_right fun top => below (Nat.succ.inj top.1)
    · rw [slot?_beyond x (by omega), slot?_beyond x (Nat.le_of_not_lt low)]

end Untouched

/-- Evaluations that leave all as it was, but for slots of `xs`. -/
def Eval.Traceless {α : Type} (xs : List SymbolId) (a : Eval α) : Prop :=
  ∀ s, Untouched xs s (a s).2

namespace Eval.Traceless

variable {α β : Type} {xs ys : List SymbolId} {a : Eval α}

theorem still (same : ∀ s, (a s).2 = s) : a.Traceless xs :=
  fun s => .still (by rw [same]) (by rw [same])

theorem pure (x : α) : Eval.Traceless xs (Pure.pure x) := still fun _ => rfl

theorem throw (e : EvalError) : Eval.Traceless xs (MonadExcept.throw e : Eval α) :=
  still fun _ => rfl

theorem mono (traceless : a.Traceless xs) (more : xs ⊆ ys) : a.Traceless ys :=
  fun s => (traceless s).mono more

theorem bind {f : α → Eval β} (first : a.Traceless xs) (rest : ∀ x, (f x).Traceless xs) :
    (a >>= f).Traceless xs := by
  intro s
  have before := first s
  rw [Eval.bind_apply]
  split
  · next x s' run =>
    rw [run] at before
    exact before.trans (rest x s')
  · next e s' run =>
    rw [run] at before
    exact before

theorem both {f : α → Eval β} (first : a.Traceless xs) (rest : ∀ x, (f x).Traceless ys) :
    (a >>= f).Traceless (xs ++ ys) :=
  .bind (first.mono (List.subset_append_left _ _)) fun x =>
    (rest x).mono (List.subset_append_right _ _)

theorem apply (symbol : String) (result : Except OpError Literal) :
    (Eval.apply symbol result).Traceless xs := by
  cases result with
  | error e => cases e <;> exact throw _
  | ok v => cases v <;> exact fun _ => .still rfl rfl

theorem declare (x : SymbolId) (v : Literal) : (Eval.declare x v).Traceless [x] := by
  rintro ⟨frames, printed, names⟩
  cases frames with
  | nil => exact .still rfl rfl
  | cons f outer =>
    refine ⟨rfl, rfl, fun a y => ?_⟩
    change slot? a y (f.insert x v :: outer) = slot? a y (f :: outer) ∨ _
    by_cases top : a = outer.length
    · subst top
      rw [slot?_top, slot?_top, Table.find?_insert]
      split
      · next same => exact .inr ⟨rfl, List.mem_singleton.mpr same⟩
      · exact .inl rfl
    · rw [slot?_below _ y top, slot?_below f y top]
      exact .inl rfl

theorem inFrame {action : Eval Literal} (traceless : action.Traceless xs) (frame : Frame) :
    (Eval.inFrame frame action).Traceless ys :=
  fun s => (traceless { s with frames := frame :: s.frames }).pop

theorem unlessFolded {p : Plan} {node : NodeId} {find : Eval Literal}
    (traceless : find.Traceless xs) : (p.unlessFolded node find).Traceless xs := by
  unfold Plan.unlessFolded
  split
  · exact pure _
  · exact traceless

end Eval.Traceless

/-- What the absence of effects rests on: calls get to the functions they are resolved to, and the
verdicts on these are right. -/
structure Vouched (p : Plan) (F : Checker) (P : Table NodeId Purity) : Prop where
  cert : Certified p.toBoundProgram F
  like : F.Like p.checker
  verdicts : ∀ d, .stmt (.fn d) ∈ p.program.nodes → ∀ reads,
    P.find? d.mark.id = some (.pure reads) → d.body.Pure p.toBoundProgram F P (some d) (· ∈ reads)

namespace Vouched

variable {p : Plan} {F : Checker} {P : Table NodeId Purity} (vouched : Vouched p F P)
include vouched

section
variable {body : FnDecl Mark → List Literal → Eval Literal}
  (bodies : ∀ d reads, .stmt (.fn d) ∈ p.program.nodes → P.find? d.mark.id = some (.pure reads) →
    ∀ vs, (body d vs).Traceless [])
  {owner : Option (FnDecl Mark)} {R : SymbolId → Prop}
include bodies

/-- A call that was judged pure is a call of a function that was. -/
theorem applyCall {m : Mark} {f : Ident Mark} {args : List (Expr Mark)}
    (node : .expr (.call m f args) ∈ p.program.nodes)
    (pure : (Expr.call m f args).Pure p.toBoundProgram F P owner R) (vs : List Literal) :
    (p.applyCall body m f vs).Traceless [] := by
  obtain ⟨sig, reads, found, _, verdict, _⟩ := pure
  obtain ⟨⟨x, target, role, _⟩, fn⟩ := vouched.cert.callee node found
  have own : (p.symbolAt? f.mark.id).any (fun x => (p.symbol x).role = .builtin) = false := by
    simp [target, role]
  rw [← vouched.like.signatures] at found
  rw [Plan.applyCall, own, found]
  exact bodies sig.decl reads fn verdict vs

set_option linter.unusedSectionVars false

mutual
theorem evalExpr : ∀ e : Expr Mark, e.nodes ⊆ p.program.nodes →
    e.Pure p.toBoundProgram F P owner R → (p.evalExpr body e).Traceless (p.valSymbols e.vals)
  | .lit _, _, _ => .unlessFolded (.pure _)
  | .name x, _, _ => .unlessFolded (.still (p.read_state x))
  | .paren _ e, inside, pure => .unlessFolded (evalExpr e (Answers.below_left inside) pure)
  | .unary _ _ e, inside, pure =>
    .unlessFolded (.bind (evalExpr e (Answers.below_left inside) pure) fun _ => .apply _ _)
  | .bin _ _ a b, inside, ⟨left, right, _⟩ => by
    have inside := Answers.below_left inside
    rw [Expr.vals, BoundProgram.valSymbols_append]
    refine .unlessFolded (.both (evalExpr a (Answers.below_left inside) left) fun v => ?_)
    split
    · exact .pure _
    · exact .bind (evalExpr b (Answers.below_right inside) right) fun _ => .apply _ _
  | .call m f args, inside, pure => by
    obtain ⟨_, _, _, argsPure, _⟩ := id pure
    refine .unlessFolded (.bind (evalExprs args
      (List.cons_subset.mp (Answers.below_left inside)).2 argsPure) fun vs => ?_)
    exact (vouched.applyCall bodies (inside (Expr.mem_nodes _)) pure vs).mono (List.nil_subset _)
  | .block _ ss tail, inside, ⟨stmts, last⟩ => by
    have inside := Answers.below_left inside
    rw [Expr.vals, BoundProgram.valSymbols_append]
    exact .unlessFolded (.both (evalStmts ss (Answers.below_left inside) stmts) fun _ =>
      evalTail tail (Answers.below_right inside) last)
  | .assign _ _ _, _, pure => pure.elim
  | .cases _ e arms, inside, ⟨_, own, rest⟩ => by
    have inside := Answers.below_left inside
    rw [Expr.vals, BoundProgram.valSymbols_append]
    exact .unlessFolded (.both (evalExpr e (Answers.below_left inside) own) fun v =>
      evalArms v arms (Answers.below_right inside) rest)
  | .inhabitant _ _, _, _ => by
    refine .unlessFolded ?_
    split
    · exact .pure _
    · exact .throw _
  | .host _ _, _, pure => pure.elim

theorem evalExprs : ∀ es : List (Expr Mark), exprsNodes es ⊆ p.program.nodes →
    exprsPure p.toBoundProgram F P owner R es →
    (p.evalExprs body es).Traceless (p.valSymbols (exprsVals es))
  | [], _, _ => .pure _
  | e :: es, inside, ⟨first, rest⟩ => by
    rw [exprsVals, BoundProgram.valSymbols_append]
    exact .both (evalExpr e (Answers.below_left inside) first) fun _ =>
      .bind (evalExprs es (Answers.below_right inside) rest) fun _ => .pure _

theorem evalTail : ∀ tail : Option (Expr Mark), tailNodes tail ⊆ p.program.nodes →
    tailPure p.toBoundProgram F P owner R tail →
    (p.evalTail body tail).Traceless (p.valSymbols (tailVals tail))
  | none, _, _ => .pure _
  | some e, inside, pure => evalExpr e inside pure

theorem evalArms (v : Literal) : ∀ arms : List (Arm Mark), armsNodes arms ⊆ p.program.nodes →
    armsPure p.toBoundProgram F P owner R arms →
    (p.evalArms body v arms).Traceless (p.valSymbols (armsVals arms))
  | [], _, _ => .throw _
  | ⟨_, a, e⟩ :: arms, inside, ⟨own, rest⟩ => by
    rw [armsVals, BoundProgram.valSymbols_append]
    refine .bind (.still (p.matchesPat_state v a)) fun hit => ?_
    split
    · exact (evalExpr e (Answers.below_right (Answers.below_left (Answers.below_left inside)))
        own).mono (List.subset_append_left _ _)
    · exact (evalArms v arms (Answers.below_right inside) rest).mono (List.subset_append_right _ _)

theorem evalStmt : ∀ t : Stmt Mark, t.nodes ⊆ p.program.nodes →
    stmtPure p.toBoundProgram F P owner R t → (p.evalStmt body t).Traceless (p.valSymbols t.vals)
  | .val ⟨m, _, _, _, e⟩, inside, pure => by
    rw [Stmt.vals, BoundProgram.valSymbols_append]
    refine .both (evalExpr e (Answers.below_right (Answers.below_left inside)) pure) fun v => ?_
    cases target : p.symbolAt? m.id with
    | none => exact .pure _
    | some x =>
      rw [BoundProgram.valSymbols_singleton target]
      exact .declare x v
  | .expr _ e, inside, pure => .bind (evalExpr e (Answers.below_left inside) pure) fun _ => .pure _
  | .typeAlias _, _, _ => .pure _
  | .fn _, _, _ => .pure _

theorem evalStmts : ∀ ss : List (Stmt Mark), stmtsNodes ss ⊆ p.program.nodes →
    stmtsPure p.toBoundProgram F P owner R ss →
    (p.evalStmts body ss).Traceless (p.valSymbols (stmtsVals ss))
  | [], _, _ => .pure _
  | t :: ss, inside, ⟨first, rest⟩ => by
    rw [stmtsVals, BoundProgram.valSymbols_append]
    exact .both (evalStmt t (Answers.below_left inside) first) fun _ =>
      evalStmts ss (Answers.below_right inside) rest
end

end

/-- A call of a function that was judged pure leaves no trace at all. -/
theorem call (n : Nat) (d : FnDecl Mark) (reads : List SymbolId)
    (node : .stmt (.fn d) ∈ p.program.nodes) (verdict : P.find? d.mark.id = some (.pure reads))
    (vs : List Literal) : (p.call n d vs).Traceless [] := by
  induction n generalizing d reads vs with
  | zero => exact .throw _
  | succ n ih =>
    exact .inFrame (vouched.evalExpr (fun d reads node verdict vs => ih d reads node verdict vs)
      d.body (Program.body_of_fn node) (vouched.verdicts d node reads verdict)) _

end Vouched

/-! ### Verdicts of checked drafts -/

inductive Checked.Asked (q : Checked) : Checker → Prop
  | start : Asked q q.checker
  | expr {c c' : Checker} (before : Asked q c) {owner : Option (FnDecl Mark)} {e : Expr Mark}
      {good : Bool} (node : .expr e ∈ q.context.program.nodes)
      (run : q.context.resolver.isPureWithin owner e c = .ok (good, c')) : Asked q c'
  | fn {c c' : Checker} (before : Asked q c) {d : FnDecl Mark} {good : Bool}
      (node : .stmt (.fn d) ∈ q.context.program.nodes)
      (run : q.context.resolver.fnIsPure d c = .ok (good, c')) : Asked q c'
  | fold {c c' : Checker} (before : Asked q c) {folding : Folding}
      (run : q.context.fold.run c = .ok (folding, c')) : Asked q c'

theorem Context.fold_judged {cx : Context} {F c : Checker} (cert : Certified cx.toBoundProgram F)
    (sized : cx.program.nodes.length ≤ cx.nodeCount) (like : F.Like c) :
    ∃ folding c', cx.fold.run c = .ok (folding, c') ∧ Judged cx.toBoundProgram F c c' := by
  obtain ⟨_, folding, c', run, judged, _⟩ :=
    foldStmts_folds cert sized none cx.program.stmts (List.subset_append_left _ _)
      (List.Subset.refl _) {} c like
  exact ⟨folding, c', Check.bind_eq run, judged⟩

section
variable {d : Draft} {o : Options} {q : Checked} {c : Checker}

theorem Checked.Asked.judged (asked : q.Asked c) (passes : d.Passes o q) :
    Judged q.context.toBoundProgram q.checker q.checker c := by
  obtain ⟨same, cert⟩ := passes.certified
  have sized := d.sized o
  rw [← same] at cert sized
  induction asked with
  | start => exact .refl (.refl _)
  | @expr c c' before owner e good node run ih =>
    obtain ⟨_, _, run', judged, _⟩ :=
      cert.isPureWithin sized owner (fun _ below => Program.mem_below node below) ih.like
    cases run.symm.trans run'
    exact ih.trans judged
  | @fn c c' before d good node run ih =>
    obtain ⟨_, _, run', judged, _⟩ :=
      cert.fnIsPure d node c ih.like (Certified.unjudged_lt_nodeCount sized c)
    cases run.symm.trans run'
    exact ih.trans judged
  | fold before run ih =>
    obtain ⟨_, _, run', judged⟩ := Context.fold_judged cert sized ih.like
    cases run.symm.trans run'
    exact ih.trans judged

theorem Checked.Asked.vouched {plan : Plan} (passes : d.Passes o q)
    (context : plan.toContext = q.context) (checker : q.Asked plan.checker) (asked : q.Asked c) :
    Vouched plan q.checker c.purities := by
  obtain ⟨same, cert⟩ := passes.certified
  have judged := asked.judged passes
  rw [← same] at cert
  rw [← context] at cert judged
  refine ⟨cert, (checker.judged passes).like, ?_⟩
  refine judged.right _ (fun _ _ found => found) fun d _ reads found => ?_
  rw [cert.purities] at found
  cases found

end

/-- In a draft that was checked without an error, an expression that is judged pure leaves no trace
when it is evaluated, in whatever state and whether it has a value or fails: it prints nothing, and
of the slots that were there it sets those of its own declarations only. The same goes for the body
of a function that is judged pure, and a call of it sets no slot at all. -/
theorem pure_leaves_no_trace (d : Draft) (o : Options) (q : Checked) (passes : d.Passes o q)
    (plan : Plan) (context : plan.toContext = q.context) (checker : q.Asked plan.checker)
    (c : Checker) (asked : q.Asked c) :
    (∀ owner e c', .expr e ∈ q.context.program.nodes →
      q.context.resolver.isPureWithin owner e c = .ok (true, c') →
        ∀ n s, Untouched (plan.valSymbols e.vals) s (plan.evalExpr (plan.call n) e s).2) ∧
    ∀ f c', .stmt (.fn f) ∈ q.context.program.nodes →
      q.context.resolver.fnIsPure f c = .ok (true, c') →
        ∀ n s, Untouched (plan.valSymbols f.body.vals) s (plan.evalExpr (plan.call n) f.body s).2 ∧
          ∀ vs, Untouched [] s (plan.call n f vs s).2 := by
  obtain ⟨same, cert⟩ := passes.certified
  have sized := d.sized o
  rw [← same] at cert sized
  have like := (asked.judged passes).like
  have vouched : ∀ {c'}, q.Asked c' → Vouched plan q.checker c'.purities :=
    Checked.Asked.vouched passes context checker
  obtain ⟨cx, known, folds⟩ := plan
  obtain rfl : cx = q.context := context
  constructor
  · intro owner e c' node run n s
    have inside : e.nodes ⊆ q.context.program.nodes := fun _ below => Program.mem_below node below
    obtain ⟨_, _, run', _, pure⟩ := cert.isPureWithin sized owner inside like
    cases run.symm.trans run'
    have vouched := vouched (.expr asked node run)
    exact vouched.evalExpr (vouched.call n) e inside (pure _ (fun _ _ found => found) rfl) s
  · intro f c' node run n s
    obtain ⟨_, _, run', _, verdict⟩ :=
      cert.fnIsPure f node c like (Certified.unjudged_lt_nodeCount sized c)
    cases run.symm.trans run'
    have vouched := vouched (.fn asked node run)
    obtain ⟨reads, verdict⟩ := verdict rfl
    have pure := vouched.verdicts f node reads verdict
    exact ⟨vouched.evalExpr (vouched.call n) f.body (Program.body_of_fn node) pure s,
      fun vs => vouched.call n f reads node verdict vs s⟩

/-- A draft whose functions are pure though they declare values and call each other. -/
def Draft.quiet : Draft where
  text := "def half(n: Int): Int = { val k = n / 2 k + 1 } def sum(n: Int): Int = half(n) + half(n + 1) println(sum({ val k = 2 k + 1 }))"
  stmts :=
    [.fn ⟨[], ⟨[], "half"⟩, [⟨[], ⟨[], "n"⟩, .refer [] ⟨[], "Int"⟩⟩], some (.refer [] ⟨[], "Int"⟩),
        .block []
          [.val ⟨[], .val, ⟨[], "k"⟩, none,
            .bin [] (.arith .div) (.name ⟨[], "n"⟩) (.lit ⟨[], .int 2⟩)⟩]
          (some (.bin [] (.arith .add) (.name ⟨[], "k"⟩) (.lit ⟨[], .int 1⟩)))⟩,
      .fn ⟨[], ⟨[], "sum"⟩, [⟨[], ⟨[], "n"⟩, .refer [] ⟨[], "Int"⟩⟩], some (.refer [] ⟨[], "Int"⟩),
        .bin [] (.arith .add) (.call [] ⟨[], "half"⟩ [.name ⟨[], "n"⟩])
          (.call [] ⟨[], "half"⟩ [.bin [] (.arith .add) (.name ⟨[], "n"⟩) (.lit ⟨[], .int 1⟩)])⟩,
      .expr [] (.call [] ⟨[], "println"⟩ [.call [] ⟨[], "sum"⟩
        [.block [] [.val ⟨[], .val, ⟨[], "k"⟩, none, .lit ⟨[], .int 2⟩⟩]
          (some (.bin [] (.arith .add) (.name ⟨[], "k"⟩) (.lit ⟨[], .int 1⟩)))]])]

theorem answer_of_any {r : Except Fault (Bool × Checker)} (good : r.toOption.any Prod.fst = true) :
    ∃ c, r = .ok (true, c) := by
  cases r with
  | error e => cases good
  | ok answer =>
    obtain ⟨yes, c⟩ := answer
    cases good
    exact ⟨c, rfl⟩

/-- After folding, a call and a function that declare values are judged pure. -/
theorem pure_leaves_no_trace_quiet : ∃ q plan e c₁ f c₂, Draft.quiet.Passes default q ∧
    q.Plans plan ∧ e.vals ≠ [] ∧ f.body.vals ≠ [] ∧
    q.context.resolver.isPureWithin none e plan.checker = .ok (true, c₁) ∧
    q.context.resolver.fnIsPure f plan.checker = .ok (true, c₂) ∧
    (∀ n s, Untouched (plan.valSymbols e.vals) s (plan.evalExpr (plan.call n) e s).2) ∧
    ∀ n s, Untouched (plan.valSymbols f.body.vals) s (plan.evalExpr (plan.call n) f.body s).2 ∧
      ∀ vs, Untouched [] s (plan.call n f vs s).2 := by
  obtain ⟨q, plan, passes, plans, found⟩ := Draft.plan?_any .quiet default
    (fun (q, plan) =>
      (q.context.program.places.any fun place => !place.expr.vals.isEmpty &&
        (q.context.resolver.isPureWithin none place.expr plan.checker).toOption.any Prod.fst) &&
      q.context.program.functions.any fun f => !f.body.vals.isEmpty &&
        (q.context.resolver.fnIsPure f plan.checker).toOption.any Prod.fst) (by decide +kernel)
  simp only [Bool.and_eq_true, List.any_eq_true, Bool.not_eq_true',
    List.isEmpty_eq_false_iff] at found
  obtain ⟨⟨place, inside, declares, judged⟩, f, member, declares', judged'⟩ := found
  obtain ⟨c₁, run⟩ := answer_of_any judged
  obtain ⟨c₂, run'⟩ := answer_of_any judged'
  obtain ⟨context, folding, folded, -⟩ := id plans
  have asked : q.Asked plan.checker := .fold .start folded
  obtain ⟨exprs, fns⟩ :=
    pure_leaves_no_trace .quiet default q passes plan context asked plan.checker asked
  exact ⟨q, plan, place.expr, c₁, f, c₂, passes, plans, declares, declares', run, run',
    exprs none _ c₁ (Program.node_of_place inside) run,
    fns f c₂ (Program.node_of_function member) run'⟩

end Solo

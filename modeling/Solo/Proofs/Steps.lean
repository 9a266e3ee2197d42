import Solo.Proofs.Slots

/-!
# Runs one step at a time

A machine that runs a program step by step, to compare evaluation with: it has no count of the
calls that are left and refuses a call when there are too many frames. What it still has to do when
an evaluation is over stands on a stack. The machine ends from every state, and it ends as
evaluation does, so the count of calls is right and every run is finite. Its steps show which
frames there are at every moment and what changes in them.
-/

namespace Solo

open Lexical (slot?)

/-- What a run is at. -/
inductive Focus where
  | expr (e : Expr Mark)
  /-- Statements and the expression after them. -/
  | stmts (ss : List (Stmt Mark)) (tail : Option (Expr Mark))
  /-- A call with the values of some arguments and the arguments that are left. -/
  | args (m : Mark) (f : Ident Mark) (found : List Literal) (rest : List (Expr Mark))
  | arms (v : Literal) (arms : List (Arm Mark))
  | over (result : Except EvalError Literal)

/-- What waits for an evaluation to be over. -/
inductive Wait where
  | unary (op : UnaryOp)
  | left (op : BinOp) (b : Expr Mark)
  | right (op : BinOp) (v : Literal)
  | arg (m : Mark) (f : Ident Mark) (found : List Literal) (rest : List (Expr Mark))
  /-- The frame of a call, which goes when the body is over. -/
  | leave
  | assign (x : Ident Mark)
  | scrutinee (arms : List (Arm Mark))
  | init (m : Mark) (ss : List (Stmt Mark)) (tail : Option (Expr Mark))
  | effect (ss : List (Stmt Mark)) (tail : Option (Expr Mark))

/-- A run at one moment. -/
structure Moment where
  focus : Focus
  waits : List Wait
  machine : Machine

abbrev Moment.frames (m : Moment) : List Frame := m.machine.frames

def Eval.over (a : Eval Literal) (waits : List Wait) (s : Machine) : Moment :=
  ⟨.over (a s).1, waits, (a s).2⟩

theorem Eval.Growing.length {α : Type} {a : Eval α} (growing : a.Growing) (s : Machine) :
    (a s).2.frames.length = s.frames.length :=
  (growing s).length_eq.symm

namespace Plan

section
variable (p : Plan)

def stepExpr (waits : List Wait) (s : Machine) : Expr Mark → Moment
  | .lit l => ⟨.over (.ok l.value), waits, s⟩
  | .name x => (p.read x).over waits s
  | .paren _ e => ⟨.expr e, waits, s⟩
  | .unary _ op e => ⟨.expr e, .unary op :: waits, s⟩
  | .bin _ op a b => ⟨.expr a, .left op b :: waits, s⟩
  | .call m f args => ⟨.args m f [] args, waits, s⟩
  | .block _ ss tail => ⟨.stmts ss tail, waits, s⟩
  | .assign _ x e => ⟨.expr e, .assign x :: waits, s⟩
  | .cases _ e arms => ⟨.expr e, .scrutinee arms :: waits, s⟩
  | .inhabitant m _ =>
    match p.checker.witnesses.find? m.id with
    | some w => ⟨.over (.ok w.value), waits, s⟩
    | none => ⟨.over (.error (.unresolved m.span)), waits, s⟩
  | .host _ _ => ⟨.over (.ok .unit), waits, s⟩

def stepCall (waits : List Wait) (s : Machine) (m : Mark) (f : Ident Mark) (vs : List Literal) :
    Moment :=
  if (p.symbolAt? f.mark.id).any fun x => (p.symbol x).role = .builtin then
    ⟨.over (.ok .unit), waits,
      { s with printed := " ".intercalate (vs.map Literal.display) :: s.printed }⟩
  else
    match p.checker.signatures.find? m.id with
    | none => ⟨.over (.error (.unresolved m.span)), waits, s⟩
    | some sig =>
      if p.options.maxCallDepth < s.frames.length then
        ⟨.over (.error (.callDepthExceeded p.options.maxCallDepth)), waits, s⟩
      else
        ⟨.expr sig.decl.body, .leave :: waits,
          { s with frames := p.frameOf sig.decl vs :: s.frames }⟩

def stepValue (waits : List Wait) (s : Machine) (v : Literal) : Wait → Moment
  | .unary op => (Eval.apply op.symbol (op.eval v)).over waits s
  | .left op b =>
    if (op = .and ∧ v = .bool false) ∨ (op = .or ∧ v = .bool true) then
      ⟨.over (.ok v), waits, s⟩
    else
      ⟨.expr b, .right op v :: waits, s⟩
  | .right op u => (Eval.apply op.symbol (op.eval u v)).over waits s
  | .arg m f found rest => ⟨.args m f (found ++ [v]) rest, waits, s⟩
  | .leave => ⟨.over (.ok v), waits, { s with frames := s.frames.tail }⟩
  | .assign x => Eval.over (do p.write x v; return .unit) waits s
  | .scrutinee arms => ⟨.arms v arms, waits, s⟩
  | .init m ss tail =>
    match p.symbolAt? m.id with
    | some x => ⟨.stmts ss tail, waits, (Eval.declare x v s).2⟩
    | none => ⟨.stmts ss tail, waits, s⟩
  | .effect ss tail => ⟨.stmts ss tail, waits, s⟩

/-- A failure passes all that waits, and takes the frames of the calls along. -/
def stepError (waits : List Wait) (s : Machine) (e : EvalError) : Wait → Moment
  | .leave => ⟨.over (.error e), waits, { s with frames := s.frames.tail }⟩
  | _ => ⟨.over (.error e), waits, s⟩

def stepArms (waits : List Wait) (s : Machine) (v : Literal) : List (Arm Mark) → Moment
  | [] => ⟨.over (.error (.noCaseMatches v)), waits, s⟩
  | ⟨_, pat, e⟩ :: arms =>
    match (p.matchesPat v pat s).1 with
    | .ok true => ⟨.expr e, waits, s⟩
    | .ok false => ⟨.arms v arms, waits, s⟩
    | .error err => ⟨.over (.error err), waits, s⟩

def stepStmts (waits : List Wait) (s : Machine) (tail : Option (Expr Mark)) :
    List (Stmt Mark) → Moment
  | [] =>
    match tail with
    | none => ⟨.over (.ok .unit), waits, s⟩
    | some e => ⟨.expr e, waits, s⟩
  | .val ⟨m, _, _, _, e⟩ :: ss => ⟨.expr e, .init m ss tail :: waits, s⟩
  | .expr _ e :: ss => ⟨.expr e, .effect ss tail :: waits, s⟩
  | .typeAlias _ :: ss => ⟨.stmts ss tail, waits, s⟩
  | .fn _ :: ss => ⟨.stmts ss tail, waits, s⟩

/-- One step of a run; there is none if nothing waits for what is over. -/
def step : Moment → Option Moment
  | ⟨.over _, [], _⟩ => none
  | ⟨.over (.ok v), w :: waits, s⟩ => some (p.stepValue waits s v w)
  | ⟨.over (.error e), w :: waits, s⟩ => some (stepError waits s e w)
  | ⟨.expr e, waits, s⟩ =>
    match p.folds.find? e.mark.id with
    | some v => some ⟨.over (.ok v), waits, s⟩
    | none => some (p.stepExpr waits s e)
  | ⟨.args m f found [], waits, s⟩ => some (p.stepCall waits s m f found)
  | ⟨.args m f found (e :: rest), waits, s⟩ => some ⟨.expr e, .arg m f found rest :: waits, s⟩
  | ⟨.arms v arms, waits, s⟩ => some (p.stepArms waits s v arms)
  | ⟨.stmts ss tail, waits, s⟩ => some (stepStmts waits s tail ss)

abbrev Steps : Moment → Moment → Prop := Relation.ReflTransGen fun m m' => p.step m = some m'

def start : Moment := ⟨.stmts p.program.stmts none, [], p.begin.machine⟩

def room (s : Machine) : Nat := p.options.maxCallDepth + 1 - s.frames.length

/-- A step that sets a symbol in the frame of an activation to the value that is assigned. -/
def Assigns (a : Nat) (x : SymbolId) (m m' : Moment) : Prop :=
  p.step m = some m' ∧ ∃ y v waits, m.focus = .over (.ok v) ∧ m.waits = .assign y :: waits ∧
    p.symbolAt? y.mark.id = some x ∧ (slot? a x m.frames).isSome = true ∧
    slot? a x m'.frames = some v

/-- Steps with never fewer frames than `n`, and with more than `n` only inside calls that the limit
allows. -/
def Walks (n : Nat) : Moment → Moment → Prop :=
  Relation.ReflTransGen fun m m' => p.step m = some m' ∧ n ≤ m'.frames.length ∧
    m'.frames.length ≤ max n (p.options.maxCallDepth + 1)

/-- Steps from a focus end as an action does, whatever waits for it. -/
def Completes (here : Focus) (a : Eval Literal) (k : Nat) : Prop :=
  ∀ waits s, s.frames.length = k → p.Walks k ⟨here, waits, s⟩ (a.over waits s)

end

/-! ### The machine and evaluation -/

section
variable {p : Plan} {k n : Nat}

theorem Walks.step {m m' : Moment} (step : p.step m = some m') (count : m'.frames.length = k) :
    p.Walks k m m' :=
  .single ⟨step, by omega, by omega⟩

theorem Walks.inside {m m' : Moment} (walks : p.Walks (k + 1) m m')
    (fits : k ≤ p.options.maxCallDepth) : p.Walks k m m' := by
  refine Relation.ReflTransGen.mono ?_ _ _ walks
  rintro m m' ⟨step, low, high⟩
  exact ⟨step, by omega, by omega⟩

theorem stepValue_length (waits : List Wait) (s : Machine) (v : Literal) {w : Wait}
    (other : w ≠ .leave) : (p.stepValue waits s v w).frames.length = s.frames.length := by
  cases w with
  | leave => exact absurd rfl other
  | unary op => exact (Eval.Growing.apply _ _).length s
  | right op u => exact (Eval.Growing.apply _ _).length s
  | left op b =>
    rw [stepValue]
    split <;> rfl
  | assign x =>
    exact Eval.Growing.length (.bind (p.write_growing x v) fun _ => .pure _) s
  | init m ss tail =>
    rw [stepValue]
    split
    · exact (Eval.Growing.declare _ _).length s
    · rfl
  | _ => rfl

theorem stepError_waits (waits : List Wait) (s : Machine) (e : EvalError) {w : Wait}
    (other : w ≠ .leave) : stepError waits s e w = ⟨.over (.error e), waits, s⟩ := by
  cases w with
  | leave => exact absurd rfl other
  | _ => rfl

/-- One part is over, and what waits for it goes on. -/
theorem Walks.bind {m : Moment} {w : Wait} {waits : List Wait} {s : Machine} {a : Eval Literal}
    {f : Literal → Eval Literal} (first : p.Walks k m (a.over (w :: waits) s)) (other : w ≠ .leave)
    (growing : a.Growing) (count : s.frames.length = k)
    (rest : ∀ v s, s.frames.length = k →
      p.Walks k (p.stepValue waits s v w) ((f v).over waits s)) :
    p.Walks k m ((a >>= f).over waits s) := by
  have same := growing.length s
  cases run : a s with
  | mk r s' =>
    rw [Eval.over, run] at first
    rw [run, count] at same
    cases r with
    | error e =>
      rw [Eval.over, Eval.bind_error run]
      refine first.trans (Walks.step ?_ same)
      rw [Plan.step, stepError_waits waits s' e other]
    | ok v =>
      rw [Eval.over, Eval.bind_ok run]
      refine first.trans ((Walks.step rfl ?_).trans (rest v s' same))
      rw [stepValue_length waits s' v other, same]

namespace Completes

theorem still {here : Focus} {a : Eval Literal} (same : ∀ s, (a s).2 = s)
    (step : ∀ waits s, p.step ⟨here, waits, s⟩ = some (a.over waits s)) : p.Completes here a k := by
  intro waits s count
  refine .step (step waits s) ?_
  rw [Moment.frames, Eval.over, same, count]

theorem goes {here there : Focus} {a : Eval Literal}
    (step : ∀ waits s, p.step ⟨here, waits, s⟩ = some ⟨there, waits, s⟩)
    (completes : p.Completes there a k) : p.Completes here a k := by
  intro waits s count
  exact (Walks.step (step waits s) count).trans (completes waits s count)

theorem bind {here there : Focus} {w : Wait} {a : Eval Literal} {f : Literal → Eval Literal}
    (step : ∀ waits s, p.step ⟨here, waits, s⟩ = some ⟨there, w :: waits, s⟩) (other : w ≠ .leave)
    (growing : a.Growing) (first : p.Completes there a k)
    (rest : ∀ v waits s, s.frames.length = k →
      p.Walks k (p.stepValue waits s v w) ((f v).over waits s)) :
    p.Completes here (a >>= f) k := by
  intro waits s count
  refine (Walks.step (step waits s) count).trans ?_
  exact Walks.bind (first (w :: waits) s count) other growing count (rest · waits)

theorem unlessFolded {e : Expr Mark} {find : Eval Literal}
    (completes : p.folds.find? e.mark.id = none → p.Completes (.expr e) find k) :
    p.Completes (.expr e) (p.unlessFolded e.mark.id find) k := by
  unfold Plan.unlessFolded
  cases folded : p.folds.find? e.mark.id with
  | none => exact completes folded
  | some v => exact still (fun _ => rfl) fun waits s => by rw [Plan.step, folded]; rfl

end Completes

theorem step_kept {e : Expr Mark} (kept : p.folds.find? e.mark.id = none) (waits : List Wait)
    (s : Machine) : p.step ⟨.expr e, waits, s⟩ = some (p.stepExpr waits s e) := by
  rw [step, kept]

section
variable (count : n = p.options.maxCallDepth + 1 - k)
  (bodies : ∀ n', n = n' + 1 → ∀ e, p.Completes (.expr e) (p.evalExpr (p.call n') e) (k + 1))
include count bodies

theorem applyCall_walks (m : Mark) (f : Ident Mark) (vs : List Literal) :
    p.Completes (.args m f vs []) (p.applyCall (p.call n) m f vs) k := by
  unfold applyCall
  split
  · next builtin =>
    refine fun waits s frames => Walks.step ?_ frames
    rw [step, stepCall, if_pos builtin]
    rfl
  · next own =>
    cases found : p.checker.signatures.find? m.id with
    | none =>
      refine .still (fun _ => rfl) fun waits s => ?_
      rw [step, stepCall, if_neg own, found]
      rfl
    | some sig =>
      intro waits s frames
      by_cases full : p.options.maxCallDepth < s.frames.length
      · obtain rfl : n = 0 := by omega
        refine Walks.step ?_ frames
        rw [step, stepCall, if_neg own, found]
        exact congrArg some (if_pos full)
      · obtain ⟨n', rfl⟩ : ∃ n', n = n' + 1 := ⟨n - 1, by omega⟩
        have size : (p.frameOf sig.decl vs :: s.frames).length = k + 1 := by
          rw [List.length_cons, frames]
        have walks := bodies n' rfl sig.decl.body (.leave :: waits)
          { s with frames := p.frameOf sig.decl vs :: s.frames } size
        refine .head ⟨?_, size ▸ Nat.le_succ k, size ▸ (by omega)⟩
          ((walks.inside (by omega)).trans (Walks.step ?_ ?_))
        · rw [step, stepCall, if_neg own, found]
          exact congrArg some (if_neg full)
        · -- The frame goes, whether the body has a value or fails.
          change _ = some ((Eval.inFrame _ _).over waits s)
          rw [Eval.over, Eval.over, Eval.inFrame]
          cases p.evalExpr (p.call n') sig.decl.body
            { s with frames := p.frameOf sig.decl vs :: s.frames } with
          | mk r s' => cases r <;> rfl
        · exact ((p.call_growing (n' + 1) sig.decl vs).length s).trans frames

set_option linter.unusedSectionVars false

mutual
theorem evalExpr_completes : ∀ e : Expr Mark, p.Completes (.expr e) (p.evalExpr (p.call n) e) k
  | .lit l => .unlessFolded fun kept => .still (fun _ => rfl) (step_kept kept)
  | .name x => .unlessFolded fun kept => .still (p.read_state x) (step_kept kept)
  | .paren m e => .unlessFolded fun kept => .goes (step_kept kept) (evalExpr_completes e)
  | .unary m op e =>
    .unlessFolded fun kept => .bind (step_kept kept) nofun
      (p.evalExpr_growing (p.call_growing n) e) (evalExpr_completes e) fun _ _ _ _ => .refl
  | .bin m op a b => .unlessFolded fun kept => by
    refine .bind (step_kept kept) nofun (p.evalExpr_growing (p.call_growing n) a)
      (evalExpr_completes a) fun v waits s frames => ?_
    rw [stepValue]
    split
    · exact .refl
    · exact Walks.bind (evalExpr_completes b (.right op v :: waits) s frames) nofun
        (p.evalExpr_growing (p.call_growing n) b) frames fun _ _ _ => .refl
  | .call m f args => .unlessFolded fun kept => .goes (step_kept kept) (args_completes m f args [])
  | .block m ss tail =>
    .unlessFolded fun kept => .goes (step_kept kept)
      (evalStmts_completes ss tail (evalTail_completes tail))
  | .assign m x e =>
    .unlessFolded fun kept => .bind (step_kept kept) nofun
      (p.evalExpr_growing (p.call_growing n) e) (evalExpr_completes e) fun _ _ _ _ => .refl
  | .cases m e arms =>
    .unlessFolded fun kept => .bind (step_kept kept) nofun
      (p.evalExpr_growing (p.call_growing n) e) (evalExpr_completes e)
      fun v waits s frames => evalArms_completes v arms waits s frames
  | .inhabitant m t => .unlessFolded fun kept => by
    cases known : p.checker.witnesses.find? m.id with
    | some w =>
      exact .still (fun _ => rfl) fun waits s => by rw [step_kept kept, stepExpr, known]; rfl
    | none =>
      exact .still (fun _ => rfl) fun waits s => by rw [step_kept kept, stepExpr, known]; rfl
  | .host m _ => .unlessFolded fun kept => .still (fun _ => rfl) (step_kept kept)

theorem args_completes (m : Mark) (f : Ident Mark) :
    ∀ (rest : List (Expr Mark)) (found : List Literal), p.Completes (.args m f found rest)
      (p.evalExprs (p.call n) rest >>= fun vs => p.applyCall (p.call n) m f (found ++ vs)) k
  | [], found => by
    rw [evalExprs, pure_bind, List.append_nil]
    exact applyCall_walks count bodies m f found
  | e :: rest, found => by
    rw [evalExprs, bind_assoc]
    refine .bind (fun _ _ => rfl) nofun (p.evalExpr_growing (p.call_growing n) e)
      (evalExpr_completes e) fun v waits s frames => ?_
    have next := args_completes m f rest (found ++ [v]) waits s frames
    simp only [List.append_assoc, List.singleton_append] at next
    simp only [bind_assoc, pure_bind]
    exact next

theorem evalTail_completes : ∀ (tail : Option (Expr Mark)) (e : Expr Mark), tail = some e →
    p.Completes (.expr e) (p.evalExpr (p.call n) e) k
  | some e, _, rfl => evalExpr_completes e

theorem evalArms_completes (v : Literal) :
    ∀ arms : List (Arm Mark), p.Completes (.arms v arms) (p.evalArms (p.call n) v arms) k
  | [] => .still (fun _ => rfl) fun _ _ => rfl
  | ⟨m, pat, e⟩ :: arms => by
    intro waits s frames
    have same := p.matchesPat_state v pat s
    rw [evalArms]
    cases run : p.matchesPat v pat s with
    | mk r s' =>
      obtain rfl : s' = s := by rwa [run] at same
      cases r with
      | error err =>
        rw [Eval.over, Eval.bind_error run]
        refine .step ?_ frames
        rw [step, stepArms, run]
      | ok hit =>
        rw [Eval.over, Eval.bind_ok run]
        cases hit with
        | true =>
          refine (Walks.step ?_ frames).trans (evalExpr_completes e waits s' frames)
          rw [step, stepArms, run]
        | false =>
          refine (Walks.step ?_ frames).trans (evalArms_completes v arms waits s' frames)
          rw [step, stepArms, run]

theorem evalStmts_completes : ∀ (ss : List (Stmt Mark)) (tail : Option (Expr Mark)),
    (∀ e, tail = some e → p.Completes (.expr e) (p.evalExpr (p.call n) e) k) →
    p.Completes (.stmts ss tail)
      (p.evalStmts (p.call n) ss >>= fun _ => p.evalTail (p.call n) tail) k
  | [], none, _ => .still (fun _ => rfl) fun _ _ => rfl
  | [], some e, last => .goes (fun _ _ => rfl) (last e rfl)
  | .val ⟨m, _, _, _, e⟩ :: ss, tail, last => by
    rw [evalStmts, evalStmt, bind_assoc, bind_assoc]
    refine .bind (fun _ _ => rfl) nofun (p.evalExpr_growing (p.call_growing n) e)
      (evalExpr_completes e) fun v waits s frames => ?_
    rw [stepValue]
    cases p.symbolAt? m.id with
    | none => exact evalStmts_completes ss tail last waits s frames
    | some x =>
      exact evalStmts_completes ss tail last waits (Eval.declare x v s).2
        (((Eval.Growing.declare x v).length s).trans frames)
  | .expr _ e :: ss, tail, last => by
    rw [evalStmts, evalStmt, bind_assoc, bind_assoc]
    refine .bind (fun _ _ => rfl) nofun (p.evalExpr_growing (p.call_growing n) e)
      (evalExpr_completes e) fun v waits s frames => ?_
    exact evalStmts_completes ss tail last waits s frames
  | .typeAlias _ :: ss, tail, last => .goes (fun _ _ => rfl) (evalStmts_completes ss tail last)
  | .fn _ :: ss, tail, last => .goes (fun _ _ => rfl) (evalStmts_completes ss tail last)
end

end

/-- Every expression is evaluated in finitely many steps, with as many calls as there is room
for. -/
theorem completes (p : Plan) (e : Expr Mark) (k : Nat) :
    p.Completes (.expr e) (p.evalExpr (p.call (p.options.maxCallDepth + 1 - k)) e) k := by
  -- By induction on the calls that are left; what is given here is that there are as many.
  generalize count : p.options.maxCallDepth + 1 - k = n
  induction n generalizing e k with
  | zero => exact evalExpr_completes count.symm nofun e
  | succ n ih =>
    refine evalExpr_completes count.symm ?_ e
    rintro _ ⟨⟩ e
    exact ih e (k + 1) (by omega)

/-- The run of a program ends as evaluation does. -/
theorem start_walks (p : Plan) :
    p.Walks 1 p.start ((p.run >>= fun _ => return .unit).over [] p.begin.machine) := by
  refine evalStmts_completes rfl ?_ p.program.stmts none nofun [] p.begin.machine rfl
  intro n fits e
  obtain rfl : n = p.options.maxCallDepth + 1 - 2 := by omega
  exact p.completes e 2

/-! ### Frames at every moment -/

theorem Walks.steps {m m' : Moment} (walks : p.Walks k m m') : p.Steps m m' :=
  Relation.ReflTransGen.mono (fun _ _ => And.left) _ _ walks

/-- Whatever is reached lies on the way to the end. -/
theorem Walks.frames_le {m last m' : Moment} (walks : p.Walks k m last)
    (ended : p.step last = none) (few : m.frames.length ≤ max k (p.options.maxCallDepth + 1))
    (steps : p.Steps m m') : m'.frames.length ≤ max k (p.options.maxCallDepth + 1) := by
  induction walks using Relation.ReflTransGen.head_induction_on with
  | refl =>
    rcases steps.cases_head with rfl | ⟨m₁, step, -⟩
    · exact few
    · cases ended.symm.trans step
  | head first _ ih =>
    obtain ⟨step, -, few₁⟩ := first
    rcases steps.cases_head with rfl | ⟨m₁, step₁, later⟩
    · exact few
    · obtain rfl := Option.some.inj (step.symm.trans step₁)
      exact ih few₁ later

/-- Frames after a step. -/
inductive Touches (p : Plan) (m m' : Moment) : Prop
  | same (frames : m'.frames = m.frames)
  | push (f : Frame) (frames : m'.frames = f :: m.frames)
  | pop (frames : m'.frames = m.frames.tail)
  | declare (x : SymbolId) (v : Literal)
      (frames : m'.frames = (Eval.declare x v m.machine).2.frames)
  | assign {y : Ident Mark} {v : Literal} {waits : List Wait} {x : SymbolId}
      (focus : m.focus = .over (.ok v)) (waiting : m.waits = .assign y :: waits)
      (target : p.symbolAt? y.mark.id = some x)
      (written : writeFrames x v m.frames = some m'.frames)

theorem apply_frames (symbol : String) (result : Except OpError Literal) (s : Machine) :
    (Eval.apply symbol result s).2.frames = s.frames := by
  cases result with
  | error e => cases e <;> rfl
  | ok v => cases v <;> rfl

theorem stepValue_touches (waits : List Wait) (s : Machine) (v : Literal) (w : Wait) :
    p.Touches ⟨.over (.ok v), w :: waits, s⟩ (p.stepValue waits s v w) := by
  cases w with
  | unary op => exact .same (apply_frames _ _ s)
  | right op u => exact .same (apply_frames _ _ s)
  | left op b =>
    rw [stepValue]
    split <;> exact .same rfl
  | leave => exact .pop rfl
  | init m ss tail =>
    rw [stepValue]
    split
    · exact .declare _ v rfl
    · exact .same rfl
  | assign y =>
    cases target : p.symbolAt? y.mark.id with
    | none =>
      have failed : p.write y v s = (.error (.unresolved y.mark.span), s) := by
        unfold write
        rw [target]
        rfl
      rw [stepValue, Eval.over, Eval.bind_error failed]
      exact .same rfl
    | some x =>
      have result := p.write_apply target v s
      cases written : writeFrames x v s.frames with
      | none =>
        rw [written] at result
        rw [stepValue, Eval.over, Eval.bind_error result]
        exact .same rfl
      | some frames =>
        rw [written] at result
        rw [stepValue, Eval.over, Eval.bind_ok result]
        exact .assign rfl rfl target written
  | _ => exact .same rfl

theorem stepExpr_frames (waits : List Wait) (s : Machine) (e : Expr Mark) :
    (p.stepExpr waits s e).frames = s.frames := by
  cases e with
  | name x => exact congrArg Machine.frames (p.read_state x s)
  | inhabitant m t =>
    rw [stepExpr]
    split <;> rfl
  | _ => rfl

theorem stepCall_touches (waits : List Wait) (s : Machine) (m : Mark) (f : Ident Mark)
    (vs : List Literal) : p.Touches ⟨.args m f vs [], waits, s⟩ (p.stepCall waits s m f vs) := by
  unfold stepCall
  split
  · exact .same rfl
  · split
    · exact .same rfl
    · split
      · exact .same rfl
      · exact .push _ rfl

theorem step_touches {m m' : Moment} (step : p.step m = some m') : p.Touches m m' := by
  unfold Plan.step at step
  split at step
  · cases step
  · cases step
    exact stepValue_touches _ _ _ _
  · next e w waits s =>
    cases step
    cases w with
    | leave => exact .pop rfl
    | _ => exact .same rfl
  · next e waits s =>
    split at step
    · cases step
      exact .same rfl
    · cases step
      exact .same (stepExpr_frames _ _ e)
  · cases step
    exact stepCall_touches _ _ _ _ _
  · cases step
    exact .same rfl
  · next v arms waits s =>
    cases step
    refine .same ?_
    unfold stepArms
    split
    · rfl
    · split <;> rfl
  · next ss tail waits s =>
    cases step
    refine .same ?_
    unfold stepStmts
    split
    · split <;> rfl
    all_goals rfl

/-! ### Slots at every moment -/

theorem slot?_written {y : SymbolId} {w : Literal} {frames frames' : List Frame}
    (written : writeFrames y w frames = some frames') (a : Nat) (x : SymbolId) :
    slot? a x frames' = slot? a x frames ∨ slot? a x frames' = some w := by
  induction frames generalizing frames' with
  | nil => cases written
  | cons f outer ih =>
    have count := (slot?_write written).1
    rw [writeFrames] at written
    split at written
    · cases written
      rw [slot?, slot?]
      split
      · rw [Table.find?_insert]
        split
        · exact .inr rfl
        · exact .inl rfl
      · exact .inl rfl
    · obtain ⟨rest, inner, rfl⟩ := Option.map_eq_some_iff.mp written
      rw [slot?, slot?, Nat.succ.inj count]
      split
      · exact .inl rfl
      · exact ih inner

/-- Below the innermost frame, a step changes a slot by an assignment only. -/
theorem step_slot {m m' : Moment} {a : Nat} (x : SymbolId) (step : p.step m = some m')
    (low : a + 1 < m.frames.length) (there : a < m'.frames.length) :
    slot? a x m'.frames = slot? a x m.frames ∨ p.Assigns a x m m' := by
  cases step_touches step with
  | same frames => exact .inl (by rw [frames])
  | push f frames =>
    left
    rw [frames, slot?_below f x (by omega)]
  | pop frames =>
    left
    cases known : m.frames with
    | nil => rw [frames, known]; rfl
    | cons f outer =>
      rw [frames, known, List.tail_cons] at there ⊢
      rw [slot?_below f x (Nat.ne_of_lt there)]
  | declare y v frames =>
    left
    cases known : m.frames with
    | nil => rw [known] at low; cases low
    | cons f outer =>
      have below : a ≠ outer.length := by
        rw [known, List.length_cons] at low
        omega
      rw [frames, Eval.declare_frames y v known, slot?_below _ x below, slot?_below f x below]
  | @assign y v waits z focus waiting target written =>
    by_cases same : slot? a x m'.frames = slot? a x m.frames
    · exact .inl same
    · have value := (slot?_written written a x).resolve_left same
      obtain ⟨-, kept⟩ := slot?_write written
      obtain rfl : x = z := Classical.not_not.mp fun other => same ((kept a x).2 other)
      refine .inr ⟨step, y, v, waits, focus, waiting, target, ?_, value⟩
      rw [← (kept a x).1, value]
      rfl

/-- Below the frame that an evaluation begins in, the slots stay, and a new value is assigned. -/
theorem Walks.slot {m m' : Moment} {a : Nat} (walks : p.Walks k m m') (low : a + 1 < k)
    (there : k ≤ m.frames.length) (x : SymbolId) :
    (slot? a x m'.frames).isSome = (slot? a x m.frames).isSome ∧
      (slot? a x m'.frames = slot? a x m.frames ∨ ∃ m₁ m₂, p.Steps m m₁ ∧ p.Assigns a x m₁ m₂ ∧
        p.Steps m₂ m' ∧ slot? a x m₂.frames = slot? a x m'.frames) := by
  suffices whole : k ≤ m'.frames.length ∧ _ from whole.2
  induction walks with
  | refl => exact ⟨there, rfl, .inl rfl⟩
  | @tail m₁ m₂ before last ih =>
    obtain ⟨step, many, -⟩ := last
    obtain ⟨there₁, held, same⟩ := ih
    refine ⟨many, ?_⟩
    rcases step_slot (a := a) x step (by omega) (by omega) with kept | assigns
    · rw [kept]
      refine ⟨held, same.imp id ?_⟩
      rintro ⟨n₁, n₂, earlier, assigns, later, value⟩
      exact ⟨n₁, n₂, earlier, assigns, later.tail step, value⟩
    · obtain ⟨-, y, v, waits, -, -, -, was, now⟩ := id assigns
      refine ⟨?_, .inr ⟨m₁, m₂, Walks.steps before, assigns, .refl, rfl⟩⟩
      rw [now, ← held, was]
      rfl

end

end Plan

/-- The calls that are left and the frames that are there add up to the same number. -/
theorem Plan.Enters.sum_eq {p : Plan} {c c' : Config} (enters : p.Enters c c') :
    c'.left + c'.machine.frames.length = c.left + c.machine.frames.length := by
  have bodies := p.call_growing c.left
  cases enters with
  | right _ first => rw [((p.evalExpr_growing bodies _).run first).length_eq]
  | tail _ first => rw [((p.evalStmts_growing bodies _).run first).length_eq]
  | arms _ first => rw [((p.evalExpr_growing bodies _).run first).length_eq]
  | nextArgs first => rw [((p.evalExpr_growing bodies _).run first).length_eq]
  | nextStmts first => rw [((p.evalStmt_growing bodies _).run first).length_eq]
  | @arm n s s' m a e arms v first =>
    rw [← p.matchesPat_state v a s, first]
  | @nextArms n s s' m a e arms v first =>
    rw [← p.matchesPat_state v a s, first]
  | @body n s s' m f args vs sig _ first =>
    have same := ((p.evalExprs_growing bodies _).run first).length_eq
    simp only [List.length_cons] at same ⊢
    omega
  | _ => rfl

theorem Plan.Reached.sum_eq {p : Plan} {c : Config} (reached : p.Reached c) :
    c.left + c.machine.frames.length = p.options.maxCallDepth + 1 := by
  induction reached with
  | refl => rfl
  | tail _ enters ih => rw [enters.sum_eq, ih]

def Moment.outcome (m : Moment) : Outcome where
  output := m.machine.printed.reverse
  error := match m.focus with
    | .over (.error e) => some e
    | .over (.ok _) => none
    | _ => none
  names := m.machine.names

theorem Plan.outcome_eq (p : Plan) :
    p.outcome = ((p.run >>= fun _ => return .unit).over [] p.begin.machine).outcome := by
  have run : p.run.run ⟨[.empty], [], p.checker.names⟩ = p.run p.begin.machine := rfl
  rw [Plan.outcome, run, Eval.over, Eval.bind_apply]
  cases p.run p.begin.machine with
  | mk r s => cases r <;> rfl

/-- Every run ends, step by step as it does in evaluation; at no moment there are more frames than
one for each call that the limit allows and one for the program. Every evaluation of an expression
ends too, from whatever state. It leaves as many frames as it found, whether it has a value or
fails, and below the innermost one the same slots, whose values change by assignments only. -/
theorem run_ends_balanced (p : Plan) :
    (∃ last, p.Steps p.start last ∧ p.step last = none ∧ p.outcome = last.outcome) ∧
      (∀ m, p.Steps p.start m → m.frames.length ≤ p.options.maxCallDepth + 1) ∧
      (∀ c, p.Reached c → c.left + c.machine.frames.length = p.options.maxCallDepth + 1) ∧
      ∀ (e : Expr Mark) (waits : List Wait) (s : Machine),
        let ended := (p.evalExpr (p.call (p.room s)) e).over waits s
        p.Steps ⟨.expr e, waits, s⟩ ended ∧ ended.frames.length = s.frames.length ∧
          ∀ a x, a + 1 < s.frames.length →
            (slot? a x ended.frames).isSome = (slot? a x s.frames).isSome ∧
            (slot? a x ended.frames ≠ slot? a x s.frames → ∃ m m',
              p.Steps ⟨.expr e, waits, s⟩ m ∧ p.Assigns a x m m' ∧ p.Steps m' ended ∧
              slot? a x m'.frames = slot? a x ended.frames) := by
  have walks := p.start_walks
  refine ⟨⟨_, walks.steps, rfl, p.outcome_eq⟩, ?_, fun c reached => reached.sum_eq, ?_⟩
  · intro m steps
    have few := walks.frames_le rfl (Nat.le_max_left _ _) steps
    omega
  · intro e waits s
    have walks := p.completes e s.frames.length waits s rfl
    refine ⟨walks.steps, (p.evalExpr_growing (p.call_growing _) e).length s, fun a x low => ?_⟩
    obtain ⟨held, same⟩ := walks.slot low (Nat.le_refl _) x
    exact ⟨held, same.resolve_left⟩

end Solo

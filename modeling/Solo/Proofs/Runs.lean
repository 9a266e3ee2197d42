import Mathlib.Logic.Relation
import Solo.Evaluation
import Solo.Proofs.Operators

/-!
# Runs

Evaluation goes along the syntax tree, so a run has no single steps. What it has are the evaluations
inside each other: `Enters` says which evaluation is begun from which, with the state it begins in,
and `Reached` says which are begun at all during a run. Statements about a whole run are proved
from what each evaluation keeps.
-/

namespace Solo

inductive Task where
  | expr (e : Expr Mark)
  | exprs (es : List (Expr Mark))
  | tail (e : Option (Expr Mark))
  | arms (v : Literal) (arms : List (Arm Mark))
  | stmt (s : Stmt Mark)
  | stmts (ss : List (Stmt Mark))

def Task.expr? : Task → Option (Expr Mark)
  | .expr e => some e
  | _ => none

theorem Task.expr?_eq_some {t : Task} {e : Expr Mark} (same : t.expr? = some e) : t = .expr e := by
  cases t <;> cases same
  rfl

structure Config where
  /-- How many calls are left. -/
  left : Nat
  task : Task
  machine : Machine

namespace Plan

variable (p : Plan)

/-- The state after an evaluation, whether it succeeds or fails. -/
def after (c : Config) : Machine :=
  match c.task with
  | .expr e => (p.evalExpr (p.call c.left) e c.machine).2
  | .exprs es => (p.evalExprs (p.call c.left) es c.machine).2
  | .tail e => (p.evalTail (p.call c.left) e c.machine).2
  | .arms v arms => (p.evalArms (p.call c.left) v arms c.machine).2
  | .stmt s => (p.evalStmt (p.call c.left) s c.machine).2
  | .stmts ss => (p.evalStmts (p.call c.left) ss c.machine).2

/-- An evaluation begins another one. -/
inductive Enters : Config → Config → Prop
  | paren {n : Nat} {s : Machine} {m : Mark} {e : Expr Mark} (kept : p.folds.find? m.id = none) :
    Enters ⟨n, .expr (.paren m e), s⟩ ⟨n, .expr e, s⟩
  | unary {n : Nat} {s : Machine} {m : Mark} {op : UnaryOp} {e : Expr Mark}
      (kept : p.folds.find? m.id = none) : Enters ⟨n, .expr (.unary m op e), s⟩ ⟨n, .expr e, s⟩
  | left {n : Nat} {s : Machine} {m : Mark} {op : BinOp} {a b : Expr Mark}
      (kept : p.folds.find? m.id = none) : Enters ⟨n, .expr (.bin m op a b), s⟩ ⟨n, .expr a, s⟩
  | right {n : Nat} {s s' : Machine} {m : Mark} {op : BinOp} {a b : Expr Mark} {v : Literal}
      (kept : p.folds.find? m.id = none) (first : p.evalExpr (p.call n) a s = (.ok v, s'))
      (both : ¬op.Short v) : Enters ⟨n, .expr (.bin m op a b), s⟩ ⟨n, .expr b, s'⟩
  | args {n : Nat} {s : Machine} {m : Mark} {f : Ident Mark} {args : List (Expr Mark)}
      (kept : p.folds.find? m.id = none) :
    Enters ⟨n, .expr (.call m f args), s⟩ ⟨n, .exprs args, s⟩
  | body {n : Nat} {s s' : Machine} {m : Mark} {f : Ident Mark} {args : List (Expr Mark)}
      {vs : List Literal} {sig : Signature} (kept : p.folds.find? m.id = none)
      (first : p.evalExprs (p.call (n + 1)) args s = (.ok vs, s'))
      (own : (p.symbolAt? f.mark.id).any (fun x => (p.symbol x).role = .builtin) = false)
      (found : p.checker.signatures.find? m.id = some sig) :
    Enters ⟨n + 1, .expr (.call m f args), s⟩
      ⟨n, .expr sig.decl.body, { s' with frames := p.frameOf sig.decl vs :: s'.frames }⟩
  | block {n : Nat} {s : Machine} {m : Mark} {ss : List (Stmt Mark)} {tail : Option (Expr Mark)}
      (kept : p.folds.find? m.id = none) :
    Enters ⟨n, .expr (.block m ss tail), s⟩ ⟨n, .stmts ss, s⟩
  | tail {n : Nat} {s s' : Machine} {m : Mark} {ss : List (Stmt Mark)} {tail : Option (Expr Mark)}
      (kept : p.folds.find? m.id = none) (first : p.evalStmts (p.call n) ss s = (.ok (), s')) :
    Enters ⟨n, .expr (.block m ss tail), s⟩ ⟨n, .tail tail, s'⟩
  | assign {n : Nat} {s : Machine} {m : Mark} {x : Ident Mark} {e : Expr Mark}
      (kept : p.folds.find? m.id = none) : Enters ⟨n, .expr (.assign m x e), s⟩ ⟨n, .expr e, s⟩
  | scrutinee {n : Nat} {s : Machine} {m : Mark} {e : Expr Mark} {arms : List (Arm Mark)}
      (kept : p.folds.find? m.id = none) : Enters ⟨n, .expr (.cases m e arms), s⟩ ⟨n, .expr e, s⟩
  | arms {n : Nat} {s s' : Machine} {m : Mark} {e : Expr Mark} {arms : List (Arm Mark)} {v : Literal}
      (kept : p.folds.find? m.id = none) (first : p.evalExpr (p.call n) e s = (.ok v, s')) :
    Enters ⟨n, .expr (.cases m e arms), s⟩ ⟨n, .arms v arms, s'⟩
  | arg {n : Nat} {s : Machine} {e : Expr Mark} {es : List (Expr Mark)} :
    Enters ⟨n, .exprs (e :: es), s⟩ ⟨n, .expr e, s⟩
  | nextArgs {n : Nat} {s s' : Machine} {e : Expr Mark} {es : List (Expr Mark)} {v : Literal}
      (first : p.evalExpr (p.call n) e s = (.ok v, s')) :
    Enters ⟨n, .exprs (e :: es), s⟩ ⟨n, .exprs es, s'⟩
  | last {n : Nat} {s : Machine} {e : Expr Mark} : Enters ⟨n, .tail (some e), s⟩ ⟨n, .expr e, s⟩
  | arm {n : Nat} {s s' : Machine} {m : Mark} {q : Pat Mark} {e : Expr Mark} {arms : List (Arm Mark)}
      {v : Literal} (first : p.matchesPat v q s = (.ok true, s')) :
    Enters ⟨n, .arms v (⟨m, q, e⟩ :: arms), s⟩ ⟨n, .expr e, s'⟩
  | nextArms {n : Nat} {s s' : Machine} {m : Mark} {q : Pat Mark} {e : Expr Mark}
      {arms : List (Arm Mark)} {v : Literal} (first : p.matchesPat v q s = (.ok false, s')) :
    Enters ⟨n, .arms v (⟨m, q, e⟩ :: arms), s⟩ ⟨n, .arms v arms, s'⟩
  | init {n : Nat} {s : Machine} {d : ValDecl Mark} :
    Enters ⟨n, .stmt (.val d), s⟩ ⟨n, .expr d.init, s⟩
  | effect {n : Nat} {s : Machine} {m : Mark} {e : Expr Mark} :
    Enters ⟨n, .stmt (.expr m e), s⟩ ⟨n, .expr e, s⟩
  | stmt {n : Nat} {s : Machine} {t : Stmt Mark} {ss : List (Stmt Mark)} :
    Enters ⟨n, .stmts (t :: ss), s⟩ ⟨n, .stmt t, s⟩
  | nextStmts {n : Nat} {s s' : Machine} {t : Stmt Mark} {ss : List (Stmt Mark)}
      (first : p.evalStmt (p.call n) t s = (.ok (), s')) :
    Enters ⟨n, .stmts (t :: ss), s⟩ ⟨n, .stmts ss, s'⟩

def begin : Config :=
  ⟨p.options.maxCallDepth, .stmts p.program.stmts, ⟨[.empty], [], p.checker.names⟩⟩

/-- An evaluation that is begun during the run of a program. -/
def Reached (c : Config) : Prop := Relation.ReflTransGen p.Enters p.begin c

end Plan

/-! ### Ways into a run -/

namespace Plan

variable (p : Plan)

/-- The first evaluation that an expression begins, or the one that follows it. -/
def enterExpr? (n : Nat) (s : Machine) : Expr Mark → Bool → Option Config
  | .paren _ e, false | .unary _ _ e, false | .assign _ _ e, false | .cases _ e _, false
  | .bin _ _ e _, false => some ⟨n, .expr e, s⟩
  | .call _ _ args, false => some ⟨n, .exprs args, s⟩
  | .block _ ss _, false => some ⟨n, .stmts ss, s⟩
  | .bin _ op a b, true =>
    match p.evalExpr (p.call n) a s with
    | (.ok v, s') =>
      if (op = .and ∧ v = .bool false) ∨ (op = .or ∧ v = .bool true) then none
      else some ⟨n, .expr b, s'⟩
    | _ => none
  | .call m f args, true =>
    match n with
    | 0 => none
    | n + 1 =>
      match p.evalExprs (p.call (n + 1)) args s, p.checker.signatures.find? m.id with
      | (.ok vs, s'), some sig =>
        if (p.symbolAt? f.mark.id).any fun x => (p.symbol x).role = .builtin then none
        else
          some ⟨n, .expr sig.decl.body, { s' with frames := p.frameOf sig.decl vs :: s'.frames }⟩
      | _, _ => none
  | .block _ ss tail, true =>
    match p.evalStmts (p.call n) ss s with
    | (.ok (), s') => some ⟨n, .tail tail, s'⟩
    | _ => none
  | .cases _ e arms, true =>
    match p.evalExpr (p.call n) e s with
    | (.ok v, s') => some ⟨n, .arms v arms, s'⟩
    | _ => none
  | _, _ => none

/-- The first evaluation that another one begins, or the one that follows it. -/
def enter? (c : Config) (later : Bool) : Option Config :=
  match c.task, later with
  | .expr e, _ => if (p.folds.find? e.id).isSome then none else p.enterExpr? c.left c.machine e later
  | .exprs (e :: _), false => some { c with task := .expr e }
  | .exprs (e :: es), true =>
    match p.evalExpr (p.call c.left) e c.machine with
    | (.ok _, s') => some ⟨c.left, .exprs es, s'⟩
    | _ => none
  | .tail (some e), false => some { c with task := .expr e }
  | .arms v (⟨_, q, e⟩ :: arms), _ =>
    match p.matchesPat v q c.machine with
    | (.ok true, s') => if later then none else some ⟨c.left, .expr e, s'⟩
    | (.ok false, s') => if later then some ⟨c.left, .arms v arms, s'⟩ else none
    | _ => none
  | .stmt (.val d), false => some { c with task := .expr d.init }
  | .stmt (.expr _ e), false => some { c with task := .expr e }
  | .stmts (t :: _), false => some { c with task := .stmt t }
  | .stmts (t :: ts), true =>
    match p.evalStmt (p.call c.left) t c.machine with
    | (.ok (), s') => some ⟨c.left, .stmts ts, s'⟩
    | _ => none
  | _, _ => none

variable {p} {c c' : Config} {later : Bool}

theorem enterExpr?_enters {n : Nat} {s : Machine} {e : Expr Mark}
    (kept : p.folds.find? e.id = none) (enters : p.enterExpr? n s e later = some c') :
    p.Enters ⟨n, .expr e, s⟩ c' := by
  unfold enterExpr? at enters
  split at enters
  · cases enters; exact .paren kept
  · cases enters; exact .unary kept
  · cases enters; exact .assign kept
  · cases enters; exact .scrutinee kept
  · cases enters; exact .left kept
  · cases enters; exact .args kept
  · cases enters; exact .block kept
  · split at enters
    · next first =>
      split at enters
      · cases enters
      · next both => cases enters; exact .right kept first both
    · cases enters
  · split at enters
    · cases enters
    · split at enters
      · next first found =>
        split at enters
        · cases enters
        · next own => cases enters; exact .body kept first ((Bool.not_eq_true _).mp own) found
      · cases enters
  · split at enters
    · next first => cases enters; exact .tail kept first
    · cases enters
  · split at enters
    · next first => cases enters; exact .arms kept first
    · cases enters
  · cases enters

theorem enter?_enters (enters : p.enter? c later = some c') : p.Enters c c' := by
  obtain ⟨n, task, s⟩ := c
  unfold enter? at enters
  dsimp only at enters
  split at enters
  · split at enters
    · cases enters
    · next kept => exact enterExpr?_enters (by simpa using kept) enters
  · cases enters; exact .arg
  · split at enters
    · next first => cases enters; exact .nextArgs first
    · cases enters
  · cases enters; exact .last
  · split at enters
    · next first =>
      split at enters
      · cases enters
      · cases enters; exact .arm first
    · next first =>
      split at enters
      · cases enters; exact .nextArms first
      · cases enters
    · cases enters
  · cases enters; exact .init
  · cases enters; exact .effect
  · cases enters; exact .stmt
  · split at enters
    · next first => cases enters; exact .nextStmts first
    · cases enters
  · cases enters

/-- A run goes on into an evaluation along a path. -/
theorem Reached.path {cs : List Bool} (reached : p.Reached c)
    (leads : cs.foldlM p.enter? c = some c') : p.Reached c' := by
  induction cs generalizing c with
  | nil =>
    cases leads
    exact reached
  | cons later cs ih =>
    obtain ⟨c₁, enters, rest⟩ := Option.bind_eq_some_iff.mp leads
    exact ih (reached.tail (enter?_enters enters)) rest

end Plan

/-! ### Names in a run -/

theorem Plan.lookup_apply (p : Plan) (x : SymbolId) (s : Machine) :
    p.lookup x s = match lookFrames x s.frames with
      | some v => (.ok v, s)
      | none => (.error (.uninitialized (p.nameOf x)), s) := by
  change (match lookFrames x s.frames with | some v => _ | none => _ : Eval Literal) s = _
  cases lookFrames x s.frames <;> rfl

theorem Plan.write_apply {p : Plan} {x : Ident Mark} {y : SymbolId}
    (target : p.symbolAt? x.mark.id = some y) (v : Literal) (s : Machine) :
    p.write x v s = match writeFrames y v s.frames with
      | some frames => (.ok (), { s with frames })
      | none => (.error (.uninitialized (p.nameOf y)), s) := by
  unfold Plan.write
  rw [target]
  change (match writeFrames y v s.frames with | some v => _ | none => _ : Eval Unit) s = _
  cases writeFrames y v s.frames <;> rfl

/-! ### A logic of evaluation -/

/-- An evaluation that keeps what holds of the state, and whose value satisfies `Q`. -/
def Eval.Keeps {α : Type} (I : Machine → Prop) (a : Eval α) (Q : α → Prop) : Prop :=
  ∀ s, I s → I (a s).2 ∧ ∀ x, (a s).1 = .ok x → Q x

namespace Eval

variable {α β : Type}

theorem bind_apply (a : Eval α) (f : α → Eval β) (s : Machine) :
    (a >>= f) s = match a s with
      | (.ok x, s') => f x s'
      | (.error e, s') => (.error e, s') := by
  change (ExceptT.bindCont f (a s).1) (a s).2 = _
  cases a s with
  | mk r s' => cases r <;> rfl

theorem bind_ok {a : Eval α} {f : α → Eval β} {s s' : Machine} {x : α} (run : a s = (.ok x, s')) :
    (a >>= f) s = f x s' := by
  rw [bind_apply, run]

theorem bind_error {a : Eval α} {f : α → Eval β} {s s' : Machine} {e : EvalError}
    (run : a s = (.error e, s')) : (a >>= f) s = (.error e, s') := by
  rw [bind_apply, run]

namespace Keeps

variable {I : Machine → Prop} {a : Eval α} {Q Q' : α → Prop} {R : β → Prop}

theorem pure {x : α} (holds : Q x) : Eval.Keeps I (Pure.pure x) Q := by
  intro s inv
  refine ⟨inv, fun y same => ?_⟩
  cases same
  exact holds

theorem throw (e : EvalError) : Eval.Keeps I (MonadExcept.throw e : Eval α) Q :=
  fun _ inv => ⟨inv, nofun⟩

theorem bind {f : α → Eval β} (first : Eval.Keeps I a Q) (rest : ∀ x, Q x → Eval.Keeps I (f x) R) :
    Eval.Keeps I (a >>= f) R := by
  intro s inv
  obtain ⟨inv₁, holds₁⟩ := first s inv
  cases run : a s with
  | mk r s' =>
    rw [run] at inv₁ holds₁
    cases r with
    | error e =>
      rw [Eval.bind_error run]
      exact ⟨inv₁, nofun⟩
    | ok x =>
      rw [Eval.bind_ok run]
      exact rest x (holds₁ x rfl) s' inv₁

theorem weaken (keeps : Eval.Keeps I a Q) (gives : ∀ x, Q x → Q' x) : Eval.Keeps I a Q' := by
  intro s inv
  obtain ⟨inv₁, holds⟩ := keeps s inv
  exact ⟨inv₁, fun x same => gives x (holds x same)⟩

theorem modify {f : Machine → Machine} (keeps : ∀ s, I s → I (f s)) :
    Eval.Keeps I (modify f : Eval Unit) fun _ => True :=
  fun s inv => ⟨keeps s inv, fun _ _ => trivial⟩

end Keeps

end Eval

end Solo

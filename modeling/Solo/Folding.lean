import Solo.Checker.Purity

/-!
# Folding

Folding finds the expressions whose value is known before the program runs: inhabitant
expressions, and calls whose result type has one value and that can be left out because they are
pure. The arguments of a folded call are not folded.
-/

namespace Solo

/-- How many expressions were folded, and how many calls with a singleton result were kept. -/
structure FoldStats where
  inhabitants : Nat := 0
  calls : Nat := 0
  retained : Nat := 0
deriving DecidableEq

structure Folding where
  values : Table NodeId Literal := .empty
  stats : FoldStats := {}

abbrev Fold := StateT Folding Check

inductive RetainReason where
  | disabled
  | noInhabitant
  | impureArgument
  | impureBody
  | mayReadUninitialized
deriving DecidableEq

namespace Fold

def inhabitant (node : NodeId) (v : Literal) : Fold Unit :=
  modify fun f =>
    { values := f.values.insert node v
      stats := { f.stats with inhabitants := f.stats.inhabitants + 1 } }

def call (node : NodeId) (v : Literal) : Fold Unit :=
  modify fun f =>
    { values := f.values.insert node v, stats := { f.stats with calls := f.stats.calls + 1 } }

def retain : Fold Unit :=
  modify fun f => { f with stats := { f.stats with retained := f.stats.retained + 1 } }

end Fold

namespace Resolver

variable (r : Resolver)

def callValue (owner : Option (FnDecl Mark)) (call : Expr Mark) (args : List (Expr Mark))
    (sig : Signature) : Check (Except RetainReason Literal) := do
  if !r.options.foldSingletonCalls then return .error .disabled
  match ← r.inhabitant sig.result with
  | .error _ => return .error .noInhabitant
  | .ok w =>
    if !(← args.allM (r.isPureWithin owner)) then return .error .impureArgument
    if !(← r.fnIsPure sig.decl) then return .error .impureBody
    -- the body may read bindings declared after this call
    if !(← r.isPureWithin owner call) then return .error .mayReadUninitialized
    return .ok w.value

/-- Folds a call if its overload has a singleton result; says whether it did. -/
def foldCall (owner : Option (FnDecl Mark)) (m : Mark) (f : Ident Mark) (args : List (Expr Mark)) :
    Fold Bool := do
  match (← getThe Checker).signatures.find? m.id with
  | none => return false
  | some sig =>
    if !sig.result.isSingleton then return false
    match ← r.callValue owner (.call m f args) args sig with
    | .ok v =>
      Fold.call m.id v
      return true
    | .error _ =>
      Fold.retain
      return false

mutual
def foldExpr (owner : Option (FnDecl Mark)) : Expr Mark → Fold Unit
  | .lit _ => return
  | .name _ => return
  | .host _ _ => return
  | .paren _ e => foldExpr owner e
  | .unary _ _ e => foldExpr owner e
  | .bin _ _ a b => do
    foldExpr owner a
    foldExpr owner b
  | .block _ ss tail => do
    foldStmts owner ss
    foldTail owner tail
  | .assign _ _ e => foldExpr owner e
  | .cases _ e arms => do
    foldExpr owner e
    foldArms owner arms
  | .inhabitant m _ => do
    match (← getThe Checker).witnesses.find? m.id with
    | some w => Fold.inhabitant m.id w.value
    | none => return
  | .call m f args => do
    if !(← r.foldCall owner m f args) then foldExprs owner args

def foldExprs (owner : Option (FnDecl Mark)) : List (Expr Mark) → Fold Unit
  | [] => return
  | e :: es => do
    foldExpr owner e
    foldExprs owner es

def foldTail (owner : Option (FnDecl Mark)) : Option (Expr Mark) → Fold Unit
  | none => return
  | some e => foldExpr owner e

def foldArms (owner : Option (FnDecl Mark)) : List (Arm Mark) → Fold Unit
  | [] => return
  | ⟨_, _, e⟩ :: arms => do
    foldExpr owner e
    foldArms owner arms

def foldStmt (owner : Option (FnDecl Mark)) : Stmt Mark → Fold Unit
  | .val ⟨_, _, _, _, e⟩ => foldExpr owner e
  | .fn ⟨m, name, params, result, e⟩ => foldExpr (some ⟨m, name, params, result, e⟩) e
  | .expr _ e => foldExpr owner e
  | .typeAlias _ => return

def foldStmts (owner : Option (FnDecl Mark)) : List (Stmt Mark) → Fold Unit
  | [] => return
  | s :: ss => do
    foldStmt owner s
    foldStmts owner ss
end

end Resolver

def Context.fold (cx : Context) : Check Folding := do
  let ((), folding) ← (cx.resolver.foldStmts none cx.program.stmts).run {}
  return folding

end Solo

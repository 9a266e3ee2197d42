import Solo.Checker.Typing

/-!
# Purity

A cautious judgement: a pure expression prints nothing, assigns nothing, cannot fail and ends. Calls
are judged by the overload they are resolved to, and recursion counts as impure.

Declarations are visible before they run, so reading a binding is pure only where its declaration
ends before the read begins. Inside a function this is known for the function's own bindings only.
While a function itself is judged, its reads of other bindings are collected instead, and each
call then answers for them.
-/

namespace Solo

/-- A judgement inside a function or, without an owner, at the top level. The state holds the reads
of bindings from outside the owner while they are collected. -/
abbrev Judge := StateT (Option (List SymbolId)) Check

/-- Goes on only if the first judgement is good. -/
def Judge.andThen (a b : Judge Bool) : Judge Bool := do
  if ← a then b else return false

def Check.outerReads (d : FnDecl Mark) : Check (List SymbolId) := do
  match (← get).purities.find? d.mark.id with
  | some (.pure reads) => return reads
  | _ => return []

namespace Resolver

variable (r : Resolver)

/-- Whether reading a binding at a place finds it initialized. -/
def readIsPure (owner : Option (FnDecl Mark)) (x : SymbolId) (place : Span) : Judge Bool := do
  let s := r.symbol x
  match s.role.isBinding, s.decls.head? with
  | true, some d =>
    let span := d.mark.span
    if owner.all fun f => span.within f.mark.span then return span.hi ≤ place.lo
    match ← get with
    | some reads =>
      if !reads.contains x then set (some (reads ++ [x]))
      return true
    | none => return false
  | _, _ => return false

def isNonZeroConstant (e : Expr Mark) : Check Bool := do
  return (← r.constantAt 0 e).any fun v => !v.isZero

section
variable (callIsPure : FnDecl Mark → Check Bool) (owner : Option (FnDecl Mark))

mutual
/-- Whether an expression is pure, given a judgement of functions. -/
def exprIsPure : Expr Mark → Judge Bool
  | .lit _ => return true
  | .inhabitant _ _ => return true
  | .name x =>
    match r.symbolAt? x.mark.id with
    | some s => r.readIsPure owner s x.mark.span
    | none => return false
  | .paren _ e => exprIsPure e
  | .unary _ _ e => exprIsPure e
  | .bin _ op a b =>
    .andThen (exprIsPure a) <| .andThen (exprIsPure b) do
      if op.divides then r.isNonZeroConstant b else return true
  | .block _ ss tail => .andThen (stmtsArePure ss) (tailIsPure tail)
  -- without a wildcard a match can fail
  | .cases _ e arms =>
    if arms.any (·.pat.isWildcard) then .andThen (exprIsPure e) (armsArePure arms)
    else return false
  | .call m _ args => do
    match (← getThe Checker).signatures.find? m.id with
    | none => return false
    | some sig =>
      .andThen (exprsArePure args) do
        if ← callIsPure sig.decl then
          (← Check.outerReads sig.decl).allM fun x => r.readIsPure owner x m.span
        else return false
  | .assign _ _ _ => return false
  | .host _ _ => return false

def exprsArePure : List (Expr Mark) → Judge Bool
  | [] => return true
  | e :: es => .andThen (exprIsPure e) (exprsArePure es)

def tailIsPure : Option (Expr Mark) → Judge Bool
  | none => return true
  | some e => exprIsPure e

def armsArePure : List (Arm Mark) → Judge Bool
  | [] => return true
  | ⟨_, _, e⟩ :: arms => .andThen (exprIsPure e) (armsArePure arms)

def stmtIsPure : Stmt Mark → Judge Bool
  | .val ⟨_, _, _, _, e⟩ => exprIsPure e
  | .typeAlias _ => return true
  | .fn _ => return true
  | .expr _ e => exprIsPure e

def stmtsArePure : List (Stmt Mark) → Judge Bool
  | [] => return true
  | s :: ss => .andThen (stmtIsPure s) (stmtsArePure ss)
end

end

/-- Whether calling a function is pure once its outside reads are initialized. The judgement of
functions goes `n` calls deep. -/
def fnIsPureWithin : Nat → FnDecl Mark → Check Bool
  | 0, _ => throw .endless
  | n + 1, d => do
    match (← get).purities.find? d.mark.id with
    | some (.pure _) => return true
    | some _ => return false
    | none =>
      modify fun c => { c with purities := c.purities.insert d.mark.id .judging }
      let (good, reads) ← (r.exprIsPure (fnIsPureWithin n) (some d) d.body).run (some [])
      let verdict := if good then .pure (reads.getD []) else .impure
      modify fun c => { c with purities := c.purities.insert d.mark.id verdict }
      return good

/-- Whether calling a function is pure once its outside reads are initialized. A function is not
judged inside its own judgement, so there are at most as many inside each other as nodes. -/
def fnIsPure (d : FnDecl Mark) : Check Bool := r.fnIsPureWithin (r.nodeCount + 1) d

def isPureWithin (owner : Option (FnDecl Mark)) (e : Expr Mark) : Check Bool := do
  let (good, _) ← (r.exprIsPure r.fnIsPure owner e).run none
  return good

def isPure (e : Expr Mark) : Check Bool := r.isPureWithin none e

end Resolver

end Solo

import Solo.Checker.TypeNode

/-!
# Constants and inhabitants

The value of an expression that is built from literals, stable bindings and operators, and the
one value of a singleton type. Both follow bindings to their declarations, and a limit bounds the
number of steps.
-/

namespace Solo

/-- The operator's result, if it has one; a text it makes is entered. -/
def Check.apply (result : Except OpError Literal) : Check (Option Literal) := do
  match result with
  | .ok v =>
    Check.enterText v
    return some v
  | .error _ => return none

namespace Resolver

variable (r : Resolver)

mutual
/-- The constant that a stable binding holds, within `n` steps. -/
def constantOf : Nat → SymbolId → Check (Option Literal)
  | 0, _ => return none
  | n + 1, x => do
    if (← get).evaluating.contains x then return none
    let s := r.symbol x
    if !s.role.isStable || s.role = .param then return none
    match ← r.typeOf x with
    | .literal v => return some v
    | .path y => constantOf n y
    | .intrinsic _ =>
      match s.decls.head? with
      | some (.val d) =>
        modify fun c => { c with evaluating := x :: c.evaluating }
        let v ← constant n d.init
        modify fun c => { c with evaluating := c.evaluating.tail }
        return v
      | _ => return none

/-- The constant value of an expression, within `n` steps. Both operands of `&&` and `||` have to
be constants, and what cannot be divided is none. -/
def constant : Nat → Expr Mark → Check (Option Literal)
  | 0, _ => return none
  | n + 1, e => do
    match e with
    | .lit l => return some l.value
    | .paren _ e => constant n e
    | .name x =>
      match r.symbolAt? x.mark.id with
      | some s => constantOf n s
      | none => return none
    | .unary _ op e =>
      match ← constant n e with
      | some v => Check.apply (op.eval v)
      | none => return none
    | .bin _ op a b =>
      match ← constant n a with
      | none => return none
      | some v =>
        match ← constant n b with
        | some w => Check.apply (op.eval v w)
        | none => return none
    | _ => return none
end

def stepsAt (depth : Nat) : Nat := r.options.maxConstEvalDepth + 1 - depth

def constantAt (depth : Nat) (e : Expr Mark) : Check (Option Literal) :=
  r.constant (r.stepsAt depth) e

def inhabitantWithin : Nat → Ty → Check (Except Problem Literal)
  | _, .literal v => return .ok v
  | _, .intrinsic .unit => return .ok .unit
  | _, .intrinsic .null => return .ok .null
  | _, .intrinsic k => return .error (.noSingleInhabitant (.intrinsic k))
  | 0, .path x => return .error (.notAConstant (r.nameOf x))
  | n + 1, .path x => do
    let declared ← r.typeOf x
    let found ←
      if declared.isSingleton then do
        match ← inhabitantWithin n declared with
        | .ok v => pure (some v)
        | .error _ => pure none
      else r.constantOf n x
    match found with
    | some v => return .ok v
    | none => return .error (.notAConstant (r.nameOf x))

/-- The one value of a type with the number of its literal, or why there is none. -/
def inhabitant (t : Ty) : Check (Except Problem Witness) := do
  match ← r.inhabitantWithin (r.stepsAt 0) t with
  | .ok v => return .ok ⟨t, ← Check.enterLiteral v, v⟩
  | .error p => return .error p

end Resolver

end Solo

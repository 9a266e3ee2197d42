import Solo.Checker

/-!
# Types as written

The type that a type node stands for. Each node is visited once, and its problems are reported
then.
-/

namespace Solo

/-- A binding that can be followed by `.type`, or the reason why it cannot. -/
def Context.stablePath (cx : Context) (x : SymbolId) : Except Problem Ty :=
  let s := cx.symbol x
  if s.role.isStable then .ok (.path x)
  else .error (.unstableReference s.name (if s.role.isVar then .assigned else .notAValue))

namespace Resolver

variable (r : Resolver)

def typeOfReference (m : Mark) (x : Ident Mark) : Check Ty := do
  match r.targets.find? x.mark.id with
  | none => return .intrinsic ((Kind.ofName? x.name).getD .error)
  | some s =>
    if s = Symbol.unresolvedId then return .error
    if (r.symbol s).role.isType then r.aliasTarget s x.mark.span
    else
      Check.report m.span (.valueUsedAsType (r.nameOf s))
      return .error

/-- The singleton of a name. A binding whose own type is being found has none yet. -/
def typeOfPath (x : Ident Mark) (span : Span) : Check Ty := do
  match r.symbolAt? x.mark.id with
  | none => return .error
  | some s =>
    if ← Check.isPursuing (.typeOf s) then
      Check.report span (.circularInitializer (r.nameOf s))
      return .error
    match r.stablePath s with
    | .ok t => Check.enterType t
    | .error p =>
      Check.report span p
      return .error

def typeOfOperand (m : Mark) : Expr Mark → Check Ty
  | .lit l => Check.enterType (.literal l.value)
  | .name x => r.typeOfPath x m.span
  | e => do
    Check.report e.span .unsupportedSingletonOperand
    return .error

def typeOfLiteral (m : Mark) (v : Literal) (dotType : Bool) : Check Ty := do
  if !dotType && !r.options.bareLiteralTypes then
    Check.report m.span (.bareLiteralType v)
  Check.enterType (.literal v)

def typeOfNode : TyNode Mark → Check Ty
  | .refer m x => Check.once m.id (r.typeOfReference m x)
  | .singleton m e => Check.once m.id (r.typeOfOperand m e)
  | .lit m l dotType => Check.once m.id (r.typeOfLiteral m l.value dotType)
  | .paren m t => Check.once m.id (typeOfNode t)

end Resolver

end Solo

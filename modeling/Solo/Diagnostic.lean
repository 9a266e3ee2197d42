import Solo.Ty

/-!
# Diagnostics

What is wrong with a program, and where. A problem holds its cause; a report is its wording.
-/

namespace Solo

inductive Instability where
  | assigned
  | notAValue
deriving DecidableEq

structure Site where
  name : String
  span : Span
deriving DecidableEq

inductive Problem where
  | duplicateName (name : String) (first : Span)
  | unknownName (name : String)
  | unstableReference (name : String) (reason : Instability)
  | unsupportedSingletonOperand
  | notAConstant (name : String)
  | noSingleInhabitant (ty : Ty)
  | notAssignable (source target : Ty)
  | argumentNotAssignable (argument param : Ty)
  | notAVariable (name : String)
  | valueUsedAsType (name : String)
  | bareLiteralType (value : Literal)
  | noOverloadMatches (name : String) (overloads : List Site)
  | ambiguousCall (name : String) (overloads : List Site)
  | wrongArity (expected got : Nat)
  | incompatiblePattern (pattern scrutinee : Ty)
  | unreachableCase
  | circularInitializer (name : String)
  | circularAlias (name : String)
  | recursiveWithoutResult (name : String)
  | functionAsValue (name : String)
  | binaryMismatch (op : BinOp) (left right : Ty)
  | unaryMismatch (op : UnaryOp) (ty : Ty)
  | notCallable (name : String)
deriving DecidableEq

structure Diagnostic where
  span : Span
  problem : Problem
deriving DecidableEq

inductive Severity where
  | error
  | warning
  | advice
deriving DecidableEq

/-- Only a case that cannot be reached is no error. -/
def Problem.severity : Problem → Severity
  | unreachableCase => .warning
  | _ => .error

def Diagnostic.isError (d : Diagnostic) : Bool := d.problem.severity == .error

def Instability.text : Instability → String
  | assigned => "it is a 'var' that is assigned"
  | notAValue => "it does not name a value"

namespace Problem

def message (nameOf : SymbolId → String) : Problem → String
  | duplicateName name _ => s!"Duplicate identifier '{name}'."
  | unknownName name => s!"Cannot find name '{name}'."
  | unstableReference name reason => s!"'{name}' is not a stable reference: {reason.text}."
  | unsupportedSingletonOperand =>
    "Only a literal or a stable identifier can be followed by '.type'."
  | notAConstant name => s!"'{name}' is not a compile-time constant."
  | noSingleInhabitant ty => s!"Type '{ty.text nameOf}' does not have a single inhabitant."
  | notAssignable source target =>
    s!"Type '{source.text nameOf}' is not assignable to type '{target.text nameOf}'."
  | argumentNotAssignable argument param =>
    s!"Argument of type '{argument.text nameOf}' is not assignable to "
      ++ s!"parameter of type '{param.text nameOf}'."
  | notAVariable name => s!"Cannot assign to '{name}' because it is not a 'var'."
  | valueUsedAsType name => s!"'{name}' refers to a value, but is being used as a type here."
  | bareLiteralType value => s!"A literal type must be written as '{value.source}.type'."
  | noOverloadMatches name _ => s!"No overload of '{name}' matches this call."
  | ambiguousCall name _ =>
    s!"Ambiguous call to '{name}': no overload is more specific than the others."
  | wrongArity expected got => s!"Expected {expected} arguments, but got {got}."
  | incompatiblePattern pattern scrutinee =>
    s!"Pattern type '{pattern.text nameOf}' is incompatible with "
      ++ s!"scrutinee type '{scrutinee.text nameOf}'."
  | unreachableCase => "Unreachable case: a previous case matches every value."
  | circularInitializer name =>
    s!"'{name}' is referenced directly or indirectly in its own initializer."
  | circularAlias name => s!"Type alias '{name}' circularly references itself."
  | recursiveWithoutResult name => s!"Recursive function '{name}' needs an explicit result type."
  | functionAsValue name => s!"Function '{name}' is not a value; call it instead."
  | binaryMismatch op left right =>
    s!"Operator '{op.symbol}' cannot be applied to types "
      ++ s!"'{left.text nameOf}' and '{right.text nameOf}'."
  | unaryMismatch op ty =>
    s!"Operator '{op.symbol}' cannot be applied to type '{ty.text nameOf}'."
  | notCallable name => s!"'{name}' is not a function."

def help? : Problem → Option String
  | valueUsedAsType name => some s!"Did you mean '{name}.type'?"
  | bareLiteralType _ =>
    some "Set 'bareLiteralTypes' to accept a bare literal in type position."
  | _ => none

/-- The declarations a problem is about; a problem of overloads has them even if they are none. -/
def related? : Problem → Option (List Site)
  | noOverloadMatches _ sites | ambiguousCall _ sites => some sites
  | _ => none

end Problem

structure ReportLabel where
  span : Span
  text : Option String
  primary : Bool

structure ReportNote where
  span : Span
  message : String

structure Report where
  severity : Severity
  message : String
  labels : List ReportLabel
  help : Option String
  related : Option (List ReportNote)

def Site.note (s : Site) : ReportNote := ⟨s.span, s!"'{s.name}' is defined here."⟩

namespace Diagnostic

/-- The place of the problem, and for a second declaration also the place of the first. -/
def labels (d : Diagnostic) : List ReportLabel :=
  ⟨d.span, none, true⟩ ::
    match d.problem with
    | .duplicateName _ first => [⟨first, some "Previous definition here", false⟩]
    | _ => []

def report (nameOf : SymbolId → String) (d : Diagnostic) : Report where
  severity := d.problem.severity
  message := d.problem.message nameOf
  labels := d.labels
  help := d.problem.help?
  related := d.problem.related?.map fun sites => sites.map Site.note

end Diagnostic

end Solo

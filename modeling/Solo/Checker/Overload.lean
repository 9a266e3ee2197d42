import Solo.Checker.Relation

/-!
# Overloads

A call is resolved to the one overload that accepts its arguments and whose parameters are
subtypes of those of every other overload that does.
-/

namespace Solo

def Signature.site (s : Signature) : Site := ⟨s.decl.name.name, s.decl.name.mark.span⟩

structure Call where
  span : Span
  callee : String
  args : List Span

namespace Resolver

variable (r : Resolver)

/-- Whether each type of a list is a subtype of the one at its place in another list. -/
def allSubtypes : List Ty → List Ty → Check Bool
  | s :: ss, t :: ts => do
    if ← r.isSubtype s t then allSubtypes ss ts else return false
  | _, _ => return true

/-- The first argument that its parameter does not accept, reported. -/
def reportArgument : List Span → List Ty → List Ty → Check Unit
  | span :: spans, s :: ss, t :: ts => do
    if ← r.isSubtype s t then reportArgument spans ss ts
    else Check.report span (.argumentNotAssignable s t)
  | _, _, _ => return

def reportNoMatch (call : Call) (sigs : List Signature) (args : List Ty) : Check Unit := do
  match sigs with
  | [only] =>
    if only.params.length ≠ call.args.length then
      Check.report call.span (.wrongArity only.params.length call.args.length)
    else r.reportArgument call.args args only.params
  | _ => Check.report call.span (.noOverloadMatches call.callee (sigs.map Signature.site))

/-- Whether an overload's parameters are subtypes of those of all others. -/
def isMostSpecific (sig : Signature) (others : List Signature) : Check Bool :=
  others.allM fun other => do
    if sig.decl.mark.id = other.decl.mark.id then return true
    r.allSubtypes sig.params other.params

/-- The overload that a call with arguments of types `args` is resolved to. The problem is
reported if there is none, unless an argument has a problem itself. -/
def selectOverload (call : Call) (sigs : List Signature) (args : List Ty) :
    Check (Option Signature) := do
  if args.any Ty.isError then return none
  let candidates := sigs.filter fun sig => sig.params.length == call.args.length
  match ← candidates.filterM fun sig => r.allSubtypes args sig.params with
  | [] =>
    r.reportNoMatch call sigs args
    return none
  | [only] => return some only
  | applicable =>
    match ← applicable.filterM fun sig => r.isMostSpecific sig applicable with
    | [best] => return some best
    | _ =>
      Check.report call.span (.ambiguousCall call.callee (applicable.map Signature.site))
      return none

end Resolver

end Solo

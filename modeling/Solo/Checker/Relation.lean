import Solo.Checker

/-!
# Widening and subtyping

Widening goes one step up from a singleton: from a literal to its kind, from a binding to its
declared type. A singleton is a subtype of what it widens to; among singletons only the same one
is a subtype. Answers are kept.
-/

namespace Solo.Resolver

variable (r : Resolver)

/-- A bound on the steps from a singleton to a type that is none: each binding is passed at most
once, and a literal and a kind may follow. -/
def chainBound : Nat := r.symbols.size + 2

/-- One step up from a singleton. -/
def widen : Ty → Check Ty
  | .literal v => return .intrinsic v.kind
  | .path x => r.typeOf x
  | t => return t

/-- Widens until no singleton is left. After more steps than there are symbols it gives up and
answers the error type. -/
def baseWithin : Nat → Ty → Check Ty
  | 0, t => do
    if t.isSingleton then
      let _ ← r.widen t
      return .error
    else return t
  | n + 1, t => do
    if t.isSingleton then
      let next ← r.widen t
      if next = t then return .error else baseWithin n next
    else return t

/-- The kind at the end of widening. -/
def baseKind (t : Ty) : Check Kind := do
  return (← r.baseWithin (r.symbols.size + 1) t).kind?.getD .error

def isSubtypeWithin : Nat → Ty → Ty → Check Bool
  | 0, _, _ => throw .endless
  | n + 1, s, t => do
    if s = t then return true
    match (← get).subtypes.find? (s, t) with
    | some b => return b
    | none =>
      let b ←
        if s.isError || t.isError || s.isNothing || t.isAny then pure true
        else
          match s, t with
          | .intrinsic j, .intrinsic k => pure (j.isSubkind k)
          | .intrinsic _, _ => pure false
          | _, .intrinsic _ => do
            let up ← r.widen s
            if up = s then pure false else isSubtypeWithin n up t
          | _, _ => pure false
      modify fun c => { c with subtypes := c.subtypes.insert (s, t) b }
      return b

/-- Whether every value of `s` is a value of `t`. -/
def isSubtype (s t : Ty) : Check Bool := r.isSubtypeWithin r.chainBound s t

def lubWithin : Nat → Ty → Ty → Check Ty
  | 0, _, _ => throw .endless
  | n + 1, a, b => do
    if ← r.isSubtype a b then return b
    if ← r.isSubtype b a then return a
    let a' ← r.widen a
    let b' ← r.widen b
    if a' = a ∧ b' = b then return .intrinsic .any else lubWithin n a' b'

/-- A type above two types: both are widened in step until one is a subtype of the other. -/
def lub (a b : Ty) : Check Ty := r.lubWithin (r.chainBound + 1) a b

/-- Whether a value of `source` may be given where `target` is asked for; reported if not. -/
def checkAssignable (source target : Ty) (span : Span) : Check Unit := do
  unless ← r.isSubtype source target do
    Check.report span (.notAssignable source target)

end Solo.Resolver

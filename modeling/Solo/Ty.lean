import Solo.Literal
import Solo.Symbol

/-!
# Types

A type is a kind, the singleton of a literal, or the singleton of a binding, which has only the
value that the binding holds.
-/

namespace Solo

inductive Ty where
  | intrinsic (k : Kind)
  | literal (v : Literal)
  | path (x : SymbolId)
deriving DecidableEq

namespace Ty

abbrev error : Ty := intrinsic .error

instance : Inhabited Ty := ⟨error⟩

def isSingleton : Ty → Bool
  | intrinsic _ => false
  | literal _ | path _ => true

def isError (t : Ty) : Bool := t == error

def isAny (t : Ty) : Bool := t == intrinsic .any

def isNothing (t : Ty) : Bool := t == intrinsic .nothing

def kind? : Ty → Option Kind
  | intrinsic k => some k
  | _ => none

def literal? : Ty → Option Literal
  | literal v => some v
  | _ => none

def path? : Ty → Option SymbolId
  | path x => some x
  | _ => none

/-- A literal's singleton becomes the literal's kind; other types stay. -/
def widenLiteral : Ty → Ty
  | literal v => intrinsic v.kind
  | t => t

def text (nameOf : SymbolId → String) : Ty → String
  | intrinsic .error => "<error>"
  | intrinsic k => k.name
  | literal v => v.source
  | path x => nameOf x ++ ".type"

def bits : Ty → Nat
  | intrinsic .any => 1
  | intrinsic .nothing => 2
  | intrinsic .int => 4
  | intrinsic .long => 8
  | intrinsic .double => 16
  | intrinsic .boolean => 32
  | intrinsic .string => 64
  | intrinsic .char => 128
  | intrinsic .unit => 256
  | intrinsic .null => 512
  | intrinsic .error => 1024
  | literal _ => 2048
  | path _ => 4096

end Ty

end Solo

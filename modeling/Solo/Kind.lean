/-!
# Kinds

The kinds of values the language knows, the top and bottom types, and the type of what could not
be typed.
-/

namespace Solo

inductive Kind where
  | any
  | nothing
  | int
  | long
  | double
  | boolean
  | string
  | char
  | unit
  | null
  | error
deriving DecidableEq, Repr

namespace Kind

def all : List Kind :=
  [any, nothing, int, long, double, boolean, string, char, unit, null, error]

/-- The name of a kind; the error type has none. -/
def name : Kind → String
  | any => "Any"
  | nothing => "Nothing"
  | int => "Int"
  | long => "Long"
  | double => "Double"
  | boolean => "Boolean"
  | string => "String"
  | char => "Char"
  | unit => "Unit"
  | null => "Null"
  | error => ""

def named : List Kind := all.filter (· != error)

def ofName? (s : String) : Option Kind := named.find? (·.name == s)

/-- The order of promotion among numbers; a `Char` takes part in arithmetic as an `Int`. -/
def rank? : Kind → Option Nat
  | char | int => some 0
  | long => some 1
  | double => some 2
  | _ => none

def ofRank : Nat → Kind
  | 0 => int
  | 1 => long
  | _ => double

/-- The subtypes among kinds. The error type is related to everything. -/
def isSubkind (s t : Kind) : Bool :=
  s == t || t == any || s == nothing || (s == null && t == string) || s == error || t == error

end Kind

end Solo

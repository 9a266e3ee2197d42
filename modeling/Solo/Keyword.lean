import Solo.Kind
import Solo.Roster

/-!
# Reserved names

The names of the kinds, the name of the one built-in function and the empty name open the roster
of names of every program, so their numbers are the same in all of them.
-/

namespace Solo

namespace Keyword

def println : String := "println"

/-- The names every roster of names starts with. -/
def reserved : List String := Kind.named.map Kind.name ++ [println, ""]

/-- The roster of names of a program before its first node. -/
def roster : Roster String := .ofList reserved

/-- Whether the name with a number is a kind, in a roster that starts with the reserved names. -/
def isKindNumber (i : Nat) : Bool := i < Kind.named.length

/-- Whether the name with a number is a built-in function, in such a roster. -/
def isBuiltinNumber (i : Nat) : Bool := i == Kind.named.length

end Keyword

end Solo

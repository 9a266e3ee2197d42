import Solo.Kind
import Solo.Binary64.Shortest
import Solo.Text.Visible
import Solo.Text.Quoted

/-!
# Literal values

The values of the language. Two are equal if and only if they have the same kind and the same
bits or text; equality as the language's programs see it is `Literal.sameValue`.
-/

namespace Solo

inductive Literal where
  | int (v : Int32)
  | long (v : Int64)
  | double (v : Binary64)
  | bool (v : Bool)
  | str (v : String)
  | char (v : Char)
  | unit
  | null
deriving DecidableEq

instance : Inhabited Literal := ⟨.unit⟩

namespace Literal

def kind : Literal → Kind
  | int _ => .int
  | long _ => .long
  | double _ => .double
  | bool _ => .boolean
  | str _ => .string
  | char _ => .char
  | unit => .unit
  | null => .null

def bool? : Literal → Option Bool
  | bool b => some b
  | _ => none

def isString : Literal → Bool
  | str _ => true
  | _ => false

/-- Whether a value is a number that nothing can be divided by. -/
def isZero : Literal → Bool
  | int v => v == 0
  | long v => v == 0
  | double v => v.isZero
  | char c => c == '\x00'
  | _ => false

def display : Literal → String
  | int v => toString v.toInt
  | long v => toString v.toInt
  | double v => v.text
  | bool v => if v then "true" else "false"
  | str v => v
  | char v => String.singleton v
  | unit => "()"
  | null => "null"

/-- The text in a program, with the characters of `plain` unescaped. -/
def sourceWith (plain : Char → Bool) : Literal → String
  | long v => toString v.toInt ++ "L"
  | str v => Text.quote '"' plain v.toList
  | char v => Text.quote '\'' plain [v]
  | v => v.display

def source (v : Literal) : String := v.sourceWith Text.isVisible

end Literal

end Solo

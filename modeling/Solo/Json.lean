/-!
# JSON documents

A reader of the strict JSON grammar. Members of an object stay in their order and a name may come
twice; what that means is for the user of a document to say. A number is whole only if it is
written without fraction and exponent and is not a negative zero.
-/

namespace Solo

inductive Json where
  | null
  | bool (b : Bool)
  | whole (n : Int)
  /-- A number that is not whole, as written. -/
  | fractional (text : String)
  | str (s : String)
  | arr (items : List Json)
  | obj (members : List (String × Json))

namespace Json

def skipBlanks (cs : List Char) : List Char :=
  cs.dropWhile fun c => c == ' ' || c == '\t' || c == '\n' || c == '\r'

def word? : List Char → List Char → Option (List Char)
  | [], cs => some cs
  | w :: ws, c :: cs => if w = c then word? ws cs else none
  | _ :: _, [] => none

def hexDigit? (c : Char) : Option Nat :=
  if '0' ≤ c ∧ c ≤ '9' then some (c.toNat - '0'.toNat)
  else if 'a' ≤ c ∧ c ≤ 'f' then some (c.toNat - 'a'.toNat + 10)
  else if 'A' ≤ c ∧ c ≤ 'F' then some (c.toNat - 'A'.toNat + 10)
  else none

def unit? (a b c d : Char) : Option Nat := do
  let a ← hexDigit? a
  let b ← hexDigit? b
  let c ← hexDigit? c
  let d ← hexDigit? d
  return ((a * 16 + b) * 16 + c) * 16 + d

/-- The character that stands for itself or a control after a backslash. -/
def escape? : Char → Option Char
  | '"' => some '"'
  | '\\' => some '\\'
  | '/' => some '/'
  | 'b' => some '\x08'
  | 'f' => some '\x0c'
  | 'n' => some '\n'
  | 'r' => some '\r'
  | 't' => some '\t'
  | _ => none

def isHighUnit (n : Nat) : Bool := 0xD800 ≤ n && n < 0xDC00

def isLowUnit (n : Nat) : Bool := 0xDC00 ≤ n && n < 0xE000

/-- The character of two 16-bit units. -/
def pairChar (high low : Nat) : Char :=
  Char.ofNat (0x10000 + (high - 0xD800) * 0x400 + (low - 0xDC00))

/-- The rest of a string after its opening quote, with the characters read so far in reverse. -/
def stringRest (read : List Char) : List Char → Option (String × List Char)
  | '"' :: cs => some (String.ofList read.reverse, cs)
  | '\\' :: 'u' :: a :: b :: c :: d :: cs =>
    match unit? a b c d with
    | none => none
    | some u =>
      if isLowUnit u then none
      else if isHighUnit u then
        match cs with
        | '\\' :: 'u' :: e :: f :: g :: h :: cs =>
          match unit? e f g h with
          | some v => if isLowUnit v then stringRest (pairChar u v :: read) cs else none
          | none => none
        | _ => none
      else stringRest (Char.ofNat u :: read) cs
  | '\\' :: c :: cs =>
    match escape? c with
    | some e => stringRest (e :: read) cs
    | none => none
  | c :: cs => if c.toNat < 0x20 then none else stringRest (c :: read) cs
  | [] => none

def digits (cs : List Char) : List Char × List Char :=
  (cs.takeWhile Char.isDigit, cs.dropWhile Char.isDigit)

def natOfDigits (ds : List Char) : Nat :=
  ds.foldl (fun n d => n * 10 + (d.toNat - '0'.toNat)) 0

def fraction? : List Char → Option (List Char × List Char)
  | '.' :: cs =>
    match digits cs with
    | ([], _) => none
    | (ds, rest) => some ('.' :: ds, rest)
  | cs => some ([], cs)

def sign : List Char → List Char × List Char
  | '+' :: cs => (['+'], cs)
  | '-' :: cs => (['-'], cs)
  | cs => ([], cs)

def exponent? : List Char → Option (List Char × List Char)
  | [] => some ([], [])
  | c :: cs =>
    if c = 'e' ∨ c = 'E' then
      match digits (sign cs).2 with
      | ([], _) => none
      | (ds, rest) => some (c :: (sign cs).1 ++ ds, rest)
    else some ([], c :: cs)

/-- A number at the start, after an optional minus. No digit follows a leading zero. -/
def number? (negative : Bool) (cs : List Char) : Option (Json × List Char) := do
  let (ds, rest) := digits cs
  if ds = [] ∨ (ds.head? = some '0' ∧ ds ≠ ['0']) then none
  let (frac, rest) ← fraction? rest
  let (power, rest) ← exponent? rest
  let n := natOfDigits ds
  if frac = [] ∧ power = [] ∧ ¬(negative ∧ n = 0) then
    return (.whole (if negative then -(n : Int) else n), rest)
  else
    let minus := if negative then ['-'] else []
    return (.fractional (String.ofList (minus ++ ds ++ frac ++ power)), rest)

mutual
/-- A value at the start of a text, reading at most `fuel` values and separators deep. -/
def value? : Nat → List Char → Option (Json × List Char)
  | 0, _ => none
  | fuel + 1, cs =>
    match skipBlanks cs with
    | '"' :: cs => (stringRest [] cs).map fun (s, rest) => (.str s, rest)
    | '[' :: cs =>
      match skipBlanks cs with
      | ']' :: rest => some (.arr [], rest)
      | cs => (items? fuel cs).map fun (vs, rest) => (.arr vs, rest)
    | '{' :: cs =>
      match skipBlanks cs with
      | '}' :: rest => some (.obj [], rest)
      | cs => (members? fuel cs).map fun (ms, rest) => (.obj ms, rest)
    | '-' :: cs => number? true cs
    | 'n' :: cs => (word? ['u', 'l', 'l'] cs).map fun rest => (.null, rest)
    | 't' :: cs => (word? ['r', 'u', 'e'] cs).map fun rest => (.bool true, rest)
    | 'f' :: cs => (word? ['a', 'l', 's', 'e'] cs).map fun rest => (.bool false, rest)
    | cs => number? false cs

def items? : Nat → List Char → Option (List Json × List Char)
  | 0, _ => none
  | fuel + 1, cs => do
    let (v, rest) ← value? fuel cs
    match skipBlanks rest with
    | ',' :: rest =>
      let (vs, rest) ← items? fuel rest
      return (v :: vs, rest)
    | ']' :: rest => return ([v], rest)
    | _ => none

def members? : Nat → List Char → Option (List (String × Json) × List Char)
  | 0, _ => none
  | fuel + 1, cs => do
    match skipBlanks cs with
    | '"' :: cs =>
      let (name, rest) ← stringRest [] cs
      match skipBlanks rest with
      | ':' :: rest =>
        let (v, rest) ← value? fuel rest
        match skipBlanks rest with
        | ',' :: rest =>
          let (ms, rest) ← members? fuel rest
          return ((name, v) :: ms, rest)
        | '}' :: rest => return ([(name, v)], rest)
        | _ => none
      | _ => none
    | _ => none
end

/-- The one value that a text holds. A value takes at least a character, so the text's length is
fuel enough. -/
def parse? (text : String) : Option Json :=
  let cs := text.toList
  match value? (cs.length + 1) cs with
  | some (v, rest) => if skipBlanks rest = [] then some v else none
  | none => none

def member? (name : String) : Json → Option Json
  | .obj ms => (ms.find? fun m => m.1 == name).map Prod.snd
  | _ => none

end Json

end Solo

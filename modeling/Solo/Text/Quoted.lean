/-!
# Quoted text

Text between two delimiters. A backslash and the delimiter are written after a backslash, four
controls have a letter of their own, and any other character that is not plain is written by its
number in hexadecimal.
-/

namespace Solo.Text

/-- One character between delimiters `delim`. The characters of `plain` stand for themselves. -/
def quoteChar (delim : Char) (plain : Char → Bool) (c : Char) : List Char :=
  if c = '\x00' then ['\\', '0']
  else if c = '\t' then ['\\', 't']
  else if c = '\r' then ['\\', 'r']
  else if c = '\n' then ['\\', 'n']
  else if c = '\\' ∨ c = delim then ['\\', c]
  else if plain c then [c]
  else ['\\', 'u', '{'] ++ Nat.toDigits 16 c.toNat ++ ['}']

def quote (delim : Char) (plain : Char → Bool) (cs : List Char) : String :=
  String.ofList (delim :: cs.flatMap (quoteChar delim plain) ++ [delim])

end Solo.Text

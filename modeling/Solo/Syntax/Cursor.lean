import Solo.Span
import Solo.Text.Word

/-!
# Reading positions

A cursor stands at a byte of a source text. A token is taken at its next occurrence that is not
part of a longer word; a token that does not occur leaves the cursor where it is and gets the
empty span there.
-/

namespace Solo

/-- A position in a source text. -/
structure Cursor where
  module : ModuleId
  /-- The bytes before the position. -/
  pos : Nat
  /-- The character before the position. -/
  before : Option Char
  /-- The text from the position on. -/
  rest : List Char

namespace Cursor

def start (module : ModuleId) (source : String) : Cursor := ⟨module, 0, none, source.toList⟩

def byteLength : List Char → Nat
  | [] => 0
  | c :: cs => c.utf8Size + byteLength cs

/-- Whether a token can stand between two characters: it is not glued to a word character on a
side where it begins or ends with one itself. -/
def fits (token : List Char) (before after : Option Char) : Bool :=
  !(token.head?.any Text.isWord && before.any Text.isWord)
    && !(token.getLast?.any Text.isWord && after.any Text.isWord)

/-- An occurrence of a token. -/
structure Hit where
  lo : Nat
  /-- The character before the text that follows. -/
  before : Option Char
  /-- The text after the occurrence. -/
  rest : List Char

/-- Looks for a token from a position on, after passing over `skip` characters. An occurrence that
does not fit is passed over as a whole. -/
def seek (token : List Char) (skip : Nat) (before : Option Char) (pos : Nat) :
    List Char → Option Hit
  | [] => if skip = 0 ∧ token = [] then some ⟨pos, before, []⟩ else none
  | c :: cs =>
    if skip = 0 then
      if token.isPrefixOf (c :: cs) then
        let rest := (c :: cs).drop token.length
        if fits token before rest.head? then some ⟨pos, token.getLast?.or before, rest⟩
        else seek token (token.length - 1) (some c) (pos + c.utf8Size) cs
      else seek token 0 (some c) (pos + c.utf8Size) cs
    else seek token (skip - 1) (some c) (pos + c.utf8Size) cs

def point (c : Cursor) : Span := .point c.pos c.module

def take (c : Cursor) (token : List Char) : Span × Cursor :=
  match seek token 0 c.before c.pos c.rest with
  | some hit =>
    let hi := hit.lo + byteLength token
    (⟨hit.lo, hi, c.module, Nat.le_add_right ..⟩,
      { c with pos := hi, before := hit.before, rest := hit.rest })
  | none => (c.point, c)

end Cursor

end Solo

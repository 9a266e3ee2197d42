import Solo.Options
import Solo.Json

/-!
# Options in JSON

A request is an object with any of the six options, each at most once and no others, or an array
of all six. A switch is a truth value, a limit a whole number below `2 ^ 32`, and `null` leaves
either open.
-/

namespace Solo

def Switch.all : List Switch :=
  [.inferFinalSingleton, .bareLiteralTypes, .foldSingletonCalls, .strict]

def Limit.all : List Limit := [.maxConstEvalDepth, .maxCallDepth]

def Switch.key : Switch → String
  | inferFinalSingleton => "inferFinalSingleton"
  | bareLiteralTypes => "bareLiteralTypes"
  | foldSingletonCalls => "foldSingletonCalls"
  | strict => "strict"

def Limit.key : Limit → String
  | maxConstEvalDepth => "maxConstEvalDepth"
  | maxCallDepth => "maxCallDepth"

def Switch.ofKey? (key : String) : Option Switch := all.find? (·.key == key)

def Limit.ofKey? (key : String) : Option Limit := all.find? (·.key == key)

namespace Json

def switch? : Json → Option (Option Bool)
  | .null => some none
  | .bool b => some (some b)
  | _ => none

/-- A whole number below `2 ^ 32` or `null`. -/
def limit? : Json → Option (Option Nat)
  | .null => some none
  | .whole n => if 0 ≤ n ∧ n < 4294967296 then some (some n.toNat) else none
  | _ => none

end Json

namespace RawOptions

/-- Sets the option with a key to a JSON value. -/
def setKey? (o : RawOptions) (key : String) (v : Json) : Option RawOptions :=
  match Switch.ofKey? key, Limit.ofKey? key with
  | some s, _ => v.switch?.map (o.setSwitch s)
  | none, some l => v.limit?.map (o.setLimit l)
  | none, none => none

/-- Sets options one after the other; no key comes twice. -/
def setMembers? (o : RawOptions) (seen : List String) : List (String × Json) → Option RawOptions
  | [] => some o
  | (key, v) :: rest =>
    if key ∈ seen then none
    else
      match o.setKey? key v with
      | some o => o.setMembers? (key :: seen) rest
      | none => none

def ofJson? : Json → Option RawOptions
  | .obj members => setMembers? {} [] members
  | .arr [a, b, c, d, e, f] =>
    setMembers? {} []
      [(Switch.inferFinalSingleton.key, a), (Switch.bareLiteralTypes.key, b),
        (Switch.foldSingletonCalls.key, c), (Switch.strict.key, d),
        (Limit.maxConstEvalDepth.key, e), (Limit.maxCallDepth.key, f)]
  | _ => none

def parse? (text : String) : Option RawOptions := (Json.parse? text).bind ofJson?

end RawOptions

end Solo

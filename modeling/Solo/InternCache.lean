import Solo.Table
import Solo.Ty

/-!
# Canonical literals and types

Equal literals of a unit share one entry, and so do equal singletons. Literals and types are
numbered apart, each by its place among those entered before it. Tables lead from a literal to its
number, from there to the entry of its singleton, and from a binding to the entry of its singleton.
-/

namespace Solo

abbrev LiteralId := Nat

abbrev TypeId := Nat

/-- What an entered type is made of. The singleton of a literal holds the literal's number. -/
inductive TypeForm where
  | intrinsic (k : Kind)
  | literal (id : LiteralId) (v : Literal)
  | path (x : SymbolId)
deriving DecidableEq

structure TypeEntry where
  id : TypeId
  form : TypeForm
deriving DecidableEq

namespace TypeEntry

def ty (e : TypeEntry) : Ty :=
  match e.form with
  | .intrinsic k => .intrinsic k
  | .literal _ v => .literal v
  | .path x => .path x

/-- Whether two entries stand for the same type: literals are compared by their numbers, bindings by
their symbols, and kinds by the numbers of their types. -/
def equal (s t : TypeEntry) : Bool :=
  match s.form, t.form with
  | .literal i _, .literal j _ => i == j
  | .path x, .path y => x == y
  | .intrinsic _, .intrinsic _ => s.id == t.id
  | _, _ => false

end TypeEntry

/-- The literals and types of one unit. Entries are never removed. -/
structure InternCache where
  types : Array TypeEntry
  literals : Array Literal
  literalIds : Table Literal LiteralId
  literalTypes : Table LiteralId TypeEntry
  pathTypes : Table SymbolId TypeEntry

namespace InternCache

def empty : InternCache := ⟨#[], #[], .empty, .empty, .empty⟩

def internLiteral (c : InternCache) (v : Literal) : LiteralId × InternCache :=
  match c.literalIds.find? v with
  | some i => (i, c)
  | none =>
    (c.literals.size,
      { c with
        literals := c.literals.push v
        literalIds := c.literalIds.insert v c.literals.size })

/-- Enters a type, also if there is one of the same form. -/
def newType (c : InternCache) (form : TypeForm) : TypeEntry × InternCache :=
  (⟨c.types.size, form⟩, { c with types := c.types.push ⟨c.types.size, form⟩ })

def literalType (c : InternCache) (v : Literal) : TypeEntry × InternCache :=
  let known := c.internLiteral v
  match known.2.literalTypes.find? known.1 with
  | some e => (e, known.2)
  | none =>
    let new := known.2.newType (.literal known.1 v)
    (new.1, { new.2 with literalTypes := new.2.literalTypes.insert known.1 new.1 })

def pathType (c : InternCache) (x : SymbolId) : TypeEntry × InternCache :=
  match c.pathTypes.find? x with
  | some e => (e, c)
  | none =>
    let new := c.newType (.path x)
    (new.1, { new.2 with pathTypes := new.2.pathTypes.insert x new.1 })

/-- The types of all kinds come first. -/
def start : InternCache := Kind.all.foldl (fun c k => (c.newType (.intrinsic k)).2) empty

def entry? (c : InternCache) : Ty → Option TypeEntry
  | .intrinsic k => c.types[Kind.all.idxOf k]?
  | .literal v => (c.literalIds.find? v).bind c.literalTypes.find?
  | .path x => c.pathTypes.find? x

/-- The number of a type, or the one that comes next. -/
def typeId (c : InternCache) (t : Ty) : TypeId := ((c.entry? t).map (·.id)).getD c.types.size

/-- The number of a literal, or the one that comes next. -/
def literalId (c : InternCache) (v : Literal) : LiteralId :=
  (c.literalIds.find? v).getD c.literals.size

end InternCache

end Solo

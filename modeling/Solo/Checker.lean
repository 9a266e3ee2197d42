import Solo.Binding
import Solo.InternCache
import Solo.Options

/-!
# Checkers

A checker answers questions about one bound program and keeps what it has found: the types of
symbols, nodes and functions, the entries of literals and types, its diagnostics. Types are found
when they are first asked for, so the checker also keeps the goals it is busy with.
-/

namespace Solo

/-- Why a checker stops without an answer. -/
inductive Fault where
  /-- Widening a singleton leads round in a circle. -/
  | endless
  /-- An entry that is written once was to be written again. -/
  | rewritten (node : NodeId)
deriving DecidableEq

/-- The type of one overload of a function. -/
structure Signature where
  decl : FnDecl Mark
  symbol : SymbolId
  params : List Ty
  result : Ty

/-- The one value of a type, with the number of its literal. -/
structure Witness where
  ty : Ty
  literal : LiteralId
  value : Literal

/-- What is known of a call to a function. -/
inductive Purity where
  | judging
  /-- Pure once these bindings from outside the function are initialized. -/
  | pure (reads : List SymbolId)
  | impure

/-- A question whose answer is found once and may lead back to itself. -/
inductive Goal where
  /-- The type of a binding. -/
  | typeOf (x : SymbolId)
  /-- The target of a type alias. -/
  | targetOf (x : SymbolId)
  /-- The result of a function that does not declare it. -/
  | resultOf (decl : NodeId)
deriving DecidableEq

/-- A goal that is being pursued, and whether it turned out to need itself. -/
structure Pursuit where
  goal : Goal
  looped : Bool

structure Checker where
  names : Roster String
  interns : InternCache
  symbolTypes : Table SymbolId Ty
  aliasTargets : Table SymbolId Ty
  nodeTypes : Table NodeId Ty
  /-- The signatures of functions and of the calls that were resolved to them. -/
  signatures : Table NodeId Signature
  witnesses : Table NodeId Witness
  subtypes : Table (Ty × Ty) Bool
  purities : Table NodeId Purity
  /-- The goals in progress, innermost first. -/
  pursuits : List Pursuit
  /-- The symbols whose constant is being evaluated, innermost first. -/
  evaluating : List SymbolId
  diagnostics : Array Diagnostic

/-- Nothing is found yet but the intrinsic types. -/
def Checker.start (names : Roster String) : Checker where
  names
  interns := .start
  symbolTypes := .empty
  aliasTargets := .empty
  nodeTypes := .empty
  signatures := .empty
  witnesses := .empty
  subtypes := .empty
  purities := .empty
  pursuits := []
  evaluating := []
  diagnostics := #[]

def Checker.types (c : Checker) : Array Ty := c.interns.types.map (·.ty)

structure Context extends BoundProgram where
  options : Options

abbrev Check := StateT Checker (Except Fault)

namespace Check

def report (span : Span) (problem : Problem) : Check Unit :=
  modify fun c => { c with diagnostics := c.diagnostics.push ⟨span, problem⟩ }

def enterText : Literal → Check Unit
  | .str s => modify fun c => { c with names := c.names.insert s }
  | _ => return

def intern {α : Type} (enter : InternCache → α × InternCache) : Check α :=
  modifyGet fun c =>
    let entered := enter c.interns
    (entered.1, { c with interns := entered.2 })

def enterLiteral (v : Literal) : Check LiteralId := intern (·.internLiteral v)

/-- Enters a singleton. Kinds are entered from the start. -/
def enterType (t : Ty) : Check Ty := do
  match t with
  | .literal v => let _ ← intern (·.literalType v)
  | .path x => let _ ← intern (·.pathType x)
  | .intrinsic _ => pure ()
  return t

/-- The type of a node, found at the first visit and kept from then on. -/
def once (node : NodeId) (find : Check Ty) : Check Ty := do
  match (← get).nodeTypes.find? node with
  | some t => return t
  | none =>
    let t ← find
    modify fun c => { c with nodeTypes := c.nodeTypes.insertNew node t }
    return t

def recordType (node : NodeId) (t : Ty) : Check Unit := do
  if (← get).nodeTypes.contains node then throw (.rewritten node)
  modify fun c => { c with nodeTypes := c.nodeTypes.insert node t }

def recordSignature (node : NodeId) (s : Signature) : Check Unit := do
  if (← get).signatures.contains node then throw (.rewritten node)
  modify fun c => { c with signatures := c.signatures.insert node s }

def recordWitness (node : NodeId) (w : Witness) : Check Unit := do
  if (← get).witnesses.contains node then throw (.rewritten node)
  modify fun c => { c with witnesses := c.witnesses.insert node w }

def takeDiagnostics : Check (List Diagnostic) := do
  let ds := (← get).diagnostics
  modify fun c => { c with diagnostics := #[] }
  return ds.toList

end Check

/-! ### Goals in progress -/

def Checker.isSettled (c : Checker) : Goal → Bool
  | .typeOf x => c.symbolTypes.contains x
  | .targetOf x => c.aliasTargets.contains x
  | .resultOf d => c.signatures.contains d

/-- Marks the pursuits from the innermost one to that of `goal`, unless there is none or a settled
one comes first. -/
def markLoop? (settled : Goal → Bool) (goal : Goal) : List Pursuit → Option (List Pursuit)
  | [] => none
  | p :: outer =>
    if settled p.goal then none
    else if p.goal = goal then some (⟨p.goal, true⟩ :: outer)
    else (markLoop? settled goal outer).map (⟨p.goal, true⟩ :: ·)

namespace Check

/-- Takes up a goal, unless it is in progress already; then all goals since then are marked. -/
def pursue (goal : Goal) : Check Bool := do
  let c ← get
  match markLoop? c.isSettled goal c.pursuits with
  | some ps =>
    set { c with pursuits := ps }
    return false
  | none =>
    set { c with pursuits := ⟨goal, false⟩ :: c.pursuits }
    return true

/-- Gives up the innermost goal and says whether it needed itself. -/
def conclude : Check Bool := do
  let c ← get
  match c.pursuits with
  | [] => return false
  | p :: outer =>
    set { c with pursuits := outer }
    return p.looped

def isPursuing (goal : Goal) : Check Bool := do
  return (← get).pursuits.any (·.goal = goal)

end Check

/-! ### Questions that lead elsewhere -/

/-- A context with the answers to the three questions that lead to a declaration elsewhere in the
program. All other questions are answered along the syntax tree. -/
structure Resolver extends Context where
  /-- The type of a binding. -/
  typeOf : SymbolId → Check Ty
  /-- The target of an alias that is used at a place. -/
  aliasTarget : SymbolId → Span → Check Ty
  /-- The signature of a function. -/
  signature : FnDecl Mark → Check Signature

end Solo

import Solo.Compilation

/-!
# Analysis

Everything that the stages find out about a program, as tables in the order of node and symbol
numbers.
-/

namespace Solo

/-- How many types, literals and names a checker has entered. -/
structure Counts where
  types : Nat
  literals : Nat
  names : Nat

def Checker.counts (c : Checker) : Counts := ⟨c.interns.types.size, c.interns.literals.size, c.names.size⟩

/-- The entries of a table in the order of node numbers. -/
def Table.byNode {ν : Type} (t : Table NodeId ν) : List (NodeId × ν) :=
  t.entries.mergeSort fun a b => a.1 ≤ b.1

structure Analysis where
  context : Context
  checkDiagnostics : List Diagnostic
  /-- Missing if the program was not run. -/
  evaluated : Option Evaluated
  /-- Taken before the tables were made. -/
  counts : Counts
  /-- All symbols but the one of unresolved names, with their types. -/
  symbols : List (Symbol × Ty)
  types : List (NodeId × Ty)
  signatures : List (NodeId × Signature)
  witnesses : List (NodeId × Witness)
  functions : List (NodeId × Bool)
  /-- What was reported while the tables were made. -/
  lateDiagnostics : List Diagnostic

def Context.tables (cx : Context) (checkDiagnostics : List Diagnostic)
    (evaluated : Option Evaluated) : Check Analysis := do
  let r := cx.resolver
  let counts := (← get).counts
  let ids := (List.range cx.symbols.size).drop 1
  let symbols ← ids.mapM fun x => return (cx.symbol x, ← r.typeOf x)
  let c ← get
  let functions ← cx.program.functions.mapM fun d => return (d.mark.id, ← r.fnIsPure d)
  let lateDiagnostics ← Check.takeDiagnostics
  return {
    context := cx
    checkDiagnostics
    evaluated
    counts
    symbols
    types := c.nodeTypes.byNode
    signatures := c.signatures.byNode
    witnesses := c.witnesses.byNode
    functions
    lateDiagnostics }

/-- Analyses a draft; it is run if it has no errors or the run is forced. -/
def Draft.analyze (d : Draft) (options : Options) (force : Bool) : Except Fault Analysis := do
  let p ← (d.context options).checked
  let evaluated ← if p.hasErrors && !force then pure none else some <$> p.evaluate
  let checker := (evaluated.map (·.checker)).getD p.checker
  let (analysis, _) ← (p.context.tables p.diagnostics evaluated).run checker
  return analysis

end Solo

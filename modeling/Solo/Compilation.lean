import Solo.Evaluation

/-!
# Compilation

Takes a bare tree through all stages: anchoring, binding, checking and, if no error was found,
folding and evaluation.
-/

namespace Solo

/-- A bare tree with its source text. -/
structure Draft where
  text : String
  stmts : List (Stmt Labels)

def Draft.context (d : Draft) (options : Options) : Context :=
  { toBoundProgram := (Source.anchor 0 d.text d.stmts).bind, options }

structure Checked where
  context : Context
  checker : Checker
  /-- What checking reported. -/
  diagnostics : List Diagnostic

def Context.checked (cx : Context) : Except Fault Checked := do
  let (diagnostics, checker) ← (do cx.check; Check.takeDiagnostics).run (.start cx.names)
  return ⟨cx, checker, diagnostics⟩

structure Evaluated where
  checker : Checker
  folding : Folding
  outcome : Outcome

namespace Checked

def allDiagnostics (p : Checked) : List Diagnostic := p.context.diagnostics ++ p.diagnostics

def hasErrors (p : Checked) : Bool := p.allDiagnostics.any Diagnostic.isError

def evaluate (p : Checked) : Except Fault Evaluated := do
  let (folding, checker) ← p.context.fold.run p.checker
  let plan : Plan := { toContext := p.context, checker, folds := folding.values }
  let outcome := plan.outcome
  return ⟨{ checker with names := outcome.names }, folding, outcome⟩

end Checked

/-- What a compilation reports. A program with errors is not evaluated and prints nothing. -/
structure Compilation where
  diagnostics : List Report
  output : List String
  error : Option EvalError
  stats : FoldStats
  /-- How many types were entered, the intrinsic ones included. -/
  typeCount : Nat

def Compilation.hasErrors (c : Compilation) : Bool := c.diagnostics.any (·.severity == .error)

def Draft.compile (d : Draft) (options : Options) : Except Fault Compilation := do
  let p ← (d.context options).checked
  let reports := p.allDiagnostics.map (·.report p.context.nameOf)
  if p.hasErrors then return ⟨reports, [], none, {}, p.checker.interns.types.size⟩
  let e ← p.evaluate
  return ⟨reports, e.outcome.output, e.outcome.error, e.folding.stats, e.checker.interns.types.size⟩

end Solo

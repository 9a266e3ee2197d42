import Solo.Folding

/-!
# Evaluation

Runs a checked program. Each call has a frame of its own; a name is looked up from the innermost
frame outwards. A call inside more calls than the limit allows fails, so every run ends: evaluation
goes along the syntax tree and, at a call, one step down from the limit.
-/

namespace Solo

inductive EvalError where
  | noCaseMatches (value : Literal)
  | divisionByZero
  | callDepthExceeded (limit : Nat)
  | uninitialized (name : String)
  | invalidOperands (op : String)
  /-- The checker has no answer for the expression at this place. -/
  | unresolved (span : Span)
deriving DecidableEq

def EvalError.message : EvalError → String
  | noCaseMatches v => s!"No case matches the value {v.source}."
  | divisionByZero => "Division by zero."
  | callDepthExceeded limit => s!"Call depth exceeded the limit of {limit}."
  | uninitialized name => s!"'{name}' is read before it is initialized."
  | invalidOperands op => s!"Operator '{op}' cannot be applied to these values."
  | unresolved span => s!"Expression at {span.text} was not resolved by the checker."

abbrev Frame := Table SymbolId Literal

structure Machine where
  /-- The frames of the open calls, innermost first. -/
  frames : List Frame
  /-- The lines printed so far, the last one first. -/
  printed : List String
  names : Roster String

/-- A run that fails keeps what it printed. -/
abbrev Eval := ExceptT EvalError (StateM Machine)

def lookFrames (x : SymbolId) : List Frame → Option Literal
  | [] => none
  | f :: outer => (f.find? x).or (lookFrames x outer)

/-- Sets a symbol in the innermost frame that has it. -/
def writeFrames (x : SymbolId) (v : Literal) : List Frame → Option (List Frame)
  | [] => none
  | f :: outer =>
    if f.contains x then some (f.insert x v :: outer) else (writeFrames x v outer).map (f :: ·)

namespace Eval

def print (line : String) : Eval Unit :=
  modify fun m => { m with printed := line :: m.printed }

def declare (x : SymbolId) (v : Literal) : Eval Unit :=
  modify fun m =>
    match m.frames with
    | [] => m
    | f :: outer => { m with frames := f.insert x v :: outer }

/-- The result of an operator; a text it makes is entered. -/
def apply (symbol : String) : Except OpError Literal → Eval Literal
  | .ok v => do
    match v with
    | .str s => modify fun m => { m with names := m.names.insert s }
    | _ => pure ()
    return v
  | .error .divisionByZero => throw .divisionByZero
  | .error .unsupported => throw (.invalidOperands symbol)

/-- Runs an action in a frame of its own, which goes when the action ends or fails. -/
def inFrame (frame : Frame) (action : Eval Literal) : Eval Literal := fun m =>
  let (result, m) := action { m with frames := frame :: m.frames }
  (result, { m with frames := m.frames.tail })

end Eval

/-- What a run needs to know of a checked and folded program. -/
structure Plan extends Context where
  checker : Checker
  folds : Table NodeId Literal

namespace Plan

variable (p : Plan)

def lookup (x : SymbolId) : Eval Literal := do
  match lookFrames x (← get).frames with
  | some v => return v
  | none => throw (.uninitialized (p.nameOf x))

def read (x : Ident Mark) : Eval Literal := do
  match p.symbolAt? x.mark.id with
  | some s => p.lookup s
  | none => throw (.unresolved x.mark.span)

def write (x : Ident Mark) (v : Literal) : Eval Unit := do
  match p.symbolAt? x.mark.id with
  | none => throw (.unresolved x.mark.span)
  | some s =>
    let m ← get
    match writeFrames s v m.frames with
    | some frames => set { m with frames }
    | none => throw (.uninitialized (p.nameOf s))

/-- Whether a value belongs to a type. A binding's singleton has the value that the binding holds
now. -/
def isInstance (v : Literal) : Ty → Eval Bool
  | .literal w => return w.sameValue v
  | .path x => return (← p.lookup x).sameValue v
  | .intrinsic .any => return true
  | .intrinsic .nothing => return false
  | .intrinsic .error => return false
  | .intrinsic k => return v.kind == k

def matchesPat (v : Literal) : Pat Mark → Eval Bool
  | .wildcard _ => return true
  | .lit _ l => return l.value.sameValue v
  | .typed m _ =>
    match p.checker.nodeTypes.find? m.id with
    | some t => p.isInstance v t
    | none => throw (.unresolved m.span)

def frameOf (d : FnDecl Mark) (args : List Literal) : Frame :=
  (d.params.zip args).foldl
    (fun frame (param, v) =>
      match p.symbolAt? param.mark.id with
      | some x => frame.insert x v
      | none => frame)
    .empty

section
variable (body : FnDecl Mark → List Literal → Eval Literal)

/-- Calls what a call is resolved to, given how a function's body is run. -/
def applyCall (m : Mark) (callee : Ident Mark) (args : List Literal) : Eval Literal := do
  if (p.symbolAt? callee.mark.id).any fun x => (p.symbol x).role = .builtin then
    Eval.print (" ".intercalate (args.map Literal.display))
    return .unit
  match p.checker.signatures.find? m.id with
  | some sig => body sig.decl args
  | none => throw (.unresolved m.span)

/-- The value of a node, which is known if the node was folded. -/
def unlessFolded (node : NodeId) (find : Eval Literal) : Eval Literal :=
  match p.folds.find? node with
  | some v => return v
  | none => find

mutual
def evalExpr : Expr Mark → Eval Literal
  | .lit l => p.unlessFolded l.mark.id (return l.value)
  | .name x => p.unlessFolded x.mark.id (p.read x)
  | .paren m e => p.unlessFolded m.id (evalExpr e)
  | .unary m op e =>
    p.unlessFolded m.id do
      let v ← evalExpr e
      Eval.apply op.symbol (op.eval v)
  | .bin m op a b =>
    p.unlessFolded m.id do
      let v ← evalExpr a
      if (op = .and ∧ v = .bool false) ∨ (op = .or ∧ v = .bool true) then return v
      let w ← evalExpr b
      Eval.apply op.symbol (op.eval v w)
  | .call m f args =>
    p.unlessFolded m.id do
      let vs ← evalExprs args
      p.applyCall body m f vs
  | .block m ss tail =>
    p.unlessFolded m.id do
      evalStmts ss
      evalTail tail
  | .assign m x e =>
    p.unlessFolded m.id do
      let v ← evalExpr e
      p.write x v
      return .unit
  | .cases m e arms =>
    p.unlessFolded m.id do
      let v ← evalExpr e
      evalArms v arms
  | .inhabitant m _ =>
    p.unlessFolded m.id do
      match p.checker.witnesses.find? m.id with
      | some w => return w.value
      | none => throw (.unresolved m.span)
  | .host m _ => p.unlessFolded m.id (return .unit)

def evalExprs : List (Expr Mark) → Eval (List Literal)
  | [] => return []
  | e :: es => do
    let v ← evalExpr e
    return v :: (← evalExprs es)

def evalTail : Option (Expr Mark) → Eval Literal
  | none => return .unit
  | some e => evalExpr e

def evalArms (v : Literal) : List (Arm Mark) → Eval Literal
  | [] => throw (.noCaseMatches v)
  | ⟨_, pat, e⟩ :: arms => do
    if ← p.matchesPat v pat then evalExpr e else evalArms v arms

def evalStmt : Stmt Mark → Eval Unit
  | .val ⟨m, _, _, _, e⟩ => do
    let v ← evalExpr e
    match p.symbolAt? m.id with
    | some x => Eval.declare x v
    | none => return
  | .expr _ e => do
    let _ ← evalExpr e
  | .typeAlias _ => return
  | .fn _ => return

def evalStmts : List (Stmt Mark) → Eval Unit
  | [] => return
  | s :: ss => do
    evalStmt s
    evalStmts ss
end

end

/-- Runs the body of a function, with `n` calls left. -/
def call : Nat → FnDecl Mark → List Literal → Eval Literal
  | 0, _, _ => throw (.callDepthExceeded p.options.maxCallDepth)
  | n + 1, d, args => Eval.inFrame (p.frameOf d args) (p.evalExpr (call n) d.body)

def run : Eval Unit := p.evalStmts (p.call p.options.maxCallDepth) p.program.stmts

end Plan

structure Outcome where
  output : List String
  error : Option EvalError
  names : Roster String

def Plan.outcome (p : Plan) : Outcome :=
  let (result, m) := p.run.run ⟨[.empty], [], p.checker.names⟩
  { output := m.printed.reverse
    error := match result with
      | .ok () => none
      | .error e => some e
    names := m.names }

end Solo

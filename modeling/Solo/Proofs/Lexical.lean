import Solo.Compilation
import Solo.Proofs.Scoping

/-!
# Lexical scopes

An evaluator with lexical scopes, to compare runs with. Each call is an activation with a frame of
its own. An evaluation is given the scopes around it, each with the activation that its bindings
belong to, and a name is looked for in the frame of that one activation only. A called function
gets the scopes around its declaration, as they stand at the call.
-/

namespace Solo

/-- A block, a parameter list or the program while it is evaluated. -/
structure LiveScope where
  declares : List SymbolId
  /-- The activation of its bindings: how many others were open when it began. -/
  activation : Nat

/-- How an evaluation with lexical scopes fails. -/
structure Lapse where
  error : EvalError
  /-- A binding that was used before its declaration while another activation has a value of it. -/
  stray : Option SymbolId

namespace Lexical

abbrev Run := ExceptT Lapse (StateM Machine)

def home? (x : SymbolId) : List LiveScope → Option Nat
  | [] => none
  | z :: outer => if x ∈ z.declares then some z.activation else home? x outer

def around (x : SymbolId) : List LiveScope → List LiveScope
  | [] => []
  | z :: outer => if x ∈ z.declares then z :: outer else around x outer

def slot? (a : Nat) (x : SymbolId) : List Frame → Option Literal
  | [] => none
  | f :: outer => if outer.length = a then f.find? x else slot? a x outer

/-- Sets a symbol that the frame of one activation holds. -/
def setSlot? (a : Nat) (x : SymbolId) (v : Literal) : List Frame → Option (List Frame)
  | [] => none
  | f :: outer =>
    if outer.length = a then
      if f.contains x then some (f.insert x v :: outer) else none
    else (setSlot? a x v outer).map (f :: ·)

section
variable {α : Type}

def lift (action : Eval α) : Run α := fun s =>
  match action s with
  | (.ok x, s') => (.ok x, s')
  | (.error e, s') => (.error ⟨e, none⟩, s')

def early (p : Plan) (x : SymbolId) : Run α := fun s =>
  (.error ⟨.uninitialized (p.nameOf x), if s.frames.any (·.contains x) then some x else none⟩, s)

end

def inFrame (frame : Frame) (action : Run Literal) : Run Literal := fun s =>
  let (result, s) := action { s with frames := frame :: s.frames }
  (result, { s with frames := s.frames.tail })

section
variable (p : Plan)

def lookup (env : List LiveScope) (x : SymbolId) : Run Literal :=
  match home? x env with
  | none => lift (throw (.uninitialized (p.nameOf x)))
  | some a => fun s =>
    match slot? a x s.frames with
    | some v => (.ok v, s)
    | none => early p x s

def read (env : List LiveScope) (x : Ident Mark) : Run Literal :=
  match p.symbolAt? x.mark.id with
  | some s => lookup p env s
  | none => lift (throw (.unresolved x.mark.span))

def write (env : List LiveScope) (x : Ident Mark) (v : Literal) : Run Unit :=
  match p.symbolAt? x.mark.id with
  | none => lift (throw (.unresolved x.mark.span))
  | some y =>
    match home? y env with
    | none => lift (throw (.uninitialized (p.nameOf y)))
    | some a => fun s =>
      match setSlot? a y v s.frames with
      | some frames => (.ok (), { s with frames })
      | none => early p y s

def matchesPat (env : List LiveScope) (v : Literal) : Pat Mark → Run Bool
  | .typed m ty =>
    match p.checker.nodeTypes.find? m.id with
    | some (.path x) => do return (← lookup p env x).sameValue v
    | _ => lift (p.matchesPat v (.typed m ty))
  | q => lift (p.matchesPat v q)

section
variable (body : List LiveScope → FnDecl Mark → List Literal → Run Literal)

def applyCall (env : List LiveScope) (m : Mark) (callee : Ident Mark) (args : List Literal) :
    Run Literal :=
  match p.symbolAt? callee.mark.id with
  | none => lift (throw (.unresolved m.span))
  | some x =>
    if (p.symbol x).role = .builtin then
      lift do
        Eval.print (" ".intercalate (args.map Literal.display))
        return .unit
    else
      match p.checker.signatures.find? m.id with
      | some sig => body (around x env) sig.decl args
      | none => lift (throw (.unresolved m.span))

def unlessFolded (node : NodeId) (find : Run Literal) : Run Literal :=
  match p.folds.find? node with
  | some v => return v
  | none => find

mutual
/-- Evaluates an expression inside scopes, given how a function's body is run inside the scopes
around its declaration. -/
def evalExpr : List LiveScope → Expr Mark → Run Literal
  | _, .lit l => unlessFolded p l.mark.id (return l.value)
  | env, .name x => unlessFolded p x.mark.id (read p env x)
  | env, .paren m e => unlessFolded p m.id (evalExpr env e)
  | env, .unary m op e =>
    unlessFolded p m.id do
      let v ← evalExpr env e
      lift (Eval.apply op.symbol (op.eval v))
  | env, .bin m op a b =>
    unlessFolded p m.id do
      let v ← evalExpr env a
      if (op = .and ∧ v = .bool false) ∨ (op = .or ∧ v = .bool true) then return v
      let w ← evalExpr env b
      lift (Eval.apply op.symbol (op.eval v w))
  | env, .call m f args =>
    unlessFolded p m.id do
      let vs ← evalExprs env args
      applyCall p body env m f vs
  | env, .block m ss tail =>
    unlessFolded p m.id do
      let s ← get
      let inner := ⟨p.declared ss, s.frames.length - 1⟩ :: env
      evalStmts inner ss
      evalTail inner tail
  | env, .assign m x e =>
    unlessFolded p m.id do
      let v ← evalExpr env e
      write p env x v
      return .unit
  | env, .cases m e arms =>
    unlessFolded p m.id do
      let v ← evalExpr env e
      evalArms env v arms
  | _, .inhabitant m _ =>
    unlessFolded p m.id
      (match p.checker.witnesses.find? m.id with
        | some w => return w.value
        | none => lift (throw (.unresolved m.span)))
  | _, .host m _ => unlessFolded p m.id (return .unit)

def evalExprs : List LiveScope → List (Expr Mark) → Run (List Literal)
  | _, [] => return []
  | env, e :: es => do
    let v ← evalExpr env e
    return v :: (← evalExprs env es)

def evalTail : List LiveScope → Option (Expr Mark) → Run Literal
  | _, none => return .unit
  | env, some e => evalExpr env e

def evalArms : List LiveScope → Literal → List (Arm Mark) → Run Literal
  | _, v, [] => lift (throw (.noCaseMatches v))
  | env, v, ⟨_, q, e⟩ :: arms => do
    if ← matchesPat p env v q then evalExpr env e else evalArms env v arms

def evalStmt : List LiveScope → Stmt Mark → Run Unit
  | env, .val ⟨m, _, _, _, e⟩ => do
    let v ← evalExpr env e
    match p.symbolAt? m.id with
    | some x => lift (Eval.declare x v)
    | none => return
  | env, .expr _ e => do
    let _ ← evalExpr env e
  | _, .typeAlias _ => return
  | _, .fn _ => return

def evalStmts : List LiveScope → List (Stmt Mark) → Run Unit
  | _, [] => return
  | env, s :: ss => do
    evalStmt env s
    evalStmts env ss
end

end

/-- Runs the body of a function as a new activation inside the scopes around its declaration. -/
def call : Nat → List LiveScope → FnDecl Mark → List Literal → Run Literal
  | 0, _, _, _ => lift (throw (.callDepthExceeded p.options.maxCallDepth))
  | n + 1, env, d, args => fun s =>
    inFrame (p.frameOf d args)
      (evalExpr p (call n) (⟨p.paramSymbols d.params, s.frames.length⟩ :: env) d.body) s

def run : Run Unit :=
  evalStmts p (call p p.options.maxCallDepth) [⟨p.declared p.program.stmts, 0⟩] p.program.stmts

end

end Lexical

structure LexicalOutcome extends Outcome where
  /-- The binding that the run failed at, if another activation has a value of it. -/
  stray : Option SymbolId

def Plan.lexicalOutcome (p : Plan) : LexicalOutcome :=
  let (result, s) := (Lexical.run p).run ⟨[.empty], [], p.checker.names⟩
  { output := s.printed.reverse
    error := match result with
      | .ok () => none
      | .error lapse => some lapse.error
    names := s.names
    stray := match result with
      | .ok () => none
      | .error lapse => lapse.stray }

end Solo

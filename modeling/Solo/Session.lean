import Solo.Analysis

/-!
# Sessions

A session asks one checker questions in any order. Questions point at nodes by their labels and at
earlier types by the number of the answer that gave them.
-/

namespace Solo

/-- A question to a checker. Labels name nodes, numbers name types from earlier answers. -/
inductive Question where
  | check
  | literal (v : Literal)
  | intrinsic (k : Kind)
  | path (label : String)
  | symbolType (label : String)
  | typeNode (label : String)
  | exprType (label : String) (expected : Option Nat)
  | nodeType (label : String)
  | widen (t : Nat)
  | lub (s t : Nat)
  | relation (s t : Nat)
  | inhabitant (t : Nat)
  | inspect (t : Nat)
  | signature (label : String)
  | callee (label : String)
  | witness (label : String)
  | constant (label : String) (depth : Nat)
  | exprPurity (label : String) (owner : Option String)
  | fnPurity (label : String)
  | symbol (label : String)
  | counts

inductive Answer where
  /-- There is nothing to tell. -/
  | nothing
  /-- A type with its number. -/
  | type (t : Ty) (number : Nat)
  /-- A binding's singleton with its number and the bits of the binding's role. -/
  | path (t : Ty) (number : Nat) (bits : Nat)
  | noSymbol
  | unstable (p : Problem)
  /-- Subtype, supertype, equal. -/
  | relation (below above equal : Bool)
  | inhabitant (w : Except Problem Witness)
  /-- A type, and the number of its literal if it has one. -/
  | inspect (t : Ty) (literal : Option (Nat × Literal))
  | signature (s : Signature)
  | callee (s : Signature)
  | witness (w : Witness)
  | value (v : Literal)
  | truth (b : Bool)
  | symbol (x : SymbolId) (s : Symbol)
  | counts (c : Counts)
  /-- The question does not fit the program. -/
  | misplaced

/-- The types that answers gave, in order. -/
abbrev Session := StateT (Array Ty) Check

namespace Session

def earlier (i : Nat) : Session Ty := do
  return (← get).getD i .error

def answer (t : Ty) : Session Answer := do
  modify (·.push t)
  return .type t ((← getThe Checker).interns.typeId t)

/-- Keeps the error type in place of a type that there is not. -/
def answerWithout (a : Answer) : Session Answer := do
  modify (·.push .error)
  return a

def answerType? : Option Ty → Session Answer
  | some t => answer t
  | none => answerWithout .nothing

end Session

open Session

namespace Resolver

variable (r : Resolver)

def withNode (label : String) (action : Node Mark → Session Answer) : Session Answer :=
  match r.program.labelled? label with
  | some n => action n
  | none => return .misplaced

def withExpr (label : String) (action : Expr Mark → Session Answer) : Session Answer :=
  r.withNode label fun
    | .expr e => action e
    | _ => return .misplaced

def withFn (label : String) (action : FnDecl Mark → Session Answer) : Session Answer :=
  r.withNode label fun
    | .stmt (.fn d) => action d
    | _ => return .misplaced

def respond : Question → Session Answer
  | .check => do
    r.checkStmts r.program.stmts
    return .nothing
  | .literal v => do
    Check.enterText v
    answer (← Check.enterType (.literal v))
  | .intrinsic k => answer (.intrinsic k)
  | .path label =>
    r.withNode label fun n => do
      match r.symbolAt? n.mark.id with
      | none => answerWithout .noSymbol
      | some x =>
        match r.stablePath x with
        | .error p => answerWithout (.unstable p)
        | .ok t =>
          let t ← Check.enterType t
          modify (·.push t)
          return .path t ((← getThe Checker).interns.typeId t) (r.symbol x).role.bits
  | .symbolType label =>
    r.withNode label fun n => do
      answer (← r.typeOf ((r.symbolAt? n.mark.id).getD Symbol.unresolvedId))
  | .typeNode label =>
    r.withNode label fun
      | .ty t => do answer (← r.typeOfNode t)
      | _ => return .misplaced
  | .exprType label expected =>
    r.withExpr label fun e => do
      let expected ← expected.mapM earlier
      answer (← r.typeOfExpr e expected)
  | .nodeType label =>
    r.withNode label fun n => do
      answerType? ((← getThe Checker).nodeTypes.find? n.mark.id)
  | .widen t => do answer (← r.widen (← earlier t))
  | .lub s t => do answer (← r.lub (← earlier s) (← earlier t))
  | .relation s t => do
    let s ← earlier s
    let t ← earlier t
    let below ← r.isSubtype s t
    let above ← r.isSubtype t s
    return .relation below above (s == t)
  | .inhabitant t => do return .inhabitant (← r.inhabitant (← earlier t))
  | .inspect t => do
    let t ← earlier t
    let interns := (← getThe Checker).interns
    return .inspect t (t.literal?.map fun v => (interns.literalId v, v))
  | .signature label => r.withFn label fun d => do return .signature (← r.signature d)
  | .callee label =>
    r.withNode label fun n => do
      match (← getThe Checker).signatures.find? n.mark.id with
      | some s => return .callee s
      | none => return .nothing
  | .witness label =>
    r.withNode label fun n => do
      match (← getThe Checker).witnesses.find? n.mark.id with
      | some w => return .witness w
      | none => return .nothing
  | .constant label depth =>
    r.withExpr label fun e => do
      match ← r.constantAt depth e with
      | some v => return .value v
      | none => return .nothing
  | .exprPurity label none => r.withExpr label fun e => do return .truth (← r.isPure e)
  | .exprPurity label (some owner) =>
    r.withExpr label fun e =>
      r.withFn owner fun d => do return .truth (← r.isPureWithin (some d) e)
  | .fnPurity label => r.withFn label fun d => do return .truth (← r.fnIsPure d)
  | .symbol label =>
    r.withNode label fun n => do
      match r.symbolAt? n.mark.id with
      | some x => return .symbol x (r.symbol x)
      | none => return .nothing
  | .counts => do return .counts (← getThe Checker).counts

/-- Answers questions one after the other, each with what was reported meanwhile. -/
def respondAll (qs : List Question) : Session (List (Answer × List Diagnostic)) :=
  qs.mapM fun q => do
    let a ← r.respond q
    return (a, ← Check.takeDiagnostics)

end Resolver

/-- The answers of a session and how many types were entered by its end. -/
structure SessionReport where
  context : Context
  answers : List (Answer × List Diagnostic)
  typeCount : Nat

def Draft.ask (d : Draft) (options : Options) (qs : List Question) :
    Except Fault SessionReport := do
  let cx := d.context options
  let ((answers, _), checker) ← ((cx.resolver.respondAll qs).run #[]).run (.start cx.names)
  return ⟨cx, answers, checker.interns.types.size⟩

end Solo

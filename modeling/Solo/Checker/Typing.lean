import Solo.Checker.Constant
import Solo.Checker.Overload

/-!
# Typing

The types of expressions, bindings and functions. An expression is typed once: its first type is
kept, whatever type is expected of it later. The type of a binding and the result of a function
are found where they are first needed, and a goal that needs itself is reported where it began.
-/

namespace Solo

namespace Resolver

variable (r : Resolver)

/-! ### Single expressions -/

/-- The type of a name that is read. A stable binding takes its own singleton only where that is
expected. -/
def typeOfName (x : Ident Mark) (expected : Option Ty) : Check Ty := do
  match r.symbolAt? x.mark.id with
  | none => return .error
  | some s =>
    let sym := r.symbol s
    if sym.role.isFunction then
      Check.report x.mark.span (.functionAsValue sym.name)
      return .error
    let declared ← r.typeOf s
    if expected = some (.path s) ∧ sym.role.isStable then return .path s
    return declared

def typeOfResult (folded : Option (Except OpError Literal)) (k : Kind) : Check Ty := do
  match folded with
  | some (.ok v) =>
    Check.enterText v
    Check.enterType (.literal v)
  | _ => return .intrinsic k

def typeOfUnary (span : Span) (op : UnaryOp) (t : Ty) : Check Ty := do
  if t.isError then return .error
  match op.resultKind (← r.baseKind t) with
  | none =>
    Check.report span (.unaryMismatch op t)
    return .error
  | some k => typeOfResult (t.literal?.map op.eval) k

def typeOfBinary (span : Span) (op : BinOp) (s t : Ty) : Check Ty := do
  if s.isError || t.isError then return .error
  let j ← r.baseKind s
  let k ← r.baseKind t
  match op.resultKind j k with
  | none =>
    Check.report span (.binaryMismatch op s t)
    return .error
  | some k =>
    match s, t with
    | .literal v, .literal w => typeOfResult (some (op.eval v w)) k
    | _, _ => return .intrinsic k

/-- The type of an inhabitant expression, whose value is recorded if the type has one. -/
def typeOfInhabitant (m : Mark) (node : TyNode Mark) : Check Ty := do
  let t ← r.typeOfNode node
  if t.isError then return t
  match ← r.inhabitant t with
  | .ok w => Check.recordWitness m.id w
  | .error p => Check.report node.span p
  return t

/-- Types a pattern, which has to have values in common with what it is matched against. -/
def checkPat (scrutinee : Ty) : Pat Mark → Check Unit
  | .wildcard _ => return
  | .lit m l => do
    let t ← Check.enterType (.literal l.value)
    check m t
  | .typed m node => do
    let t ← r.typeOfNode node
    check m t
where
  /-- Records and compares the type of a pattern. -/
  check (m : Mark) (t : Ty) : Check Unit := do
    Check.recordType m.id t
    if t.isError || scrutinee.isError then return
    if ← r.isSubtype t scrutinee then return
    if ← r.isSubtype scrutinee t then return
    Check.report m.span (.incompatiblePattern t scrutinee)

def signaturesOf (x : SymbolId) : Check (List Signature) :=
  ((r.symbol x).decls.filterMap Decl.fn?).mapM r.signature

/-- The types that the arguments of a call are expected to have: if only one overload takes as
many arguments, those of its parameters. -/
def expectedArgs (count : Nat) (sigs : List Signature) : List Ty :=
  match sigs.filter fun sig => sig.params.length == count with
  | [only] => only.params
  | _ => []

/-! ### Trees -/

mutual
def typeOfExpr : Expr Mark → Option Ty → Check Ty
  | .lit l, _ => Check.once l.mark.id (Check.enterType (.literal l.value))
  | .name x, expected => Check.once x.mark.id (r.typeOfName x expected)
  | .paren m e, expected => Check.once m.id (typeOfExpr e expected)
  | .unary m op e, _ =>
    Check.once m.id do
      let t ← typeOfExpr e none
      r.typeOfUnary m.span op t
  | .bin m op a b, _ =>
    Check.once m.id do
      let s ← typeOfExpr a none
      let t ← typeOfExpr b none
      r.typeOfBinary m.span op s t
  | .call m f args, _ =>
    Check.once m.id do
      match r.symbolAt? f.mark.id with
      | none =>
        let _ ← typeOfArgs args []
        return .error
      | some x =>
        let sym := r.symbol x
        match sym.role with
        | .builtin =>
          let _ ← typeOfArgs args []
          if args.length ≠ 1 then Check.report m.span (.wrongArity 1 args.length)
          return .intrinsic .unit
        | .function =>
          let sigs ← r.signaturesOf x
          let types ← typeOfArgs args (expectedArgs args.length sigs)
          match ← r.selectOverload ⟨m.span, sym.name, args.map Expr.span⟩ sigs types with
          | some sig =>
            Check.recordSignature m.id sig
            return sig.result
          | none => return .error
        | _ =>
          let _ ← typeOfArgs args []
          Check.report f.mark.span (.notCallable sym.name)
          return .error
  | .block m ss tail, expected =>
    Check.once m.id do
      checkStmts ss
      typeOfTail tail expected
  | .assign m x e, _ =>
    Check.once m.id do
      match r.symbolAt? x.mark.id with
      | none =>
        let _ ← typeOfExpr e none
      | some s =>
        if (r.symbol s).role.isVar then
          let declared ← r.typeOf s
          let t ← typeOfExpr e (some declared)
          r.checkAssignable t declared e.span
        else
          Check.report x.mark.span (.notAVariable (r.nameOf s))
          let _ ← typeOfExpr e none
      return .intrinsic .unit
  | .cases m e arms, expected =>
    Check.once m.id do
      let t ← typeOfExpr e none
      typeOfArms t.widenLiteral expected false none arms
  | .inhabitant m node, _ => Check.once m.id (r.typeOfInhabitant m node)
  | .host m _, _ => Check.once m.id (return .intrinsic .unit)

def typeOfArgs : List (Expr Mark) → List Ty → Check (List Ty)
  | [], _ => return []
  | e :: es, expected => do
    let t ← typeOfExpr e expected.head?
    return t :: (← typeOfArgs es expected.tail)

def typeOfTail : Option (Expr Mark) → Option Ty → Check Ty
  | none, _ => return .intrinsic .unit
  | some e, expected => typeOfExpr e expected

/-- A type above the types of all arms, given whether an earlier arm matches everything and the
type above the earlier arms. -/
def typeOfArms (scrutinee : Ty) (expected : Option Ty) (closed : Bool) (above : Option Ty) :
    List (Arm Mark) → Check Ty
  | [] => return above.getD (.intrinsic .nothing)
  | ⟨_, p, e⟩ :: arms => do
    if closed then Check.report p.span .unreachableCase
    r.checkPat scrutinee p
    let t ← typeOfExpr e expected
    let above ←
      match above with
      | some prev => r.lub prev t
      | none => pure t
    typeOfArms scrutinee expected (closed || p.isWildcard) (some above) arms

def checkStmt : Stmt Mark → Check Unit
  | .val ⟨m, _, _, ty, e⟩ => do
    match r.symbolAt? m.id with
    | none => return
    | some x =>
      let declared ← r.typeOf x
      if ty.isSome then
        let t ← typeOfExpr e (some declared)
        r.checkAssignable t declared e.span
      else
        let _ ← typeOfExpr e none
  | .typeAlias ⟨m, name, _⟩ => do
    match r.symbolAt? m.id with
    | none => return
    | some x => let _ ← r.aliasTarget x name.mark.span
  | .fn ⟨m, name, params, result, e⟩ => do
    let sig ← r.signature ⟨m, name, params, result, e⟩
    if result.isSome then
      let t ← typeOfExpr e (some sig.result)
      r.checkAssignable t sig.result e.span
    else
      let _ ← typeOfExpr e none
  | .expr _ e => do
    let _ ← typeOfExpr e none

def checkStmts : List (Stmt Mark) → Check Unit
  | [] => return
  | s :: ss => do
    checkStmt s
    checkStmts ss
end

/-! ### Declarations -/

/-- The type that a declaration gives its binding. A literal's singleton is inferred for a final
value only. -/
def typeOfVal (d : ValDecl Mark) : Check Ty := do
  match d.ty with
  | some node => r.typeOfNode node
  | none =>
    let t ← r.typeOfExpr d.init none
    if d.kind = .finalVal ∧ r.options.inferFinalSingleton then return t else return t.widenLiteral

def typeOfSymbol (x : SymbolId) : Check Ty := do
  match (← get).symbolTypes.find? x with
  | some t => return t
  | none =>
    let s := r.symbol x
    match s.role.isBinding, s.decls.head? with
    | true, some d =>
      if !(← Check.pursue (.typeOf x)) then return .error
      let found ←
        match d with
        | .param p => r.typeOfNode p.ty
        | .val v => r.typeOfVal v
        | _ => pure .error
      let looped ← Check.conclude
      if looped then Check.report d.name.mark.span (.circularInitializer s.name)
      let t := if looped then .error else found
      modify fun c => { c with symbolTypes := c.symbolTypes.insertNew x t }
      return t
    | _, _ => return .error

def targetOfAlias (x : SymbolId) (span : Span) : Check Ty := do
  match (← get).aliasTargets.find? x with
  | some t => return t
  | none =>
    if !(← Check.pursue (.targetOf x)) then return .error
    let s := r.symbol x
    let found ←
      match s.decls.head? with
      | some (.typeAlias d) => r.typeOfNode d.ty
      | _ => pure .error
    let looped ← Check.conclude
    if looped then Check.report span (.circularAlias s.name)
    let t := if looped then .error else found
    modify fun c => { c with aliasTargets := c.aliasTargets.insertNew x t }
    return t

def typeOfParam (p : Param Mark) : Check Ty :=
  match r.targets.find? p.mark.id with
  | some x => r.typeOf x
  | none => r.typeOfNode p.ty

/-- The signature of a function. A result that is not declared is the widened type of the body; a
function that needs its own result to infer it has none yet. -/
def signatureOf (d : FnDecl Mark) : Check Signature := do
  match (← get).signatures.find? d.mark.id with
  | some sig => return sig
  | none =>
    let x := (r.targets.find? d.mark.id).getD Symbol.unresolvedId
    let params ← d.params.mapM r.typeOfParam
    match d.result with
    | some node =>
      let t ← r.typeOfNode node
      keep ⟨d, x, params, t⟩
    | none =>
      if !(← Check.pursue (.resultOf d.mark.id)) then return ⟨d, x, params, .error⟩
      let body ← r.typeOfExpr d.body none
      let looped ← Check.conclude
      if looped then Check.report d.name.mark.span (.recursiveWithoutResult d.name.name)
      keep ⟨d, x, params, if looped then .error else body.widenLiteral⟩
where
  /-- Keeps a signature. -/
  keep (sig : Signature) : Check Signature := do
    modify fun c => { c with signatures := c.signatures.insertNew sig.decl.mark.id sig }
    return sig

/-! ### The whole program -/

/-- Answers questions that lead elsewhere, to a depth of `n` such questions inside each other. -/
def ofDepth (cx : Context) : Nat → Resolver
  | 0 =>
    { toContext := cx
      typeOf := fun _ => throw .endless
      aliasTarget := fun _ _ => throw .endless
      signature := fun _ => throw .endless }
  | n + 1 =>
    let inner := ofDepth cx n
    { toContext := cx
      typeOf := inner.typeOfSymbol
      aliasTarget := inner.targetOfAlias
      signature := inner.signatureOf }

end Resolver

namespace Context

/-- A bound on the questions inside each other: a goal is not taken up inside itself, there is one
for each symbol and each function at most, and a declared signature asks for its parts only. -/
def questionBound (cx : Context) : Nat := 2 * (cx.symbols.size + cx.nodeCount) + 2

def resolver (cx : Context) : Resolver := .ofDepth cx cx.questionBound

def check (cx : Context) : Check Unit := cx.resolver.checkStmts cx.program.stmts

end Context

end Solo

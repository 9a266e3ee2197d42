import Solo.Table
import Solo.Diagnostic
import Solo.Syntax.Anchor
import Solo.Syntax.Node

/-!
# Binding

Binding gives every declaration a symbol and every use of a name the symbol it stands for. The
declarations of a program, a block or a parameter list are visible in the whole of it. Values and
types have separate namespaces. Functions of one name in one scope share a symbol; any other
second declaration is reported and gets a symbol that no name resolves to.
-/

namespace Solo

inductive Namespace where
  | value
  | type
deriving DecidableEq

/-- The names that one block, parameter list or program declares. -/
abbrev Scope := Table (Namespace × String) SymbolId

structure Binder where
  symbols : Array Symbol
  /-- The scopes around the current place, innermost first. -/
  scopes : List Scope
  /-- The symbol of each declaration and each resolved use, in the order of binding. -/
  targets : Table NodeId SymbolId
  /-- The symbols that some assignment targets. -/
  assigned : List SymbolId
  diagnostics : Array Diagnostic

abbrev Binding := StateM Binder

namespace Binder

/-- The outermost scope holds the built-in function. -/
def start : Binder where
  symbols := #[.unresolved, ⟨Keyword.println, .builtin, []⟩]
  scopes := [Table.empty.insert (.value, Keyword.println) 1]
  targets := .empty
  assigned := []
  diagnostics := #[]

def lookup? (b : Binder) (ns : Namespace) (name : String) : Option SymbolId :=
  b.scopes.findSome? (·.find? (ns, name))

def here? (b : Binder) (ns : Namespace) (name : String) : Option SymbolId :=
  b.scopes.head?.bind (·.find? (ns, name))

def symbol (b : Binder) (x : SymbolId) : Symbol := b.symbols.getD x .unresolved

end Binder

namespace Binding

def report (span : Span) (problem : Problem) : Binding Unit :=
  modify fun b => { b with diagnostics := b.diagnostics.push ⟨span, problem⟩ }

/-- Records what a node stands for. -/
def target (node : NodeId) (x : SymbolId) : Binding Unit :=
  modify fun b => { b with targets := b.targets.push node x }

def newSymbol (s : Symbol) : Binding SymbolId := fun b =>
  (b.symbols.size, { b with symbols := b.symbols.push s })

def expose (ns : Namespace) (name : String) (x : SymbolId) : Binding Unit :=
  modify fun b =>
    match b.scopes with
    | [] => b
    | scope :: outer => { b with scopes := scope.insert (ns, name) x :: outer }

def inScope (action : Binding Unit) : Binding Unit := do
  modify fun b => { b with scopes := Table.empty :: b.scopes }
  action
  modify fun b => { b with scopes := b.scopes.tail }

def addDecl (x : SymbolId) (d : Decl) : Binding Unit :=
  modify fun b =>
    { b with symbols := b.symbols.modify x fun s => { s with decls := s.decls ++ [d] } }

def declare (ns : Namespace) (role : Role) (d : Decl) : Binding Unit := do
  let b ← get
  let name := d.name.name
  match b.here? ns name with
  | some first =>
    let s := b.symbol first
    if s.role.isFunction && role.isFunction then
      addDecl first d
      target d.mark.id first
    else
      let firstSpan := (s.decls.head?.map (·.name.mark.span)).getD default
      report d.name.mark.span (.duplicateName name firstSpan)
      target d.mark.id (← newSymbol ⟨name, role, [d]⟩)
  | none =>
    let x ← newSymbol ⟨name, role, [d]⟩
    expose ns name x
    target d.mark.id x

def hoist : Stmt Mark → Binding Unit
  | .val d =>
    declare .value
      (match d.kind with
        | .val => .val false
        | .finalVal => .val true
        | .var => .var false)
      (.val d)
  | .typeAlias d => declare .type .typeAlias (.typeAlias d)
  | .fn d => declare .value .function (.fn d)
  | .expr _ _ => return

def resolveValue (x : Ident Mark) : Binding SymbolId := do
  match (← get).lookup? .value x.name with
  | some s =>
    target x.mark.id s
    return s
  | none =>
    report x.mark.span (.unknownName x.name)
    target x.mark.id Symbol.unresolvedId
    return Symbol.unresolvedId

/-- Resolves a use of a type: an alias, else a kind, which needs no symbol, else a value. -/
def resolveType (x : Ident Mark) : Binding Unit := do
  let b ← get
  match b.lookup? .type x.name with
  | some s => target x.mark.id s
  | none =>
    if (Kind.ofName? x.name).isSome then return
    else
      match b.lookup? .value x.name with
      | some s => target x.mark.id s
      | none =>
        report x.mark.span (.unknownName x.name)
        target x.mark.id Symbol.unresolvedId

def assign (x : SymbolId) : Binding Unit :=
  modify fun b => { b with assigned := x :: b.assigned }

end Binding

open Binding

mutual
def Expr.bind : Expr Mark → Binding Unit
  | .lit _ => return
  | .host _ _ => return
  | .name x => do
    let _ ← resolveValue x
  | .paren _ e => e.bind
  | .unary _ _ e => e.bind
  | .bin _ _ l r => do
    l.bind
    r.bind
  | .call _ f args => do
    let _ ← resolveValue f
    bindExprs args
  | .block _ ss tail =>
    inScope do
      ss.forM hoist
      bindStmts ss
      bindTail tail
  | .assign _ x e => do
    let s ← resolveValue x
    if s ≠ Symbol.unresolvedId then Binding.assign s
    e.bind
  | .cases _ e arms => do
    e.bind
    bindArms arms
  | .inhabitant _ t => t.bind

def bindExprs : List (Expr Mark) → Binding Unit
  | [] => return
  | e :: es => do
    e.bind
    bindExprs es

def bindTail : Option (Expr Mark) → Binding Unit
  | none => return
  | some e => e.bind

def bindArms : List (Arm Mark) → Binding Unit
  | [] => return
  | ⟨_, p, e⟩ :: as => do
    p.bind
    e.bind
    bindArms as

def Pat.bind : Pat Mark → Binding Unit
  | .wildcard _ => return
  | .lit _ _ => return
  | .typed _ t => t.bind

def TyNode.bind : TyNode Mark → Binding Unit
  | .refer _ x => resolveType x
  | .singleton _ e => e.bind
  | .lit _ _ _ => return
  | .paren _ t => t.bind

def bindTy? : Option (TyNode Mark) → Binding Unit
  | none => return
  | some t => t.bind

def bindParams : List (Param Mark) → Binding Unit
  | [] => return
  | ⟨_, _, t⟩ :: ps => do
    t.bind
    bindParams ps

def Stmt.bind : Stmt Mark → Binding Unit
  | .val ⟨_, _, _, t, e⟩ => do
    bindTy? t
    e.bind
  | .typeAlias ⟨_, _, t⟩ => t.bind
  | .fn ⟨_, _, ps, t, e⟩ =>
    inScope do
      ps.forM fun p => declare .value .param (.param p)
      bindParams ps
      bindTy? t
      e.bind
  | .expr _ e => e.bind

def bindStmts : List (Stmt Mark) → Binding Unit
  | [] => return
  | s :: ss => do
    s.bind
    bindStmts ss
end

/-- Marks the variables that no assignment targets. -/
def Binder.freeze (b : Binder) : Array Symbol :=
  b.symbols.mapIdx fun x s =>
    match s.role with
    | .var _ => { s with role := .var (!b.assigned.contains x) }
    | _ => s

structure BoundProgram where
  program : Program Mark
  names : Roster String
  symbols : Array Symbol
  targets : Table NodeId SymbolId
  diagnostics : List Diagnostic

/-- Binds a program. Its own scope lies inside the one of the built-in function. -/
def Source.bind (src : Source) : BoundProgram :=
  let stmts := src.program.stmts
  let ((), b) := (inScope do stmts.forM hoist; bindStmts stmts).run .start
  ⟨src.program, src.names, b.freeze, b.targets, b.diagnostics.toList⟩

namespace BoundProgram

def symbol (p : BoundProgram) (x : SymbolId) : Symbol := p.symbols.getD x .unresolved

def nameOf (p : BoundProgram) (x : SymbolId) : String := (p.symbol x).name

/-- What a node stands for, if its name was resolved. -/
def symbolAt? (p : BoundProgram) (node : NodeId) : Option SymbolId :=
  (p.targets.find? node).filter (· ≠ Symbol.unresolvedId)

/-- The number of nodes. The program's node is the last one. -/
def nodeCount (p : BoundProgram) : Nat := p.program.mark.id + 1

end BoundProgram

end Solo

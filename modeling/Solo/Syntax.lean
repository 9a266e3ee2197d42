import Solo.Literal
import Solo.Operator
import Solo.Span

/-!
# Syntax trees

Trees of the language. Every node carries a `ν`: a bare tree carries only the labels that
questions point at, an anchored tree a `Mark` with the node's number and span.
-/

namespace Solo

abbrev NodeId := Nat

abbrev Labels := List String

structure Mark where
  id : NodeId
  span : Span
  labels : Labels
deriving DecidableEq

inductive ValKind where
  | val
  | finalVal
  | var
deriving DecidableEq

structure Ident (ν : Type) where
  mark : ν
  name : String

structure Lit (ν : Type) where
  mark : ν
  value : Literal

mutual
inductive Expr (ν : Type) where
  | lit (l : Lit ν)
  | name (x : Ident ν)
  | paren (mark : ν) (e : Expr ν)
  | unary (mark : ν) (op : UnaryOp) (e : Expr ν)
  | bin (mark : ν) (op : BinOp) (l r : Expr ν)
  | call (mark : ν) (callee : Ident ν) (args : List (Expr ν))
  | block (mark : ν) (stmts : List (Stmt ν)) (tail : Option (Expr ν))
  | assign (mark : ν) (target : Ident ν) (e : Expr ν)
  | cases (mark : ν) (scrutinee : Expr ν) (arms : List (Arm ν))
  /-- The one value of a type. -/
  | inhabitant (mark : ν) (ty : TyNode ν)
  /-- A construct of the host language, known by its description only. -/
  | host (mark : ν) (desc : String)

structure Arm (ν : Type) where
  mark : ν
  pat : Pat ν
  body : Expr ν

inductive Pat (ν : Type) where
  | wildcard (mark : ν)
  | lit (mark : ν) (l : Lit ν)
  | typed (mark : ν) (ty : TyNode ν)

inductive TyNode (ν : Type) where
  | refer (mark : ν) (x : Ident ν)
  /-- `operand.type` -/
  | singleton (mark : ν) (operand : Expr ν)
  /-- A literal as a type, with or without `.type` after it. -/
  | lit (mark : ν) (l : Lit ν) (dotType : Bool)
  | paren (mark : ν) (ty : TyNode ν)

structure ValDecl (ν : Type) where
  mark : ν
  kind : ValKind
  name : Ident ν
  ty : Option (TyNode ν)
  init : Expr ν

structure AliasDecl (ν : Type) where
  mark : ν
  name : Ident ν
  ty : TyNode ν

structure Param (ν : Type) where
  mark : ν
  name : Ident ν
  ty : TyNode ν

structure FnDecl (ν : Type) where
  mark : ν
  name : Ident ν
  params : List (Param ν)
  result : Option (TyNode ν)
  body : Expr ν

inductive Stmt (ν : Type) where
  | val (d : ValDecl ν)
  | typeAlias (d : AliasDecl ν)
  | fn (d : FnDecl ν)
  | expr (mark : ν) (e : Expr ν)
end

structure Program (ν : Type) where
  mark : ν
  stmts : List (Stmt ν)

variable {ν : Type}

/-! ### What a node carries -/

def Expr.mark : Expr ν → ν
  | .lit l => l.mark
  | .name x => x.mark
  | .paren m _ | .unary m _ _ | .bin m _ _ _ | .call m _ _ | .block m _ _ | .assign m _ _
  | .cases m _ _ | .inhabitant m _ | .host m _ => m

def Pat.mark : Pat ν → ν
  | .wildcard m | .lit m _ | .typed m _ => m

def TyNode.mark : TyNode ν → ν
  | .refer m _ | .singleton m _ | .lit m _ _ | .paren m _ => m

def Stmt.mark : Stmt ν → ν
  | .val d => d.mark
  | .typeAlias d => d.mark
  | .fn d => d.mark
  | .expr m _ => m

def Pat.isWildcard : Pat ν → Bool
  | .wildcard _ => true
  | _ => false

/-- The part of a source text that an anchored node stands for. -/
abbrev Expr.span (e : Expr Mark) : Span := e.mark.span

abbrev Expr.id (e : Expr Mark) : NodeId := e.mark.id

abbrev Pat.span (p : Pat Mark) : Span := p.mark.span

abbrev TyNode.span (t : TyNode Mark) : Span := t.mark.span

abbrev Stmt.span (s : Stmt Mark) : Span := s.mark.span

end Solo

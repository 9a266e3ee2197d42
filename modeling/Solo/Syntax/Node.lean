import Solo.Syntax

/-!
# Nodes

Every part of a tree that carries a mark, in the order in which the parts are built: a node after
its children.
-/

namespace Solo

/-- A part of a tree. A literal or name that is an expression counts as an expression. -/
inductive Node (ν : Type) where
  | ident (x : Ident ν)
  | lit (l : Lit ν)
  | expr (e : Expr ν)
  | arm (a : Arm ν)
  | pat (p : Pat ν)
  | ty (t : TyNode ν)
  | param (p : Param ν)
  | stmt (s : Stmt ν)
  | program (p : Program ν)

inductive NodeKind where
  | program
  | ident
  | valDecl
  | aliasDecl
  | fnDecl
  | paramDecl
  | exprStmt
  | lit
  | paren
  | unary
  | bin
  | call
  | block
  | assign
  | cases
  | arm
  | inhabitant
  | host
  | wildcardPat
  | litPat
  | typedPat
  | referTy
  | singletonTy
  | litTy
  | parenTy
deriving DecidableEq

variable {ν : Type}

def Expr.nodeKind : Expr ν → NodeKind
  | .lit _ => .lit
  | .name _ => .ident
  | .paren _ _ => .paren
  | .unary _ _ _ => .unary
  | .bin _ _ _ _ => .bin
  | .call _ _ _ => .call
  | .block _ _ _ => .block
  | .assign _ _ _ => .assign
  | .cases _ _ _ => .cases
  | .inhabitant _ _ => .inhabitant
  | .host _ _ => .host

def Pat.nodeKind : Pat ν → NodeKind
  | .wildcard _ => .wildcardPat
  | .lit _ _ => .litPat
  | .typed _ _ => .typedPat

def TyNode.nodeKind : TyNode ν → NodeKind
  | .refer _ _ => .referTy
  | .singleton _ _ => .singletonTy
  | .lit _ _ _ => .litTy
  | .paren _ _ => .parenTy

def Stmt.nodeKind : Stmt ν → NodeKind
  | .val _ => .valDecl
  | .typeAlias _ => .aliasDecl
  | .fn _ => .fnDecl
  | .expr _ _ => .exprStmt

namespace Node

def kind : Node ν → NodeKind
  | ident _ => .ident
  | lit _ => .lit
  | expr e => e.nodeKind
  | arm _ => .arm
  | pat p => p.nodeKind
  | ty t => t.nodeKind
  | param _ => .paramDecl
  | stmt s => s.nodeKind
  | program _ => .program

def mark : Node ν → ν
  | ident x => x.mark
  | lit l => l.mark
  | expr e => e.mark
  | arm a => a.mark
  | pat p => p.mark
  | ty t => t.mark
  | param p => p.mark
  | stmt s => s.mark
  | program p => p.mark

end Node

def NodeKind.isDecl : NodeKind → Bool
  | .valDecl | .aliasDecl | .fnDecl | .paramDecl => true
  | _ => false

/-! ### All nodes of a tree -/

mutual
def Expr.nodes : Expr ν → List (Node ν)
  | .lit l => [.expr (.lit l)]
  | .name x => [.expr (.name x)]
  | .paren m e => e.nodes ++ [.expr (.paren m e)]
  | .unary m op e => e.nodes ++ [.expr (.unary m op e)]
  | .bin m op l r => l.nodes ++ r.nodes ++ [.expr (.bin m op l r)]
  | .call m f args => .ident f :: exprsNodes args ++ [.expr (.call m f args)]
  | .block m ss tail => stmtsNodes ss ++ tailNodes tail ++ [.expr (.block m ss tail)]
  | .assign m x e => .ident x :: e.nodes ++ [.expr (.assign m x e)]
  | .cases m e arms => e.nodes ++ armsNodes arms ++ [.expr (.cases m e arms)]
  | .inhabitant m t => t.nodes ++ [.expr (.inhabitant m t)]
  | .host m desc => [.expr (.host m desc)]

def exprsNodes : List (Expr ν) → List (Node ν)
  | [] => []
  | e :: es => e.nodes ++ exprsNodes es

def tailNodes : Option (Expr ν) → List (Node ν)
  | none => []
  | some e => e.nodes

def Arm.nodes : Arm ν → List (Node ν)
  | ⟨m, p, e⟩ => p.nodes ++ e.nodes ++ [.arm ⟨m, p, e⟩]

def armsNodes : List (Arm ν) → List (Node ν)
  | [] => []
  | a :: as => a.nodes ++ armsNodes as

def Pat.nodes : Pat ν → List (Node ν)
  | .wildcard m => [.pat (.wildcard m)]
  | .lit m l => [.lit l, .pat (.lit m l)]
  | .typed m t => t.nodes ++ [.pat (.typed m t)]

def TyNode.nodes : TyNode ν → List (Node ν)
  | .refer m x => [.ident x, .ty (.refer m x)]
  | .singleton m e => e.nodes ++ [.ty (.singleton m e)]
  | .lit m l dot => [.lit l, .ty (.lit m l dot)]
  | .paren m t => t.nodes ++ [.ty (.paren m t)]

def tyNodes? : Option (TyNode ν) → List (Node ν)
  | none => []
  | some t => t.nodes

def Param.nodes : Param ν → List (Node ν)
  | ⟨m, x, t⟩ => .ident x :: t.nodes ++ [.param ⟨m, x, t⟩]

def paramsNodes : List (Param ν) → List (Node ν)
  | [] => []
  | p :: ps => p.nodes ++ paramsNodes ps

def Stmt.nodes : Stmt ν → List (Node ν)
  | .val ⟨m, k, x, t, e⟩ => .ident x :: tyNodes? t ++ e.nodes ++ [.stmt (.val ⟨m, k, x, t, e⟩)]
  | .typeAlias ⟨m, x, t⟩ => .ident x :: t.nodes ++ [.stmt (.typeAlias ⟨m, x, t⟩)]
  | .fn ⟨m, x, ps, t, e⟩ =>
    .ident x :: paramsNodes ps ++ tyNodes? t ++ e.nodes ++ [.stmt (.fn ⟨m, x, ps, t, e⟩)]
  | .expr m e => e.nodes ++ [.stmt (.expr m e)]

def stmtsNodes : List (Stmt ν) → List (Node ν)
  | [] => []
  | s :: ss => s.nodes ++ stmtsNodes ss
end

namespace Program

/-- All nodes, a node after its children and the program last. -/
def nodes (p : Program ν) : List (Node ν) := stmtsNodes p.stmts ++ [.program p]

def functions (p : Program ν) : List (FnDecl ν) :=
  p.nodes.filterMap fun
    | .stmt (.fn d) => some d
    | _ => none

def labelled? (p : Program Mark) (label : String) : Option (Node Mark) :=
  p.nodes.reverse.find? fun n => n.mark.labels.contains label

end Program

end Solo

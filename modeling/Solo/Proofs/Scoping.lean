import Solo.Binding
import Solo.Proofs.Trees

/-!
# Scopes

What it means that the names of a program stand for what is declared around them. `Scoped p env`
says of a tree that each of its names has a symbol of `env`, the symbols visible at the tree, or of
a block, parameter list or function around the name inside the tree.
-/

namespace Solo

namespace Decl

/-- The namespace that a declaration adds to. -/
def space : Decl → Namespace
  | val _ | param _ | fn _ => .value
  | typeAlias _ => .type

/-- The role of a symbol with this declaration, before it is known which variables are assigned. -/
def role : Decl → Role
  | val d =>
    match d.kind with
    | .val => .val false
    | .finalVal => .val true
    | .var => .var false
  | param _ => .param
  | typeAlias _ => .typeAlias
  | fn _ => .function

def node : Decl → Node Mark
  | val d => .stmt (.val d)
  | param d => .param d
  | typeAlias d => .stmt (.typeAlias d)
  | fn d => .stmt (.fn d)

theorem val_isBinding (d : ValDecl Mark) : (val d).role.isBinding = true := by
  obtain ⟨_, kind, _, _, _⟩ := d
  cases kind <;> rfl

theorem node_mark (d : Decl) : d.node.mark = d.mark := by
  cases d <;> rfl

end Decl

def Stmt.decl? : Stmt Mark → Option Decl
  | .val d => some (.val d)
  | .typeAlias d => some (.typeAlias d)
  | .fn d => some (.fn d)
  | .expr _ _ => none

/-- A role without the mark of a variable that is never assigned. -/
def Role.thaw : Role → Role
  | .var _ => .var false
  | r => r

theorem Role.isValue_thaw (r : Role) : r.thaw.isValue = r.isValue := by
  cases r <;> rfl

theorem Role.isType_thaw (r : Role) : r.thaw.isType = r.isType := by
  cases r <;> rfl

theorem Role.isBinding_thaw (r : Role) : r.thaw.isBinding = r.isBinding := by
  cases r <;> rfl

theorem Role.thaw_ne_function {r : Role} (other : r ≠ .function) : r.thaw ≠ .function := by
  cases r <;> simp_all [thaw]

namespace BoundProgram

variable (p : BoundProgram)

def symbolsOf (ds : List Decl) : List SymbolId := ds.filterMap fun d => p.symbolAt? d.mark.id

def declared (ss : List (Stmt Mark)) : List SymbolId := p.symbolsOf (ss.filterMap Stmt.decl?)

def paramSymbols (ps : List (Param Mark)) : List SymbolId := p.symbolsOf (ps.map .param)

/-- A name stands for a value that is visible. -/
def Resolves (env : List SymbolId) (x : Ident Mark) : Prop :=
  ∃ s ∈ env, p.symbolAt? x.mark.id = some s ∧ (p.symbol s).role.isValue = true

/-- A name in type position is that of a kind or stands for something that is visible. -/
def ResolvesType (env : List SymbolId) (x : Ident Mark) : Prop :=
  (p.targets.find? x.mark.id = none ∧ (Kind.ofName? x.name).isSome = true) ∨
    ∃ s ∈ env, p.symbolAt? x.mark.id = some s

/-- A symbol has a declaration, and no other one unless it is a function. -/
structure Declares (d : Decl) (s : SymbolId) : Prop where
  target : p.symbolAt? d.mark.id = some s
  decl : d ∈ (p.symbol s).decls
  role : (p.symbol s).role.thaw = d.role
  only : (p.symbol s).role ≠ .function → (p.symbol s).decls = [d]

/-- The declarations of a block or a parameter list at a place where the symbols of `env` are
visible: each has a symbol, which is new, and functions of one symbol stand together. -/
structure Opens (env : List SymbolId) (ds : List Decl) : Prop where
  declares : ∀ d ∈ ds, ∃ s, p.Declares d s
  owned : ∀ s ∈ p.symbolsOf ds, ∀ d ∈ (p.symbol s).decls, d ∈ ds
  fresh : ∀ s ∈ p.symbolsOf ds, s ∉ env

end BoundProgram

section
variable (p : BoundProgram)

mutual
def Expr.Scoped (env : List SymbolId) : Expr Mark → Prop
  | .lit _ => True
  | .host _ _ => True
  | .name x => p.Resolves env x
  | .paren _ e => e.Scoped env
  | .unary _ _ e => e.Scoped env
  | .bin _ _ l r => l.Scoped env ∧ r.Scoped env
  | .call _ f args => p.Resolves env f ∧ exprsScoped env args
  | .block _ ss tail =>
    p.Opens env (ss.filterMap Stmt.decl?) ∧ stmtsScoped (p.declared ss ++ env) ss ∧
      tailScoped (p.declared ss ++ env) tail
  | .assign _ x e =>
    (p.Resolves env x ∧ ∀ s, p.symbolAt? x.mark.id = some s → (p.symbol s).role ≠ .var true) ∧
      e.Scoped env
  | .cases _ e arms => e.Scoped env ∧ armsScoped env arms
  | .inhabitant _ t => t.Scoped env

def exprsScoped (env : List SymbolId) : List (Expr Mark) → Prop
  | [] => True
  | e :: es => e.Scoped env ∧ exprsScoped env es

def tailScoped (env : List SymbolId) : Option (Expr Mark) → Prop
  | none => True
  | some e => e.Scoped env

def armsScoped (env : List SymbolId) : List (Arm Mark) → Prop
  | [] => True
  | ⟨_, p, e⟩ :: arms => p.Scoped env ∧ e.Scoped env ∧ armsScoped env arms

def Pat.Scoped (env : List SymbolId) : Pat Mark → Prop
  | .wildcard _ => True
  | .lit _ _ => True
  | .typed _ t => t.Scoped env

def TyNode.Scoped (env : List SymbolId) : TyNode Mark → Prop
  | .refer _ x => p.ResolvesType env x
  | .singleton _ e => e.Scoped env
  | .lit _ _ _ => True
  | .paren _ t => t.Scoped env

def tyScoped? (env : List SymbolId) : Option (TyNode Mark) → Prop
  | none => True
  | some t => t.Scoped env

def paramsScoped (env : List SymbolId) : List (Param Mark) → Prop
  | [] => True
  | ⟨_, _, t⟩ :: ps => t.Scoped env ∧ paramsScoped env ps

def Stmt.Scoped (env : List SymbolId) : Stmt Mark → Prop
  | .val ⟨_, _, _, t, e⟩ => tyScoped? env t ∧ e.Scoped env
  | .typeAlias ⟨_, _, t⟩ => t.Scoped env
  | .fn ⟨_, _, ps, t, e⟩ =>
    p.Opens env (ps.map .param) ∧ paramsScoped (p.paramSymbols ps ++ env) ps ∧
      tyScoped? (p.paramSymbols ps ++ env) t ∧ e.Scoped (p.paramSymbols ps ++ env)
  | .expr _ e => e.Scoped env

def stmtsScoped (env : List SymbolId) : List (Stmt Mark) → Prop
  | [] => True
  | s :: ss => s.Scoped env ∧ stmtsScoped env ss
end

end

end Solo

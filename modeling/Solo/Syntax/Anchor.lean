import Solo.Keyword
import Solo.Syntax
import Solo.Syntax.Cursor

/-!
# Anchoring

Anchoring gives every node of a bare tree its number and its span. Nodes are numbered from 0, a
node after its children. Names, literals, wildcards and host constructs take their span from the
next occurrence of their text in the source, every other node from its children. Each name and
each text is entered in the roster of names.
-/

namespace Solo

structure Builder where
  cursor : Cursor
  /-- The number of the next node. -/
  nextId : NodeId
  names : Roster String

abbrev Build := StateM Builder

namespace Build

def mark (labels : Labels) (span : Span) : Build Mark := fun b =>
  (⟨b.nextId, span, labels⟩, { b with nextId := b.nextId + 1 })

def token (text : String) : Build Span := fun b =>
  let (span, cursor) := b.cursor.take text.toList
  (span, { b with cursor })

/-- The mark of a node that stands for a token. -/
def leaf (labels : Labels) (text : String) : Build Mark := do
  mark labels (← token text)

def enter (name : String) : Build Unit :=
  modify fun b => { b with names := b.names.insert name }

/-- The least span over all of `spans`, or the empty span at the cursor. -/
def coverOrPoint (spans : List Span) : Build Span := do
  match spans with
  | [] => return (← get).cursor.point
  | s :: rest => return s.coverAll rest

end Build

open Build

def Ident.anchor (x : Ident Labels) : Build (Ident Mark) := do
  let m ← leaf x.mark x.name
  enter x.name
  return ⟨m, x.name⟩

def Lit.anchor (l : Lit Labels) : Build (Lit Mark) := do
  match l.value with
  | .str s => enter s
  | _ => pure ()
  return ⟨← leaf l.mark l.value.source, l.value⟩

mutual
def Expr.anchor : Expr Labels → Build (Expr Mark)
  | .lit l => return .lit (← l.anchor)
  | .name x => return .name (← x.anchor)
  | .paren m e => do
    let e ← e.anchor
    return .paren (← mark m e.span) e
  | .unary m op e => do
    let e ← e.anchor
    return .unary (← mark m e.span) op e
  | .bin m op l r => do
    let l ← l.anchor
    let r ← r.anchor
    return .bin (← mark m (l.span.cover r.span)) op l r
  | .call m f args => do
    let f ← f.anchor
    let args ← anchorExprs args
    return .call (← mark m (f.mark.span.coverAll (args.map Expr.span))) f args
  | .block m ss tail => do
    let ss ← anchorStmts ss
    let tail ← anchorTail tail
    let span ← coverOrPoint (ss.map Stmt.span ++ tail.toList.map Expr.span)
    return .block (← mark m span) ss tail
  | .assign m x e => do
    let x ← x.anchor
    let e ← e.anchor
    return .assign (← mark m (x.mark.span.cover e.span)) x e
  | .cases m e arms => do
    let e ← e.anchor
    let arms ← anchorArms arms
    return .cases (← mark m (e.span.coverAll (arms.map (·.mark.span)))) e arms
  | .inhabitant m t => do
    let t ← t.anchor
    return .inhabitant (← mark m t.span) t
  | .host m desc => do
    let m ← leaf m desc
    enter desc
    return .host m desc

def anchorExprs : List (Expr Labels) → Build (List (Expr Mark))
  | [] => return []
  | e :: es => do
    let e ← e.anchor
    return e :: (← anchorExprs es)

def anchorTail : Option (Expr Labels) → Build (Option (Expr Mark))
  | none => return none
  | some e => return some (← e.anchor)

def anchorArms : List (Arm Labels) → Build (List (Arm Mark))
  | [] => return []
  | ⟨m, p, e⟩ :: as => do
    let p ← p.anchor
    let e ← e.anchor
    let m ← mark m (p.span.cover e.span)
    return ⟨m, p, e⟩ :: (← anchorArms as)

def Pat.anchor : Pat Labels → Build (Pat Mark)
  | .wildcard m => return .wildcard (← leaf m "_")
  | .lit m l => do
    let l ← l.anchor
    return .lit (← mark m l.mark.span) l
  | .typed m t => do
    let t ← t.anchor
    return .typed (← mark m t.span) t

def TyNode.anchor : TyNode Labels → Build (TyNode Mark)
  | .refer m x => do
    let x ← x.anchor
    return .refer (← mark m x.mark.span) x
  | .singleton m e => do
    let e ← e.anchor
    return .singleton (← mark m e.span) e
  | .lit m l dot => do
    let l ← l.anchor
    return .lit (← mark m l.mark.span) l dot
  | .paren m t => do
    let t ← t.anchor
    return .paren (← mark m t.span) t

def anchorTy? : Option (TyNode Labels) → Build (Option (TyNode Mark))
  | none => return none
  | some t => return some (← t.anchor)

def anchorParams : List (Param Labels) → Build (List (Param Mark))
  | [] => return []
  | ⟨m, x, t⟩ :: ps => do
    let x ← x.anchor
    let t ← t.anchor
    let m ← mark m (x.mark.span.cover t.span)
    return ⟨m, x, t⟩ :: (← anchorParams ps)

def Stmt.anchor : Stmt Labels → Build (Stmt Mark)
  | .val ⟨m, k, x, t, e⟩ => do
    let x ← x.anchor
    let t ← anchorTy? t
    let e ← e.anchor
    return .val ⟨← mark m (x.mark.span.cover e.span), k, x, t, e⟩
  | .typeAlias ⟨m, x, t⟩ => do
    let x ← x.anchor
    let t ← t.anchor
    return .typeAlias ⟨← mark m (x.mark.span.cover t.span), x, t⟩
  | .fn ⟨m, x, ps, t, e⟩ => do
    let x ← x.anchor
    let ps ← anchorParams ps
    let t ← anchorTy? t
    let e ← e.anchor
    return .fn ⟨← mark m (x.mark.span.cover e.span), x, ps, t, e⟩
  | .expr m e => do
    let e ← e.anchor
    return .expr (← mark m e.span) e

def anchorStmts : List (Stmt Labels) → Build (List (Stmt Mark))
  | [] => return []
  | s :: ss => do
    let s ← s.anchor
    return s :: (← anchorStmts ss)
end

def Builder.start (module : ModuleId) (source : String) : Builder :=
  ⟨.start module source, 0, Keyword.roster⟩

/-- A tree anchored in its source text, with the roster of its names. -/
structure Source where
  program : Program Mark
  names : Roster String

/-- Anchors the statements of a module. The program's node comes last and spans the whole text. -/
def Source.anchor (module : ModuleId) (text : String) (stmts : List (Stmt Labels)) : Source :=
  let (stmts, b) := (anchorStmts stmts).run (.start module text)
  ⟨⟨⟨b.nextId, ⟨0, text.utf8ByteSize, module, Nat.zero_le _⟩, []⟩, stmts⟩, b.names⟩

end Solo

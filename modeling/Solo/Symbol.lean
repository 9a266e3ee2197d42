import Solo.Syntax

/-!
# Symbols

A symbol is what a name stands for: one declaration, or all overloads of a function in one scope.
Symbol 0 stands for names that could not be resolved.
-/

namespace Solo

abbrev SymbolId := Nat

inductive Role where
  | unresolved
  | val (isFinal : Bool)
  /-- A frozen variable is assigned nowhere in its program. -/
  | var (frozen : Bool)
  | param
  | function
  | typeAlias
  | builtin
deriving DecidableEq

inductive Decl where
  | val (d : ValDecl Mark)
  | param (d : Param Mark)
  | typeAlias (d : AliasDecl Mark)
  | fn (d : FnDecl Mark)

namespace Decl

def mark : Decl → Mark
  | val d => d.mark
  | param d => d.mark
  | typeAlias d => d.mark
  | fn d => d.mark

def name : Decl → Ident Mark
  | val d => d.name
  | param d => d.name
  | typeAlias d => d.name
  | fn d => d.name

def fn? : Decl → Option (FnDecl Mark)
  | fn d => some d
  | _ => none

end Decl

structure Symbol where
  name : String
  role : Role
  decls : List Decl

namespace Symbol

/-- The number of the symbol of names that could not be resolved. -/
def unresolvedId : SymbolId := 0

/-- The symbol of names that could not be resolved. -/
def unresolved : Symbol := ⟨"", .unresolved, []⟩

instance : Inhabited Symbol := ⟨unresolved⟩

end Symbol

namespace Role

/-- Whether a symbol names a binding that holds a value. -/
def isBinding : Role → Bool
  | val _ | var _ | param => true
  | _ => false

def isFunction : Role → Bool
  | function | builtin => true
  | _ => false

def isVar : Role → Bool
  | var _ => true
  | _ => false

def isValue (r : Role) : Bool := r.isBinding || r.isFunction

def isType : Role → Bool
  | typeAlias => true
  | _ => false

/-- Whether a binding keeps its first value: every binding but a variable that is assigned. -/
def isStable : Role → Bool
  | val _ | param => true
  | var frozen => frozen
  | _ => false

inductive Flag where
  | val
  | var
  | final
  | frozen
  | param
  | function
  | typeAlias
  | builtin
  | impure
deriving DecidableEq

namespace Flag

def all : List Flag :=
  [val, var, final, frozen, param, function, typeAlias, builtin, impure]

def name : Flag → String
  | val => "VAL"
  | var => "VAR"
  | final => "FINAL"
  | frozen => "FROZEN"
  | param => "PARAM"
  | function => "FUNCTION"
  | typeAlias => "TYPE_ALIAS"
  | builtin => "BUILTIN"
  | impure => "IMPURE"

def bit : Flag → Nat
  | val => 1
  | var => 2
  | final => 4
  | frozen => 8
  | param => 16
  | function => 32
  | typeAlias => 64
  | builtin => 128
  | impure => 256

end Flag

/-- The properties of a role, in the order of their bits. -/
def flags : Role → List Flag
  | unresolved => []
  | val isFinal => if isFinal then [.val, .final] else [.val]
  | var frozen => if frozen then [.var, .frozen] else [.var]
  | param => [.param]
  | function => [.function]
  | typeAlias => [.typeAlias]
  | builtin => [.function, .builtin, .impure]

def bits (r : Role) : Nat := r.flags.foldl (fun n f => n + f.bit) 0

end Role

end Solo

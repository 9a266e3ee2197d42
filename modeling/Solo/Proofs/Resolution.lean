import Solo.Proofs.Nesting

/-!
# Resolution of names

What the names of a program stand for by lexical scoping alone. An environment is passed down the
tree and each part lists the references it makes; there are no symbols and there is no state. What a
name stands for is known by its first declaration. Main statement: the table that binding fills is
the one of these references, and binding reports a name as unknown exactly where its reference has
nothing to stand for.
-/

namespace Solo

/-! ### Environments -/

/-- What a name stands for. -/
inductive Referent where
  | unknown
  | builtin
  /-- What a declaration introduces, with the overloads that join it. -/
  | decl (first : NodeId)
deriving DecidableEq

/-- A node and what it stands for. -/
structure Reference where
  mark : Mark
  name : String
  referent : Referent

namespace Decl

/-- The first declaration of a name among those of one scope. -/
def first? (ds : List Decl) (space : Namespace) (name : String) : Option Decl :=
  ds.find? fun d => d.space = space ∧ d.name.name = name

/-- The declaration that introduces what `d` declares: of a further overload the function that came
first, of any other declaration the declaration itself. -/
def opener (ds : List Decl) (d : Decl) : Decl :=
  ((first? ds d.space d.name.name).filter fun first => first.fn?.isSome && d.fn?.isSome).getD d

def reference (ds : List Decl) (d : Decl) : Reference :=
  ⟨d.mark, d.name.name, .decl (d.opener ds).mark.id⟩

end Decl

/-- What is visible at a place. -/
abbrev Environment := Namespace → String → Option Referent

namespace Environment

/-- Around the program there is only the built-in function. -/
def outermost : Environment := fun space name =>
  if space = .value ∧ name = Keyword.println then some .builtin else none

/-- Inside a scope its own names shadow the outer ones. -/
def inside (env : Environment) (ds : List Decl) : Environment := fun space name =>
  ((Decl.first? ds space name).map fun d => .decl d.mark.id).or (env space name)

def value (env : Environment) (x : Ident Mark) : Reference :=
  ⟨x.mark, x.name, (env .value x.name).getD .unknown⟩

/-- The reference of a name in type position: to an alias; to nothing if it is that of a kind; else
to a value. -/
def type (env : Environment) (x : Ident Mark) : List Reference :=
  match env .type x.name with
  | some r => [⟨x.mark, x.name, r⟩]
  | none => if (Kind.ofName? x.name).isSome then [] else [env.value x]

/-- A scope: its declarations first, then what stands in it. -/
def scope (env : Environment) (ds : List Decl) (inner : Environment → List Reference) :
    List Reference :=
  ds.map (Decl.reference ds) ++ inner (env.inside ds)

end Environment

/-! ### References of trees -/

mutual
def Expr.references : Expr Mark → Environment → List Reference
  | .lit _, _ => []
  | .host _ _, _ => []
  | .name x, env => [env.value x]
  | .paren _ e, env => e.references env
  | .unary _ _ e, env => e.references env
  | .bin _ _ l r, env => l.references env ++ r.references env
  | .call _ f args, env => [env.value f] ++ exprsReferences args env
  | .block _ ss tail, env =>
    env.scope (ss.filterMap Stmt.decl?) fun env =>
      stmtsReferences ss env ++ tailReferences tail env
  | .assign _ x e, env => [env.value x] ++ e.references env
  | .cases _ e arms, env => e.references env ++ armsReferences arms env
  | .inhabitant _ t, env => t.references env

def exprsReferences : List (Expr Mark) → Environment → List Reference
  | [], _ => []
  | e :: es, env => e.references env ++ exprsReferences es env

def tailReferences : Option (Expr Mark) → Environment → List Reference
  | none, _ => []
  | some e, env => e.references env

def armsReferences : List (Arm Mark) → Environment → List Reference
  | [], _ => []
  | ⟨_, p, e⟩ :: arms, env => p.references env ++ (e.references env ++ armsReferences arms env)

def Pat.references : Pat Mark → Environment → List Reference
  | .wildcard _, _ => []
  | .lit _ _, _ => []
  | .typed _ t, env => t.references env

def TyNode.references : TyNode Mark → Environment → List Reference
  | .refer _ x, env => env.type x
  | .singleton _ e, env => e.references env
  | .lit _ _ _, _ => []
  | .paren _ t, env => t.references env

def tyReferences? : Option (TyNode Mark) → Environment → List Reference
  | none, _ => []
  | some t, env => t.references env

def paramsReferences : List (Param Mark) → Environment → List Reference
  | [], _ => []
  | ⟨_, _, t⟩ :: ps, env => t.references env ++ paramsReferences ps env

def Stmt.references : Stmt Mark → Environment → List Reference
  | .val ⟨_, _, _, t, e⟩, env => tyReferences? t env ++ e.references env
  | .typeAlias ⟨_, _, t⟩, env => t.references env
  | .fn ⟨_, _, ps, t, e⟩, env =>
    env.scope (ps.map .param) fun env =>
      paramsReferences ps env ++ (tyReferences? t env ++ e.references env)
  | .expr _ e, env => e.references env

def stmtsReferences : List (Stmt Mark) → Environment → List Reference
  | [], _ => []
  | s :: ss, env => s.references env ++ stmtsReferences ss env
end

namespace Program

def references (p : Program Mark) : List Reference :=
  Environment.outermost.scope (p.stmts.filterMap Stmt.decl?) (stmtsReferences p.stmts)

def resolution (p : Program Mark) : Table NodeId Referent :=
  ⟨p.references.map fun r => (r.mark.id, r.referent)⟩

end Program

/-! ### Symbols and what they stand for -/

/-- What a symbol stands for is told by its first declaration. -/
def Symbol.referent (s : Symbol) : Referent :=
  match s.decls with
  | d :: _ => .decl d.mark.id
  | [] => if s.role = .builtin then .builtin else .unknown

def BoundProgram.referent (p : BoundProgram) (x : SymbolId) : Referent := (p.symbol x).referent

/-- The report of a name that stands for nothing. -/
def Reference.report (r : Reference) : Diagnostic := ⟨r.mark.span, .unknownName r.name⟩

/-- The references that stand for nothing, as they are reported. -/
def unknownNames (rs : List Reference) : List Diagnostic :=
  (rs.filter fun r => r.referent = .unknown).map Reference.report

def Diagnostic.isUnknownName (d : Diagnostic) : Bool :=
  match d.problem with
  | .unknownName _ => true
  | _ => false

namespace Table

variable {κ ν μ : Type}

def mapValues (f : ν → μ) (t : Table κ ν) : Table κ μ := ⟨t.entries.map fun e => (e.1, f e.2)⟩

theorem find?_mapValues [DecidableEq κ] (f : ν → μ) (t : Table κ ν) (k : κ) :
    (t.mapValues f).find? k = (t.find? k).map f := by
  rw [find?, find?, mapValues]
  induction t.entries with
  | nil => rfl
  | cons e rest ih => by_cases h : e.1 = k <;> simp [look, h, ih]

theorem mem_of_look [DecidableEq κ] {k : κ} {v : ν} {es : List (κ × ν)}
    (found : look k es = some v) : (k, v) ∈ es := by
  induction es with
  | nil => cases found
  | cons e rest ih =>
    rw [look] at found
    split at found
    · next same =>
      rw [← same, ← Option.some.inj found]
      exact List.mem_cons_self
    · exact List.mem_cons_of_mem _ (ih found)

end Table

namespace Binder

def referent (b : Binder) (x : SymbolId) : Referent := (b.symbol x).referent

def referents (b : Binder) : List Referent := b.symbols.toList.map Symbol.referent

/-- What is recorded of each node, in terms of referents. -/
def recorded (b : Binder) : List (NodeId × Referent) := (b.targets.mapValues b.referent).entries

def unknownNames (b : Binder) : List Diagnostic := b.diagnostics.toList.filter (·.isUnknownName)

theorem length_referents (b : Binder) : b.referents.length = b.symbols.size := by
  simp [referents]

theorem getElem?_referents {b : Binder} {x : SymbolId} (small : x < b.symbols.size) :
    b.referents[x]? = some (b.referent x) := by
  simp [referents, referent, symbol, Array.getD_eq_getD_getElem?, small]

/-- Every node that is recorded has a symbol. -/
def Bounded (b : Binder) : Prop := ∀ t ∈ b.targets.entries, t.2 < b.symbols.size

/-- What an action does to a state: it makes symbols of declarations, records the references `rs`
and reports those that are unknown. -/
structure Records (b : Binder) (rs : List Reference) (b' : Binder) : Prop where
  referents : ∃ ids : List NodeId, b'.referents = b.referents ++ ids.map .decl
  bounded : b'.Bounded
  recorded : b'.recorded = b.recorded ++ rs.map fun r => (r.mark.id, r.referent)
  unknownNames : b'.unknownNames = b.unknownNames ++ Solo.unknownNames rs

variable {b b₁ b₂ : Binder} {rs rs₁ rs₂ : List Reference} {env : Environment}

theorem size_le_of_referents {rs : List Referent} (grown : b₁.referents = b.referents ++ rs) :
    b.symbols.size ≤ b₁.symbols.size := by
  rw [← length_referents, ← length_referents, grown, List.length_append]
  exact Nat.le_add_right _ _

theorem referent_of_referents {rs : List Referent} (grown : b₁.referents = b.referents ++ rs)
    {x : SymbolId} (small : x < b.symbols.size) : b₁.referent x = b.referent x := by
  have found := getElem?_referents (Nat.lt_of_lt_of_le small (size_le_of_referents grown))
  rw [grown, List.getElem?_append_left (by rwa [length_referents]), getElem?_referents small]
    at found
  exact (Option.some.inj found).symm

namespace Records

theorem size_le (records : b.Records rs b₁) : b.symbols.size ≤ b₁.symbols.size := by
  obtain ⟨ids, grown⟩ := records.referents
  exact size_le_of_referents grown

theorem kept (records : b.Records rs b₁) {x : SymbolId} (small : x < b.symbols.size) :
    b₁.referent x = b.referent x := by
  obtain ⟨ids, grown⟩ := records.referents
  exact referent_of_referents grown small

theorem refl (bounded : b.Bounded) : b.Records [] b :=
  ⟨⟨[], by simp⟩, bounded, by simp, by simp [Solo.unknownNames]⟩

theorem trans (first : b.Records rs₁ b₁) (second : b₁.Records rs₂ b₂) :
    b.Records (rs₁ ++ rs₂) b₂ := by
  obtain ⟨ids₁, grown₁⟩ := first.referents
  obtain ⟨ids₂, grown₂⟩ := second.referents
  refine ⟨⟨ids₁ ++ ids₂, ?_⟩, second.bounded, ?_, ?_⟩
  · rw [grown₂, grown₁, List.map_append, List.append_assoc]
  · rw [second.recorded, first.recorded, List.map_append, List.append_assoc]
  · rw [second.unknownNames, first.unknownNames, List.append_assoc]
    simp [Solo.unknownNames]

/-- Neither the scopes nor the assigned symbols matter. -/
theorem silent (records : b.Records rs b₁) (scopes : List Scope) (assigned : List SymbolId) :
    b.Records rs { b₁ with scopes, assigned } :=
  ⟨records.referents, records.bounded, records.recorded, records.unknownNames⟩

theorem one {r : Reference} {x : SymbolId} {l : List NodeId} (bounded : b.Bounded)
    (grown : b₁.referents = b.referents ++ l.map .decl)
    (targets : b₁.targets = b.targets.push r.mark.id x) (small : x < b₁.symbols.size)
    (own : b₁.referent x = r.referent)
    (reported : b₁.unknownNames = b.unknownNames ++ Solo.unknownNames [r]) :
    b.Records [r] b₁ := by
  have bigger := size_le_of_referents grown
  refine ⟨⟨l, grown⟩, ?_, ?_, reported⟩
  · intro t member
    rw [targets, Table.push] at member
    rcases List.mem_append.mp member with old | new
    · exact Nat.lt_of_lt_of_le (bounded t old) bigger
    · obtain rfl := List.mem_singleton.mp new
      exact small
  · have old : ∀ t ∈ b.targets.entries, (t.1, b₁.referent t.2) = (t.1, b.referent t.2) := by
      intro t member
      rw [referent_of_referents grown (bounded t member)]
    simp only [Binder.recorded, Table.mapValues, targets, Table.push, List.map_append,
      List.map_cons, List.map_nil, own, List.map_congr_left old]

end Records

/-- At a state of binding just what `env` shows is visible. All that is visible has a symbol, so
that symbols made later do not change what it stands for. -/
structure Shows (b : Binder) (env : Environment) : Prop where
  lookup : ∀ space name, (b.lookup? space name).map b.referent = env space name
  known : ∀ space name, env space name ≠ some .unknown
  held : ∀ space name x, b.lookup? space name = some x → x < b.symbols.size
  bounded : b.Bounded
  unresolved : b.referents.head? = some .unknown

namespace Shows

theorem after (shows : b.Shows env) (scopes : b₁.scopes = b.scopes) (records : b.Records rs b₁) :
    b₁.Shows env := by
  have same : ∀ space name, b₁.lookup? space name = b.lookup? space name := by
    intro space name
    rw [lookup?, lookup?, scopes]
  refine ⟨?_, shows.known, ?_, records.bounded, ?_⟩
  · intro space name
    rw [same, ← shows.lookup]
    exact Option.map_congr fun x found => records.kept (shows.held space name x found)
  · intro space name x found
    exact Nat.lt_of_lt_of_le (shows.held space name x (same space name ▸ found)) records.size_le
  · obtain ⟨ids, grown⟩ := records.referents
    rw [grown, List.head?_append, shows.unresolved]
    rfl

theorem hidden (shows : b.Shows env) {space : Namespace} {name : String}
    (absent : b.lookup? space name = none) : env space name = none := by
  rw [← shows.lookup, absent]
  rfl

theorem unknown (shows : b.Shows env) :
    0 < b.symbols.size ∧ b.referent Symbol.unresolvedId = .unknown := by
  have first := shows.unresolved
  rw [List.head?_eq_getElem?] at first
  obtain ⟨small, found⟩ := List.getElem?_eq_some_iff.mp first
  rw [length_referents] at small
  rw [getElem?_referents small] at first
  exact ⟨small, Option.some.inj first⟩

end Shows

end Binder

/-- An action that makes the references `rs` where `env` is visible. -/
def Refers (env : Environment) (a : Binding Unit) (rs : List Reference) : Prop :=
  ∀ b : Binder, b.Shows env → (a b).2.scopes = b.scopes ∧ b.Records rs (a b).2

namespace Refers

open Binder

variable {env : Environment} {a c : Binding Unit} {rs ks : List Reference}

theorem nothing : Refers env (pure ()) [] := fun _ shows => ⟨rfl, .refl shows.bounded⟩

theorem seq (first : Refers env a rs) (second : Refers env c ks) :
    Refers env (do a; c) (rs ++ ks) := by
  intro b shows
  obtain ⟨scopes, records⟩ := first b shows
  obtain ⟨scopes', records'⟩ := second (a b).2 (shows.after scopes records)
  exact ⟨scopes'.trans scopes, records.trans records'⟩

/-- A name that is found stands for what the environment shows. -/
theorem records_found {b : Binder} (shows : b.Shows env) {space : Namespace} {x : Ident Mark}
    {s : SymbolId} (found : b.lookup? space x.name = some s) :
    ∃ r, env space x.name = some r ∧
      b.Records [⟨x.mark, x.name, r⟩] { b with targets := b.targets.push x.mark.id s } := by
  have shown := shows.lookup space x.name
  rw [found, Option.map_some] at shown
  refine ⟨_, shown.symm, Records.one (l := []) shows.bounded (by simp [Binder.referents]) rfl
    (shows.held _ _ _ found) rfl ?_⟩
  have real : b.referent s ≠ .unknown := fun same => shows.known _ _ (same ▸ shown.symm)
  simp [Binder.unknownNames, Solo.unknownNames, real]

theorem resolveValue (x : Ident Mark) :
    Refers env (do let _ ← Binding.resolveValue x) [env.value x] := by
  intro b shows
  change (Binding.resolveValue x b).2.scopes = b.scopes ∧ b.Records _ (Binding.resolveValue x b).2
  rw [Binding.resolveValue_apply]
  cases found : b.lookup? .value x.name with
  | some s =>
    obtain ⟨r, shown, records⟩ := records_found shows found
    refine ⟨rfl, ?_⟩
    rw [Environment.value, shown]
    exact records
  | none =>
    obtain ⟨nonempty, unknown⟩ := shows.unknown
    rw [Environment.value, shows.hidden found]
    refine ⟨rfl, Records.one (l := []) shows.bounded (by simp [Binder.referents]) rfl nonempty
      unknown ?_⟩
    simp [Binder.unknownNames, Solo.unknownNames, Diagnostic.isUnknownName, Reference.report]

theorem resolveType (x : Ident Mark) : Refers env (Binding.resolveType x) (env.type x) := by
  intro b shows
  rw [Binding.resolveType_apply, Environment.type]
  cases found : b.lookup? .type x.name with
  | some s =>
    obtain ⟨r, shown, records⟩ := records_found shows found
    rw [shown]
    exact ⟨rfl, records⟩
  | none =>
    rw [shows.hidden found]
    dsimp only
    split
    · exact nothing b shows
    · exact resolveValue x b shows

theorem assign (x : Ident Mark) :
    Refers env
      (do
        let s ← Binding.resolveValue x
        if s ≠ Symbol.unresolvedId then Binding.assign s)
      [env.value x] := by
  intro b shows
  obtain ⟨scopes, records⟩ := resolveValue x b shows
  rw [Binding.bind_apply]
  split
  · exact ⟨scopes, records.silent _ _⟩
  · exact ⟨scopes, records⟩

end Refers

/-! ### Declarations -/

namespace Decl

theorem role_isFunction (d : Decl) : d.role.isFunction = d.fn?.isSome := by
  cases d with
  | val d =>
    obtain ⟨_, kind, _, _, _⟩ := d
    cases kind <;> rfl
  | _ => rfl

variable {ds : List Decl} {d k : Decl} {space : Namespace} {name : String}

theorem first?_snoc : first? (ds ++ [d]) space name =
    (first? ds space name).or (if d.space = space ∧ d.name.name = name then some d else none) := by
  rw [first?, first?, List.find?_append, List.find?_singleton]
  simp

theorem first?_isSome (member : k ∈ ds) : (first? ds k.space k.name.name).isSome = true :=
  List.find?_isSome.mpr ⟨k, member, by simp⟩

/-- A later declaration changes nothing for the earlier ones. -/
theorem reference_snoc (member : k ∈ ds) : k.reference (ds ++ [d]) = k.reference ds := by
  obtain ⟨first, found⟩ := Option.isSome_iff_exists.mp (first?_isSome member)
  rw [reference, reference, opener, opener, first?_snoc, found, Option.some_or]

theorem references_snoc : (ds ++ [d]).map (reference (ds ++ [d])) =
    ds.map (reference ds) ++ [d.reference (ds ++ [d])] := by
  rw [List.map_append, List.map_congr_left fun k member => reference_snoc member]
  rfl

/-- A name that is declared keeps its first declaration. -/
theorem first?_of_known (known : first? ds d.space d.name.name = some k) :
    first? (ds ++ [d]) space name = first? ds space name := by
  rw [first?_snoc]
  split
  · next same =>
    obtain ⟨rfl, rfl⟩ := same
    rw [known, Option.some_or]
  · exact Option.or_none

theorem opener_of_new (new : first? ds d.space d.name.name = none) : d.opener (ds ++ [d]) = d := by
  rw [opener, first?_snoc, new, Option.none_or, if_pos ⟨rfl, rfl⟩, Option.filter_some]
  split <;> rfl

theorem opener_of_known (known : first? ds d.space d.name.name = some k) :
    d.opener (ds ++ [d]) = if k.fn?.isSome && d.fn?.isSome then k else d := by
  rw [opener, first?_snoc, known, Option.some_or, Option.filter_some]
  split <;> rfl

theorem unknownNames_reference : unknownNames [d.reference ds] = [] := by
  simp [reference, unknownNames]

end Decl

namespace Binder

/-- A declaration is the first one of a symbol. -/
structure Heads (b : Binder) (x : SymbolId) (d : Decl) : Prop where
  small : x < b.symbols.size
  head : ∃ others, (b.symbol x).decls = d :: others
  role : (b.symbol x).role = d.role

variable {b b₁ b₂ : Binder} {ds : List Decl} {d : Decl}

theorem Heads.referent {x : SymbolId} (heads : b.Heads x d) : b.referent x = .decl d.mark.id := by
  obtain ⟨others, same⟩ := heads.head
  rw [Binder.referent, Symbol.referent, same]

section
variable {x : SymbolId} {k : Decl}
  (symbols : b₂.symbols = b₁.symbols.push ⟨d.name.name, d.role, [d]⟩)
include symbols

theorem Heads.push (heads : b₁.Heads x k) : b₂.Heads x k := by
  have same := Hoisted.symbol_push_old symbols heads.small
  refine ⟨?_, same ▸ heads.head, same ▸ heads.role⟩
  rw [symbols, Array.size_push]
  exact Nat.lt_succ_of_lt heads.small

theorem Heads.pushed : b₂.Heads b₁.symbols.size d := by
  have same := Hoisted.symbol_push_new symbols
  refine ⟨?_, ⟨[], by rw [same]⟩, by rw [same]⟩
  rw [symbols, Array.size_push]
  exact Nat.lt_succ_self _

theorem referents_push : b₂.referents = b₁.referents ++ [d.mark.id].map .decl := by
  simp [referents, symbols, Symbol.referent]

end

section
variable {x y : SymbolId} {j k : Decl}
  (symbols : b₂.symbols = b₁.symbols.modify x fun s => { s with decls := s.decls ++ [d] })
include symbols

theorem symbol_join (other : y ≠ x) : b₂.symbol y = b₁.symbol y := by
  rw [symbol, symbols]
  exact Hoisted.symbol_modify_other b₁ _ other

/-- A further declaration leaves the first one in its place. -/
theorem Heads.join (heads : b₁.Heads y k) : b₂.Heads y k := by
  have size : y < b₂.symbols.size := by
    rw [symbols, Array.size_modify]
    exact heads.small
  by_cases same : y = x
  · subst same
    have joined : b₂.symbol y = { b₁.symbol y with decls := (b₁.symbol y).decls ++ [d] } := by
      rw [symbol, symbols]
      exact Hoisted.symbol_modify_self b₁ _ heads.small
    obtain ⟨others, first⟩ := heads.head
    refine ⟨size, ⟨others ++ [d], ?_⟩, ?_⟩
    · rw [joined, first]
      rfl
    · rw [joined]
      exact heads.role
  · have kept := symbol_join symbols same
    exact ⟨size, kept ▸ heads.head, kept ▸ heads.role⟩

theorem referents_join (heads : b₁.Heads x k) : b₂.referents = b₁.referents := by
  have size : b₂.symbols.size = b₁.symbols.size := by rw [symbols, Array.size_modify]
  refine List.ext_getElem? fun y => ?_
  by_cases small : y < b₁.symbols.size
  · rw [getElem?_referents small, getElem?_referents (size ▸ small)]
    by_cases same : y = x
    · rw [same, heads.referent, (heads.join symbols).referent]
    · rw [referent, referent, symbol_join symbols same]
  · simp [length_referents, size, Nat.not_lt.mp small]

end

theorem Records.declaration {x : SymbolId} {l : List NodeId} (bounded : b₁.Bounded)
    (grown : b₂.referents = b₁.referents ++ l.map .decl)
    (targets : b₂.targets = b₁.targets.push d.mark.id x) (heads : b₂.Heads x (d.opener ds))
    (quiet : b₂.unknownNames = b₁.unknownNames) : b₁.Records [d.reference ds] b₂ := by
  refine .one bounded grown targets heads.small heads.referent ?_
  rw [quiet, Decl.unknownNames_reference, List.append_nil]

/-- The names of a scope are those that `ds` declares, each with the symbol of its first
declaration. -/
structure Holds (b : Binder) (scope : Scope) (ds : List Decl) : Prop where
  free : ∀ space name, scope.find? (space, name) = none → Decl.first? ds space name = none
  taken : ∀ space name x, scope.find? (space, name) = some x →
    ∃ k, Decl.first? ds space name = some k ∧ b.Heads x k

namespace Holds

variable {scope : Scope}

/-- A name that is declared again stays with its first declaration. -/
theorem again (holds : b₁.Holds scope ds) (kept : ∀ x k, b₁.Heads x k → b₂.Heads x k) {first : Decl}
    (known : Decl.first? ds d.space d.name.name = some first) : b₂.Holds scope (ds ++ [d]) where
  free space name absent := by
    rw [Decl.first?_of_known known]
    exact holds.free space name absent
  taken space name x found := by
    obtain ⟨k, declared, heads⟩ := holds.taken space name x found
    rw [Decl.first?_of_known known]
    exact ⟨k, declared, kept x k heads⟩

theorem insert (holds : b₁.Holds scope ds) (kept : ∀ x k, b₁.Heads x k → b₂.Heads x k)
    {x : SymbolId} (new : Decl.first? ds d.space d.name.name = none) (heads : b₂.Heads x d) :
    b₂.Holds (scope.insert (d.space, d.name.name) x) (ds ++ [d]) where
  free space name absent := by
    rw [Table.find?_insert] at absent
    split at absent
    · cases absent
    · next other =>
      rw [Decl.first?_snoc, holds.free space name absent, Option.none_or, if_neg]
      rintro ⟨rfl, rfl⟩
      exact other rfl
  taken space name y found := by
    rw [Table.find?_insert] at found
    split at found
    · next same =>
      cases same
      cases found
      exact ⟨d, by rw [Decl.first?_snoc, new, Option.none_or, if_pos ⟨rfl, rfl⟩], heads⟩
    · obtain ⟨k, declared, heads⟩ := holds.taken space name y found
      exact ⟨k, by rw [Decl.first?_snoc, declared, Option.some_or], kept y k heads⟩

end Holds

/-- What declaring `ds` in an empty scope does to a state. -/
structure Declared (b : Binder) (ds : List Decl) (b₁ : Binder) : Prop where
  records : b.Records (ds.map (Decl.reference ds)) b₁
  scopes : ∃ scope, b₁.scopes = scope :: b.scopes ∧ b₁.Holds scope ds

namespace Declared

theorem nil (bounded : b.Bounded) :
    b.Declared [] { b with scopes := Table.empty :: b.scopes } where
  records := (Records.refl bounded).silent _ _
  scopes := ⟨_, rfl, fun _ _ _ => rfl, nofun⟩

theorem declare (declared : b.Declared ds b₁) :
    b.Declared (ds ++ [d]) (Binding.declareOwn d b₁).2 := by
  obtain ⟨scope, here, holds⟩ := declared.scopes
  have own : b₁.here? d.space d.name.name = scope.find? (d.space, d.name.name) := by
    rw [here?, here]
    rfl
  have step {b₂ : Binder} (records : b₁.Records [d.reference (ds ++ [d])] b₂) :
      b.Records ((ds ++ [d]).map (Decl.reference (ds ++ [d]))) b₂ := by
    rw [Decl.references_snoc]
    exact declared.records.trans records
  have bounded := declared.records.bounded
  rw [Binding.declareOwn, Binding.declare_apply, own]
  -- A free name gets a symbol and an entry in the scope. A further overload joins the symbol of the
  -- first one. Any other repetition gets a symbol that no name leads to.
  cases found : scope.find? (d.space, d.name.name) with
  | none =>
    have new := holds.free _ _ found
    refine ⟨step (.declaration bounded (referents_push rfl) rfl ?_ rfl), ?_⟩
    · rw [Decl.opener_of_new new]
      exact Heads.pushed rfl
    · rw [here]
      exact ⟨_, rfl, holds.insert (fun _ _ => Heads.push rfl) new (Heads.pushed rfl)⟩
  | some x =>
    obtain ⟨k, known, heads⟩ := holds.taken _ _ x found
    have opener := Decl.opener_of_known known
    dsimp only
    rw [heads.role, k.role_isFunction, d.role_isFunction]
    split
    · next joins =>
      rw [if_pos joins] at opener
      refine ⟨step (.declaration (l := []) bounded ?_ rfl (opener ▸ heads.join rfl) rfl), ?_⟩
      · rw [referents_join rfl heads, List.map_nil, List.append_nil]
      · exact ⟨scope, here, holds.again (fun _ _ => Heads.join rfl) known⟩
    · next apart =>
      rw [if_neg apart] at opener
      refine ⟨step (.declaration bounded (referents_push rfl) rfl ?_ ?_), ?_⟩
      · rw [opener]
        exact Heads.pushed rfl
      · simp [Binder.unknownNames, Diagnostic.isUnknownName]
      · exact ⟨scope, here, holds.again (fun _ _ => Heads.push rfl) known⟩

theorem forM (declared : b.Declared ds b₁) (rest : List Decl) :
    b.Declared (ds ++ rest) (rest.forM Binding.declareOwn b₁).2 := by
  induction rest generalizing ds b₁ with
  | nil =>
    rw [List.append_nil]
    exact declared
  | cons d rest ih =>
    have tail := ih (declared.declare (d := d))
    rw [List.append_assoc] at tail
    exact tail

/-- Inside the scope its names shadow the outer ones. -/
theorem shows {env : Environment} (declared : b.Declared ds b₁) (outside : b.Shows env) :
    b₁.Shows (env.inside ds) := by
  obtain ⟨scope, here, holds⟩ := declared.scopes
  have around : Shows { b₁ with scopes := b.scopes } env :=
    outside.after rfl (declared.records.silent _ _)
  have lookup : ∀ space name, b₁.lookup? space name =
      (scope.find? (space, name)).or ({ b₁ with scopes := b.scopes }.lookup? space name) := by
    intro space name
    rw [lookup?, here, List.findSome?_cons]
    cases scope.find? (space, name) <;> rfl
  refine ⟨?_, ?_, ?_, around.bounded, around.unresolved⟩
  · intro space name
    rw [lookup, Environment.inside]
    cases found : scope.find? (space, name) with
    | none =>
      rw [holds.free _ _ found]
      exact around.lookup space name
    | some x =>
      obtain ⟨k, known, heads⟩ := holds.taken _ _ x found
      rw [known, Option.some_or, Option.map_some, heads.referent]
      rfl
  · intro space name
    rw [Environment.inside]
    cases Decl.first? ds space name with
    | none => exact outside.known space name
    | some k => simp
  · intro space name x visible
    rw [lookup] at visible
    cases found : scope.find? (space, name) with
    | none =>
      rw [found, Option.none_or] at visible
      exact around.held space name x visible
    | some y =>
      rw [found, Option.some_or] at visible
      obtain rfl := Option.some.inj visible
      obtain ⟨k, known, heads⟩ := holds.taken _ _ y found
      exact heads.small

end Declared

end Binder

/-- A scope of its own: its declarations are visible in the whole of it. -/
theorem Refers.scope {env : Environment} (ds : List Decl) {body : Binding Unit}
    {rs : Environment → List Reference} (inner : ∀ env', Refers env' body (rs env')) :
    Refers env (Binding.inScope do ds.forM Binding.declareOwn; body) (env.scope ds rs) := by
  intro b shows
  have declared := (Binder.Declared.nil shows.bounded).forM ds
  rw [List.nil_append] at declared
  rw [Binding.inScope_apply, Binding.bind_apply]
  generalize (ds.forM Binding.declareOwn { b with scopes := Table.empty :: b.scopes }).2 = b₁
    at declared ⊢
  obtain ⟨scopes, records⟩ := inner _ b₁ (declared.shows shows)
  refine ⟨?_, (declared.records.trans records).silent _ _⟩
  obtain ⟨scope, here, _⟩ := declared.scopes
  simp [scopes, here]

/-! ### Trees -/

mutual
theorem Expr.refers : ∀ (e : Expr Mark) (env : Environment), Refers env e.bind (e.references env)
  | .lit _, _ => .nothing
  | .host _ _, _ => .nothing
  | .name x, _ => .resolveValue x
  | .paren _ e, env => e.refers env
  | .unary _ _ e, env => e.refers env
  | .bin _ _ l r, env => (l.refers env).seq (r.refers env)
  | .call _ f args, env => (Refers.resolveValue f).seq (exprs_refer args env)
  | .block _ ss tail, env => by
    rw [Expr.bind, Binding.hoist_eq]
    exact .scope _ fun env => (stmts_refer ss env).seq (tail_refers tail env)
  | .assign m x e, env => by
    rw [Expr.assign_bind]
    exact (Refers.assign x).seq (e.refers env)
  | .cases _ e arms, env => (e.refers env).seq (arms_refer arms env)
  | .inhabitant _ t, env => t.refers env

theorem exprs_refer : ∀ (es : List (Expr Mark)) (env : Environment),
    Refers env (bindExprs es) (exprsReferences es env)
  | [], _ => .nothing
  | e :: es, env => (e.refers env).seq (exprs_refer es env)

theorem tail_refers : ∀ (tail : Option (Expr Mark)) (env : Environment),
    Refers env (bindTail tail) (tailReferences tail env)
  | none, _ => .nothing
  | some e, env => e.refers env

theorem arms_refer : ∀ (arms : List (Arm Mark)) (env : Environment),
    Refers env (bindArms arms) (armsReferences arms env)
  | [], _ => .nothing
  | ⟨_, p, e⟩ :: arms, env => (p.refers env).seq ((e.refers env).seq (arms_refer arms env))

theorem Pat.refers : ∀ (p : Pat Mark) (env : Environment), Refers env p.bind (p.references env)
  | .wildcard _, _ => .nothing
  | .lit _ _, _ => .nothing
  | .typed _ t, env => t.refers env

theorem TyNode.refers : ∀ (t : TyNode Mark) (env : Environment),
    Refers env t.bind (t.references env)
  | .refer _ x, _ => .resolveType x
  | .singleton _ e, env => e.refers env
  | .lit _ _ _, _ => .nothing
  | .paren _ t, env => t.refers env

theorem ty?_refers : ∀ (t : Option (TyNode Mark)) (env : Environment),
    Refers env (bindTy? t) (tyReferences? t env)
  | none, _ => .nothing
  | some t, env => t.refers env

theorem params_refer : ∀ (ps : List (Param Mark)) (env : Environment),
    Refers env (bindParams ps) (paramsReferences ps env)
  | [], _ => .nothing
  | ⟨_, _, t⟩ :: ps, env => (t.refers env).seq (params_refer ps env)

theorem Stmt.refers : ∀ (s : Stmt Mark) (env : Environment), Refers env s.bind (s.references env)
  | .val ⟨_, _, _, t, e⟩, env => (ty?_refers t env).seq (e.refers env)
  | .typeAlias ⟨_, _, t⟩, env => t.refers env
  | .fn ⟨_, _, ps, t, e⟩, env => by
    rw [Stmt.bind, Binding.params_eq]
    exact .scope _ fun env =>
      (params_refer ps env).seq ((ty?_refers t env).seq (e.refers env))
  | .expr _ e, env => e.refers env

theorem stmts_refer : ∀ (ss : List (Stmt Mark)) (env : Environment),
    Refers env (bindStmts ss) (stmtsReferences ss env)
  | [], _ => .nothing
  | s :: ss, env => (s.refers env).seq (stmts_refer ss env)
end

/-! ### Programs -/

namespace Binder

theorem referent_toBound (b : Binder) (src : Source) (x : SymbolId) :
    (b.toBound src).referent x = b.referent x := by
  rw [BoundProgram.referent, BoundProgram.symbol, toBound, symbol_freeze, referent]
  split
  · next isVar => simp [Symbol.referent, isVar]
  · rfl

theorem start_lookup (space : Namespace) (name : String) :
    start.lookup? space name =
      if space = .value ∧ name = Keyword.println then some 1 else none := by
  simp [lookup?, start, Table.find?_insert]

theorem start_shows : start.Shows .outermost where
  lookup space name := by
    rw [start_lookup, Environment.outermost]
    split <;> rfl
  known space name := by
    rw [Environment.outermost]
    split <;> simp
  held space name x found := by
    rw [start_lookup] at found
    split at found <;> cases found
    decide
  bounded := nofun
  unresolved := rfl

/-- The first two symbols are the unresolved and the built-in one, the others are declared. -/
theorem Records.referent_cases {b : Binder} {rs : List Reference} (records : start.Records rs b)
    {x : SymbolId} (small : x < b.symbols.size) :
    x = Symbol.unresolvedId ∧ b.referent x = .unknown ∨ x = 1 ∧ b.referent x = .builtin ∨
      1 < x ∧ ∃ i, b.referent x = .decl i := by
  obtain ⟨ids, grown⟩ := records.referents
  have found := getElem?_referents small
  rw [grown] at found
  match x, found with
  | 0, found => exact .inl ⟨rfl, (Option.some.inj found).symm⟩
  | 1, found => exact .inr (.inl ⟨rfl, (Option.some.inj found).symm⟩)
  | x + 2, found =>
    have later : (ids.map Referent.decl)[x]? = some (b.referent (x + 2)) := found
    rw [List.getElem?_map] at later
    obtain ⟨i, _, same⟩ := Option.map_eq_some_iff.mp later
    exact .inr (.inr ⟨Nat.le_add_left 2 x, i, same.symm⟩)

end Binder

namespace Symbol

theorem decl_of_referent {s : Symbol} {i : NodeId} (same : s.referent = .decl i) :
    ∃ d ∈ s.decls, d.mark.id = i := by
  rw [referent] at same
  split at same
  · next d others first =>
    refine ⟨d, ?_, Referent.decl.inj same⟩
    rw [first]
    exact List.mem_cons_self
  · split at same <;> cases same

end Symbol

theorem BoundProgram.Grounded.symbol_unique {p : BoundProgram} (ground : p.Grounded)
    {x y : SymbolId} {i : NodeId} (first : p.referent x = .decl i)
    (second : p.referent y = .decl i) : x = y := by
  obtain ⟨d, declared, rfl⟩ := Symbol.decl_of_referent first
  obtain ⟨k, declared', same⟩ := Symbol.decl_of_referent second
  have target := ground.target y k declared'
  rw [same, ground.target x d declared] at target
  exact Option.some.inj target

namespace Source

theorem bind_records (src : Source) :
    ∃ b : Binder, src.bind = b.toBound src ∧ Binder.start.Records src.program.references b := by
  have refers : Refers .outermost _ _ :=
    .scope (src.program.stmts.filterMap Stmt.decl?) (stmts_refer src.program.stmts)
  rw [← Binding.hoist_eq] at refers
  exact ⟨_, rfl, (refers .start Binder.start_shows).2⟩

theorem bind_resolution (src : Source) :
    src.bind.targets.mapValues src.bind.referent = src.program.resolution := by
  obtain ⟨b, same, records⟩ := src.bind_records
  rw [same, funext (b.referent_toBound src)]
  exact congrArg Table.mk records.recorded

theorem bind_unknownNames (src : Source) :
    src.bind.diagnostics.filter (·.isUnknownName) = unknownNames src.program.references := by
  obtain ⟨b, same, records⟩ := src.bind_records
  rw [same]
  exact records.unknownNames

theorem bind_bounded (src : Source) {node : NodeId} {x : SymbolId}
    (found : src.bind.targets.find? node = some x) : x < src.bind.symbols.size := by
  obtain ⟨b, same, records⟩ := src.bind_records
  rw [same] at found ⊢
  rw [b.size_toBound]
  exact records.bounded _ (Table.mem_of_look found)

theorem referent_cases (src : Source) {x : SymbolId} (small : x < src.bind.symbols.size) :
    x = Symbol.unresolvedId ∧ src.bind.referent x = .unknown ∨
      x = 1 ∧ src.bind.referent x = .builtin ∨ 1 < x ∧ ∃ i, src.bind.referent x = .decl i := by
  obtain ⟨b, same, records⟩ := src.bind_records
  rw [same] at small ⊢
  rw [b.size_toBound] at small
  rw [b.referent_toBound]
  exact records.referent_cases small

theorem referent_eq_unknown (src : Source) {x : SymbolId} (small : x < src.bind.symbols.size) :
    src.bind.referent x = .unknown ↔ x = Symbol.unresolvedId := by
  obtain ⟨rfl, unknown⟩ | ⟨rfl, builtin⟩ | ⟨large, i, declared⟩ := src.referent_cases small
  · simp [unknown]
  · simp [builtin, Symbol.unresolvedId]
  · have other : x ≠ Symbol.unresolvedId := Nat.ne_of_gt (Nat.lt_of_succ_lt large)
    simp [declared, other]

/-- Symbols are told apart by what they stand for. -/
theorem referent_injective (src : Source) (ground : src.bind.Grounded) {x y : SymbolId}
    (smallX : x < src.bind.symbols.size) (smallY : y < src.bind.symbols.size)
    (same : src.bind.referent x = src.bind.referent y) : x = y := by
  obtain ⟨rfl, left⟩ | ⟨rfl, left⟩ | ⟨_, i, left⟩ := src.referent_cases smallX
  · exact ((src.referent_eq_unknown smallY).mp (same ▸ left)).symm
  · obtain ⟨_, right⟩ | ⟨rfl, _⟩ | ⟨_, j, right⟩ := src.referent_cases smallY
    · simp [left, right] at same
    · rfl
    · simp [left, right] at same
  · exact ground.symbol_unique left (same ▸ left)

/-- Binding resolves names by lexical scoping. What its table says of each node, read through the
referents of symbols, is what the reference of the node says, and no node stands in it twice;
different symbols have different referents; and the names that are reported as unknown, whose
nodes have the unresolved symbol, are those whose reference stands for nothing. -/
theorem bind_resolves_lexically (module : ModuleId) (text : String) (stmts : List (Stmt Labels)) :
    let p := (Source.anchor module text stmts).bind
    p.targets.mapValues p.referent = p.program.resolution ∧
      p.targets.keys.Nodup ∧
      (∀ node x, p.targets.find? node = some x → x < p.symbols.size) ∧
      (∀ x < p.symbols.size, ∀ y < p.symbols.size, p.referent x = p.referent y → x = y) ∧
      (∀ node, p.targets.find? node = some Symbol.unresolvedId ↔
        p.program.resolution.find? node = some .unknown) ∧
      p.diagnostics.filter (·.isUnknownName) = unknownNames p.program.references := by
  intro p
  have nested : p.WellNested := bind_wellNested _ (anchor_nodup module text stmts)
  have resolution : p.targets.mapValues p.referent = p.program.resolution := bind_resolution _
  refine ⟨resolution, nested.once, fun _ _ => bind_bounded _, ?_, ?_, bind_unknownNames _⟩
  · intro x smallX y smallY same
    exact referent_injective _ nested.toGrounded smallX smallY same
  · intro node
    rw [← resolution, Table.find?_mapValues]
    cases found : p.targets.find? node with
    | none => simp
    | some x =>
      rw [Option.map_some, Option.some_inj, Option.some_inj]
      exact (referent_eq_unknown _ (bind_bounded _ found)).symm

end Source

end Solo

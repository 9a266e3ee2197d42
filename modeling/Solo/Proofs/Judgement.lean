import Solo.Evaluation
import Solo.Proofs.Names
import Solo.Proofs.Operators

/-!
# Judgements

What it means that a checker's findings are right. A judgement speaks of a bound program `p` and of
the tables of a checker `c`. `Inhabits` says which values a type has, `Holds` and `Constant` which
value a binding or an expression has in every run, `Denotes` what a type node stands for, and
`Typed` that a tree has a type whose reasons the tables record.
-/

namespace Solo

/-! ### Values of types -/

/-- A value of a type. The singleton of a binding has the values of the binding's type. -/
inductive Inhabits (c : Checker) : Literal → Ty → Prop
  | literal (v : Literal) : Inhabits c v (.literal v)
  | kind {k : Kind} {v : Literal} (admitted : k.admits v = true) : Inhabits c v (.intrinsic k)
  | path {x : SymbolId} {t : Ty} {v : Literal} (declared : c.symbolTypes.find? x = some t)
      (inner : Inhabits c v t) : Inhabits c v (.path x)

mutual
/-- The one value that a binding can hold: that of its singleton type or of its initializer. -/
inductive Holds (p : BoundProgram) (c : Checker) : SymbolId → Literal → Prop
  | literal {x : SymbolId} {v : Literal} (declared : c.symbolTypes.find? x = some (.literal v)) :
    Holds p c x v
  | path {x y : SymbolId} {v : Literal} (declared : c.symbolTypes.find? x = some (.path y))
      (next : Holds p c y v) : Holds p c x v
  | init {x : SymbolId} {k : Kind} {d : ValDecl Mark} {v : Literal}
      (declared : c.symbolTypes.find? x = some (.intrinsic k))
      (stable : (p.symbol x).role.isStable = true)
      (decl : (p.symbol x).decls.head? = some (.val d)) (constant : Constant p c d.init v) :
    Holds p c x v

/-- The value of an expression that is built from literals and bindings of which `Holds` says the
value. -/
inductive Constant (p : BoundProgram) (c : Checker) : Expr Mark → Literal → Prop
  | lit (l : Lit Mark) : Constant p c (.lit l) l.value
  | paren {m : Mark} {e : Expr Mark} {v : Literal} (inner : Constant p c e v) :
    Constant p c (.paren m e) v
  | name {x : Ident Mark} {s : SymbolId} {v : Literal} (target : p.symbolAt? x.mark.id = some s)
      (held : Holds p c s v) : Constant p c (.name x) v
  | unary {m : Mark} {op : UnaryOp} {e : Expr Mark} {v w : Literal} (inner : Constant p c e v)
      (result : op.eval v = .ok w) : Constant p c (.unary m op e) w
  | bin {m : Mark} {op : BinOp} {a b : Expr Mark} {v w u : Literal} (left : Constant p c a v)
      (right : Constant p c b w) (result : op.eval v w = .ok u) : Constant p c (.bin m op a b) u
end

section
variable {p : BoundProgram} {c : Checker}

mutual
theorem Holds.unique {x : SymbolId} {v w : Literal} :
    Holds p c x v → Holds p c x w → v = w
  | .literal declared, .literal declared' => by
    rw [declared] at declared'
    cases declared'
    rfl
  | .path declared next, .path declared' next' => by
    rw [declared] at declared'
    cases declared'
    exact next.unique next'
  | .init _ _ decl constant, .init _ _ decl' constant' => by
    rw [decl] at decl'
    cases decl'
    exact constant.unique constant'
  | .literal declared, .path declared' _ | .literal declared, .init declared' _ _ _
  | .path declared _, .literal declared' | .path declared _, .init declared' _ _ _
  | .init declared _ _ _, .literal declared' | .init declared _ _ _, .path declared' _ => by
    rw [declared] at declared'
    cases declared'

theorem Constant.unique {e : Expr Mark} {v w : Literal} :
    Constant p c e v → Constant p c e w → v = w
  | .lit _, .lit _ => rfl
  | .paren inner, .paren inner' => inner.unique inner'
  | .name target held, .name target' held' => by
    rw [target] at target'
    cases target'
    exact held.unique held'
  | .unary inner result, .unary inner' result' => by
    rw [inner.unique inner', result'] at result
    cases result
    rfl
  | .bin left right result, .bin left' right' result' => by
    rw [left.unique left', right.unique right', result'] at result
    cases result
    rfl
end

end

section
variable (p : BoundProgram) (c : Checker)

/-- A value that an expression of a type can have: if the type is the singleton of a binding of
which the value is known, only that value. -/
def Fits (v : Literal) (t : Ty) : Prop :=
  Inhabits c v t ∧ ∀ x w, t = .path x → Holds p c x w → v = w

/-- What the checker means by a subtype: a singleton is one of what it widens to. -/
inductive Sub (c : Checker) : Ty → Ty → Prop
  | refl (t : Ty) : Sub c t t
  | any (s : Ty) : Sub c s (.intrinsic .any)
  | nothing (t : Ty) : Sub c (.intrinsic .nothing) t
  | kind {j k : Kind} (sub : j.isSubkind k = true) : Sub c (.intrinsic j) (.intrinsic k)
  | literal {v : Literal} {k : Kind} (up : Sub c (.intrinsic v.kind) (.intrinsic k)) :
    Sub c (.literal v) (.intrinsic k)
  | path {x : SymbolId} {u : Ty} {k : Kind} (declared : c.symbolTypes.find? x = some u)
      (up : Sub c u (.intrinsic k)) : Sub c (.path x) (.intrinsic k)

/-- One step up from a singleton. -/
def Widens (c : Checker) : Ty → Ty → Prop
  | .literal v, u => u = .intrinsic v.kind
  | .path x, u => c.symbolTypes.find? x = some u
  | .intrinsic k, u => u = .intrinsic k

/-- Every value of a type is one of another type. -/
def Below (s t : Ty) : Prop := ∀ v, Fits p c v s → Fits p c v t

/-- A right answer to the question whether a type is a subtype of another one. -/
def Decides (s t : Ty) (b : Bool) : Prop := (b = true ↔ Sub c s t) ∧ (b = true → Below p c s t)

/-- All values of a type are of a kind. The kind of what could not be typed says nothing. -/
def OfKind (t : Ty) (k : Kind) : Prop := k ≠ .error → ∀ v, Fits p c v t → k.admits v = true

/-- The value that a type was found to have only. -/
def Sole (t : Ty) (v : Literal) : Prop :=
  t = .literal v ∨ (t = .intrinsic .unit ∧ v = .unit) ∨ (t = .intrinsic .null ∧ v = .null) ∨
    ∃ x, t = .path x ∧ Holds p c x v

/-- A type that is no error; only a stable binding has a singleton. -/
def Sane (t : Ty) : Prop := t ≠ .error ∧ ∀ x, t = .path x → (p.symbol x).role.isStable = true

/-- The type that a type node stands for. -/
inductive Denotes : TyNode Mark → Ty → Prop
  | kind {m : Mark} {x : Ident Mark} {k : Kind} (plain : p.targets.find? x.mark.id = none)
      (named : Kind.ofName? x.name = some k) : Denotes (.refer m x) (.intrinsic k)
  | typeAlias {m : Mark} {x : Ident Mark} {s : SymbolId} {d : AliasDecl Mark} {t : Ty}
      (target : p.symbolAt? x.mark.id = some s)
      (decl : (p.symbol s).decls.head? = some (.typeAlias d)) (next : Denotes d.ty t) :
    Denotes (.refer m x) t
  | literal {m : Mark} {l : Lit Mark} : Denotes (.singleton m (.lit l)) (.literal l.value)
  | path {m : Mark} {x : Ident Mark} {s : SymbolId} (target : p.symbolAt? x.mark.id = some s)
      (stable : (p.symbol s).role.isStable = true) : Denotes (.singleton m (.name x)) (.path s)
  | lit {m : Mark} {l : Lit Mark} {dot : Bool} : Denotes (.lit m l dot) (.literal l.value)
  | paren {m : Mark} {node : TyNode Mark} {t : Ty} (inner : Denotes node t) :
    Denotes (.paren m node) t

def Checker.Noted (c : Checker) (node : NodeId) : Prop := (c.nodeTypes.find? node).isSome = true

/-- A function that a symbol stands for, with the types that it takes and gives. -/
structure Offers (x : SymbolId) (sig : Signature) : Prop where
  overload : .fn sig.decl ∈ (p.symbol x).decls
  known : c.signatures.find? sig.decl.mark.id = some sig

def ParamTyped (q : Param Mark) (t : Ty) : Prop :=
  Denotes p q.ty t ∧ ∃ x, p.symbolAt? q.mark.id = some x ∧ c.symbolTypes.find? x = some t

mutual
def Expr.Typed : Expr Mark → Ty → Prop
  | .lit l, t => c.Noted l.mark.id ∧ t = .literal l.value
  | .name x, t =>
    c.Noted x.mark.id ∧ ∃ s u, p.symbolAt? x.mark.id = some s ∧ c.symbolTypes.find? s = some u ∧
      (t = u ∨ t = .path s)
  | .paren m e, t => c.Noted m.id ∧ e.Typed t
  | .unary m op e, t =>
    c.Noted m.id ∧ ∃ s k j, e.Typed s ∧ OfKind p c s k ∧ op.resultKind k = some j ∧
      (t = .intrinsic j ∨ ∃ v w, s = .literal v ∧ op.eval v = .ok w ∧ t = .literal w)
  | .bin m op a b, t =>
    c.Noted m.id ∧ ∃ s₁ s₂ k₁ k₂ j, a.Typed s₁ ∧ b.Typed s₂ ∧ OfKind p c s₁ k₁ ∧ OfKind p c s₂ k₂ ∧
      op.resultKind k₁ k₂ = some j ∧
      (t = .intrinsic j ∨
        ∃ v w u, s₁ = .literal v ∧ s₂ = .literal w ∧ op.eval v w = .ok u ∧ t = .literal u)
  | .call m f args, t =>
    c.Noted m.id ∧ ∃ x types, p.symbolAt? f.mark.id = some x ∧ exprsTyped args types ∧
      ((p.symbol x).role = .builtin ∧ args.length = 1 ∧ t = .intrinsic .unit ∨
        (p.symbol x).role = .function ∧ ∃ sig, c.signatures.find? m.id = some sig ∧
          Offers p c x sig ∧ List.Forall₂ (Below p c) types sig.params ∧ t = sig.result)
  | .block m ss tail, t => c.Noted m.id ∧ stmtsTyped ss ∧ tailTyped tail t
  | .assign m x e, t =>
    c.Noted m.id ∧ t = .intrinsic .unit ∧ ∃ s u r, p.symbolAt? x.mark.id = some s ∧
      (p.symbol s).role.isVar = true ∧ c.symbolTypes.find? s = some u ∧ e.Typed r ∧ Below p c r u
  | .cases m e arms, t => c.Noted m.id ∧ (∃ s, e.Typed s) ∧ armsTyped arms t
  | .inhabitant m node, t =>
    c.Noted m.id ∧ Denotes p node t ∧
      ∃ w, c.witnesses.find? m.id = some w ∧ Sole p c t w.value
  | .host m _, t => c.Noted m.id ∧ t = .intrinsic .unit

def exprsTyped : List (Expr Mark) → List Ty → Prop
  | [], ts => ts = []
  | e :: es, ts => ∃ t rest, ts = t :: rest ∧ e.Typed t ∧ exprsTyped es rest

def tailTyped : Option (Expr Mark) → Ty → Prop
  | none, t => t = .intrinsic .unit
  | some e, t => e.Typed t

/-- The bodies of all arms have the values of a type. -/
def armsTyped : List (Arm Mark) → Ty → Prop
  | [], _ => True
  | ⟨_, q, e⟩ :: arms, t => q.Typed ∧ (∃ s, e.Typed s ∧ Below p c s t) ∧ armsTyped arms t

def Pat.Typed : Pat Mark → Prop
  | .wildcard _ => True
  | .lit _ _ => True
  | .typed m node => ∃ t, c.nodeTypes.find? m.id = some t ∧ Denotes p node t

def Stmt.Typed : Stmt Mark → Prop
  | .val ⟨m, _, _, ty, e⟩ =>
    (∀ node, ty = some node → ∃ t, Denotes p node t) ∧
      ∃ x u s, p.symbolAt? m.id = some x ∧ c.symbolTypes.find? x = some u ∧ e.Typed s ∧
        Below p c s u
  | .typeAlias ⟨_, _, node⟩ => ∃ t, Denotes p node t
  | .fn ⟨m, name, params, result, e⟩ =>
    (∀ node, result = some node → ∃ t, Denotes p node t) ∧
      ∃ sig s, c.signatures.find? m.id = some sig ∧ sig.decl = ⟨m, name, params, result, e⟩ ∧
        List.Forall₂ (ParamTyped p c) params sig.params ∧
        e.Typed s ∧ Below p c s sig.result
  | .expr _ e => ∃ t, e.Typed t

def stmtsTyped : List (Stmt Mark) → Prop
  | [] => True
  | s :: ss => s.Typed ∧ stmtsTyped ss
end

end

theorem Expr.Typed.noted {p : BoundProgram} {c : Checker} {e : Expr Mark} {t : Ty}
    (typed : e.Typed p c t) : c.Noted e.id := by
  cases e <;> exact typed.1

/-! ### Subtypes -/

section
variable {p : BoundProgram} {c : Checker} {s t u : Ty} {v : Literal}

theorem Below.refl (t : Ty) : Below p c t t := fun _ fits => fits

theorem Below.trans (first : Below p c s t) (second : Below p c t u) : Below p c s u :=
  fun v fits => second v (first v fits)

theorem fits_kind {k : Kind} (admitted : k.admits v = true) : Fits p c v (.intrinsic k) :=
  ⟨.kind admitted, fun _ _ same => by cases same⟩

theorem fits_literal (v : Literal) : Fits p c v (.literal v) :=
  ⟨.literal v, fun _ _ same => by cases same⟩

theorem Fits.admits {k : Kind} (fits : Fits p c v (.intrinsic k)) : k.admits v = true := by
  cases fits.1 with
  | kind admitted => exact admitted

theorem Fits.eq_literal {w : Literal} (fits : Fits p c v (.literal w)) : v = w := by
  cases fits.1
  rfl

theorem Below.any (s : Ty) : Below p c s (.intrinsic .any) := fun _ _ => fits_kind rfl

theorem Below.nothing (t : Ty) : Below p c (.intrinsic .nothing) t := by
  intro v fits
  cases fits.admits

theorem Below.literal (v : Literal) : Below p c (.literal v) (.intrinsic v.kind) := by
  intro w fits
  obtain rfl := fits.eq_literal
  exact fits_kind (Kind.admits_kind w)

/-- A binding's singleton lies below the binding's type, also if that is the singleton of a binding
whose value is known. -/
theorem Below.path {x : SymbolId} (declared : c.symbolTypes.find? x = some t) :
    Below p c (.path x) t := by
  rintro v ⟨inhabits, known⟩
  cases inhabits with
  | path declared' inner =>
    rw [declared] at declared'
    cases declared'
    refine ⟨inner, ?_⟩
    rintro y w rfl holds
    exact known x w rfl (.path declared holds)

theorem Below.widenLiteral (t : Ty) : Below p c t t.widenLiteral := by
  cases t with
  | literal v => exact .literal v
  | _ => exact .refl _

theorem Below.kind {j k : Kind} (sub : j.isSubkind k = true) (first : j ≠ .error)
    (second : k ≠ .error) : Below p c (.intrinsic j) (.intrinsic k) :=
  fun _ fits => fits_kind (Kind.admits_of_isSubkind sub first second fits.admits)

theorem Widens.below (widens : Widens c s t) : Below p c s t := by
  cases s with
  | literal v => exact widens ▸ .literal v
  | path x => exact .path widens
  | intrinsic k => exact widens ▸ .refl _

/-- Among singletons only the same one is a subtype. -/
theorem Sub.eq_of_isSingleton (sub : Sub c s t) (single : t.isSingleton = true)
    (value : s ≠ .intrinsic .nothing) : s = t := by
  cases sub with
  | refl => rfl
  | nothing => exact absurd rfl value
  | _ => cases single

theorem Sub.kind_iff {j k : Kind} : Sub c (.intrinsic j) (.intrinsic k) ↔ j.isSubkind k = true := by
  constructor
  · intro sub
    cases sub with
    | refl => simp [Kind.isSubkind]
    | any => simp [Kind.isSubkind]
    | nothing => simp [Kind.isSubkind]
    | kind sub => exact sub
  · exact .kind

/-- A singleton is a subtype of a kind through what it widens to. -/
theorem Sub.widen_iff {k : Kind} (single : s.isSingleton = true) (widens : Widens c s u)
    (other : k ≠ .any) : Sub c s (.intrinsic k) ↔ Sub c u (.intrinsic k) := by
  constructor
  · intro sub
    cases sub with
    | any => exact absurd rfl other
    | literal up =>
      obtain rfl := widens
      exact up
    | path declared up =>
      rw [Widens, declared] at widens
      cases widens
      exact up
    | _ => cases single
  · intro up
    cases s with
    | literal v =>
      obtain rfl := widens
      exact .literal up
    | path x => exact .path widens up
    | intrinsic k => cases single

theorem Sub.not_of_widens_self {k : Kind} (single : s.isSingleton = true) (widens : Widens c s s)
    (other : k ≠ .any) : ¬Sub c s (.intrinsic k) := by
  intro sub
  generalize goal : (Ty.intrinsic k) = t at sub
  induction sub with
  | any => exact other (Ty.intrinsic.inj goal)
  | literal _ _ => cases widens
  | path declared up ih =>
    rw [Widens, declared] at widens
    cases widens
    exact ih single declared goal
  | refl => exact absurd single (by rw [← goal]; nofun)
  | _ => cases single

/-! ### Types as written -/

theorem Denotes.sane {node : TyNode Mark} (denotes : Denotes p node t) : Sane p t := by
  induction denotes with
  | @kind m x k plain named =>
    refine ⟨?_, fun x same => by cases same⟩
    rintro same
    cases same
    have member := List.mem_of_find?_eq_some named
    simp [Kind.named, Kind.all] at member
  | typeAlias _ _ _ ih => exact ih
  | literal => exact ⟨nofun, nofun⟩
  | path _ stable =>
    refine ⟨nofun, ?_⟩
    intro x same
    cases same
    exact stable
  | lit => exact ⟨nofun, nofun⟩
  | paren _ ih => exact ih

theorem Denotes.unique {node : TyNode Mark} (first : Denotes p node s) (second : Denotes p node t) :
    s = t := by
  induction first with
  | kind plain named =>
    cases second with
    | kind _ named' =>
      rw [named] at named'
      cases named'
      rfl
    | typeAlias target _ _ => simp [BoundProgram.symbolAt?, plain] at target
  | typeAlias target decl _ ih =>
    cases second with
    | kind plain _ => simp [BoundProgram.symbolAt?, plain] at target
    | typeAlias target' decl' next' =>
      rw [target] at target'
      cases target'
      rw [decl] at decl'
      cases decl'
      exact ih next'
  | literal =>
    cases second
    rfl
  | path target _ =>
    cases second with
    | path target' _ =>
      rw [target] at target'
      cases target'
      rfl
  | lit =>
    cases second
    rfl
  | paren _ ih =>
    cases second with
    | paren inner' => exact ih inner'

end

end Solo

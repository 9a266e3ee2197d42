import Solo.Proofs.Additions
import Solo.Proofs.Expectations
import Solo.Proofs.Recollection
import Solo.Proofs.Strides

/-!
# Programs with functions added

A `Graft` is a program that was accepted, with its tables, and the same program with functions added
and checked. The nodes of the first are found in the second under the numbers `ν`, its symbols under
the numbers `ρ`. A state of the second check `Agrees` with the tables of the first if everything that
was found of an old node or symbol is what they have of it.
-/

namespace Solo

def Ty.move (ρ : SymbolId → SymbolId) : Ty → Ty
  | .path x => .path (ρ x)
  | t => t

/-- A problem of a binding, a function or a constant that is needed to find itself. -/
def Problem.isCircle : Problem → Bool
  | .circularInitializer _ | .recursiveWithoutResult _ | .notAConstant _ => true
  | _ => false

theorem Problem.severity_eq_error (p : Problem) (circle : p.isCircle = true) : p.severity = .error := by
  cases p with
  | unreachableCase => cases circle
  | _ => rfl

structure Signature.Moves (ν : NodeId → NodeId) (ρ : SymbolId → SymbolId)
    (sig sig' : Signature) : Prop where
  decl : Stmt.Gains ν (.fn sig.decl) (.fn sig'.decl)
  symbol : sig'.symbol = ρ sig.symbol
  params : sig'.params = sig.params.map (·.move ρ)
  result : sig'.result = sig.result.move ρ

/-- An accepted program with its tables, and the same program with functions added with those that
its check ends with. -/
structure Graft where
  cx : Context
  F : Checker
  gs : List Finding
  cx' : Context
  F' : Checker
  /-- The numbers of the nodes with functions added. -/
  ν : NodeId → NodeId
  /-- The numbers of the symbols with functions added. -/
  ρ : SymbolId → SymbolId
  recalled : cx.Recalled F gs
  ground : cx'.Grounded
  upright : cx'.Upright F'
  idle : F'.pursuits = []
  injective : ν.Injective
  apart : ρ.Injective
  options : cx'.options = cx.options
  program : cx.program.Gains ν cx'.program
  size : cx.symbols.size ≤ cx'.symbols.size
  unresolved : ρ Symbol.unresolvedId = Symbol.unresolvedId
  targets : ∀ i, cx'.targets.find? (ν i) = (cx.targets.find? i).map ρ
  role : ∀ x, (cx'.symbol (ρ x)).role = (cx.symbol x).role
  decls : ∀ x, Joins (Decl.Gains ν) (fun d => ∃ k, d = .fn k ∧ k.mark.id ∉ Set.range ν)
    (cx.symbol x).decls (cx'.symbol (ρ x)).decls
  plain : ∀ x, (cx.symbol x).role ≠ .function →
    List.Forall₂ (Decl.Gains ν) (cx.symbol x).decls (cx'.symbol (ρ x)).decls
  /-- Other symbols stand for what is declared in the functions. -/
  inner : ∀ y, y ∉ Set.range ρ → ∀ d ∈ (cx'.symbol y).decls,
    ∀ n ∈ d.node.below, n.mark.id ∉ Set.range ν
  /-- An added function among the overloads of a call's name. -/
  refused : ∀ L m f args x, cx.At L (.expr (.call m f args)) → cx.symbolAt? f.mark.id = some x →
    ∀ k sig, .fn k ∈ (cx'.symbol (ρ x)).decls → k.mark.id ∉ Set.range ν →
      F'.signatures.find? k.mark.id = some sig → sig.params.length = args.length →
        (∃ (i : ℕ) (e : Expr Mark) (t p : Ty) (c : Checker), args[i]? = some e ∧
          F.nodeTypes.find? e.id = some t ∧ sig.params[i]? = some p ∧ cx'.Follows F' c ∧
            cx'.Compares c (t.move ρ) p false) ∧
        cx.Indifferent args (Resolver.expectedArgs args.length (cx.overloads F x))
  /-- Nothing of the first program needs itself now. -/
  calm : ∀ n ∈ cx'.program.nodes, n.mark.id ∈ Set.range ν → ∀ d ∈ F'.diagnostics,
    d.span = n.mark.span → d.problem.isCircle = false

theorem Signature.Moves.id {ν : NodeId → NodeId} {ρ : SymbolId → SymbolId} {sig sig' : Signature}
    (moves : sig.Moves ν ρ sig') : sig'.decl.mark.id = ν sig.decl.mark.id := moves.decl.id

/-! ### What is expected -/

section
variable {ν : NodeId → NodeId} {ρ : SymbolId → SymbolId}

mutual
theorem Expr.Gains.of_ends : ∀ {e e' : Expr Mark}, e.Gains ν e' → ∀ x' ∈ e'.ends,
    ∃ x ∈ e.ends, x.Moves ν x'
  | .name x, _, ⟨_, rfl, moves⟩, _, inside => by
    obtain rfl := List.mem_singleton.mp inside
    exact ⟨x, List.mem_singleton_self x, moves⟩
  | .paren _ _, _, ⟨_, _, rfl, _, inner⟩, x, inside => inner.of_ends x inside
  | .block _ _ _, _, ⟨_, _, _, rfl, _, _, last⟩, x, inside => of_tailEnds last x inside
  | .cases _ _ _, _, ⟨_, _, _, rfl, _, _, rest⟩, x, inside => of_armsEnds rest x inside
  | .lit _, _, ⟨_, rfl, _⟩, _, inside => by cases inside
  | .unary _ _ _, _, ⟨_, _, rfl, _⟩, _, inside => by cases inside
  | .bin _ _ _ _, _, ⟨_, _, _, rfl, _⟩, _, inside => by cases inside
  | .call _ _ _, _, ⟨_, _, _, rfl, _⟩, _, inside => by cases inside
  | .assign _ _ _, _, ⟨_, _, _, rfl, _⟩, _, inside => by cases inside
  | .inhabitant _ _, _, ⟨_, _, rfl, _⟩, _, inside => by cases inside
  | .host _ _, _, ⟨_, rfl, _⟩, _, inside => by cases inside

theorem of_tailEnds : ∀ {tail tail' : Option (Expr Mark)}, tailGains ν tail tail' →
    ∀ x' ∈ tailEnds tail', ∃ x ∈ tailEnds tail, x.Moves ν x'
  | none, _, rfl, _, inside => by cases inside
  | some _, _, ⟨_, rfl, gains⟩, x, inside => gains.of_ends x inside

theorem of_armsEnds : ∀ {arms arms' : List (Arm Mark)}, armsGain ν arms arms' →
    ∀ x' ∈ armsEnds arms', ∃ x ∈ armsEnds arms, x.Moves ν x'
  | [], _, rfl, _, inside => by cases inside
  | ⟨_, _, _⟩ :: _, _, ⟨_, _, _, _, rfl, _, _, body, rest⟩, x, inside => by
    rcases List.mem_append.mp inside with first | later
    · obtain ⟨y, inside, moves⟩ := body.of_ends x first
      exact ⟨y, List.mem_append_left _ inside, moves⟩
    · obtain ⟨y, inside, moves⟩ := of_armsEnds rest x later
      exact ⟨y, List.mem_append_right _ inside, moves⟩
end

/-- As many parameters as there are arguments are expected of the counterpart, or there is a second
overload that has as many, and nothing is expected. -/
theorem Joins.expectedArgs {E : Signature → Prop} {sigs sigs' : List Signature} {count : ℕ}
    (joins : Joins (Signature.Moves ν ρ) E sigs sigs')
    (sure : ∃ sig ∈ sigs, sig.params.length = count) :
    Resolver.expectedArgs count sigs' = (Resolver.expectedArgs count sigs).map (·.move ρ) ∨
      (∃ sig', E sig' ∧ sig'.params.length = count) ∧ Resolver.expectedArgs count sigs' = [] := by
  obtain ⟨sig, member, arity⟩ := sure
  have among : sig ∈ sigs.filter fun sig => sig.params.length == count :=
    List.mem_filter.mpr ⟨member, beq_iff_eq.mpr arity⟩
  have fits := joins.filter (p := fun sig => sig.params.length == count)
    (q := fun sig => sig.params.length == count)
    fun sig sig' moves => by rw [moves.params, List.length_map]
  rw [Resolver.expectedArgs, Resolver.expectedArgs]
  revert among fits
  generalize sigs.filter _ = fit
  generalize sigs'.filter _ = fit'
  intro among fits
  cases fits with
  | nil => cases among
  | both moves rest =>
    cases rest with
    | nil => exact .inl moves.params
    | both => exact .inl rfl
    | more added => exact .inr ⟨⟨_, added.1, beq_iff_eq.mp added.2⟩, rfl⟩
  | more added rest =>
    cases rest with
    | nil => cases among
    | both | more => exact .inr ⟨⟨_, added.1, beq_iff_eq.mp added.2⟩, rfl⟩

end

namespace Ty

variable {ρ : SymbolId → SymbolId}

theorem move_injective (apart : ρ.Injective) {s t : Ty} (same : s.move ρ = t.move ρ) : s = t := by
  cases s <;> cases t <;> simp only [move, reduceCtorEq] at same
  case path.path x y => exact congrArg Ty.path (apart (path.inj same))
  all_goals exact same

theorem move_inj (apart : ρ.Injective) {s t : Ty} : s.move ρ = t.move ρ ↔ s = t :=
  ⟨move_injective apart, congrArg _⟩

theorem move_plain {t : Ty} (plain : ∀ x, t ≠ .path x) : t.move ρ = t := by
  cases t with
  | path x => exact absurd rfl (plain x)
  | _ => rfl

@[simp] theorem isSingleton_move (t : Ty) : (t.move ρ).isSingleton = t.isSingleton := by
  cases t <;> rfl

@[simp] theorem isError_move (t : Ty) : (t.move ρ).isError = t.isError := by cases t <;> rfl

@[simp] theorem isNothing_move (t : Ty) : (t.move ρ).isNothing = t.isNothing := by cases t <;> rfl

@[simp] theorem literal?_move (t : Ty) : (t.move ρ).literal? = t.literal? := by cases t <;> rfl

@[simp] theorem widenLiteral_move (t : Ty) : (t.move ρ).widenLiteral = t.widenLiteral.move ρ := by
  cases t <;> rfl

theorem move_eq_intrinsic {t : Ty} {k : Kind} : t.move ρ = .intrinsic k ↔ t = .intrinsic k := by
  cases t <;> simp [move]

theorem isBelowSingleton_move (apart : ρ.Injective) (s t : Ty) :
    (s.move ρ).isBelowSingleton (t.move ρ) = s.isBelowSingleton t := by
  simp [isBelowSingleton, move_inj apart]

end Ty

namespace Graft

variable (g : Graft)

abbrev move (t : Ty) : Ty := t.move g.ρ

/-- A mark of an added function. -/
def Extra (m : Mark) : Prop := m.id ∉ Set.range g.ν ∧ ∃ n ∈ g.cx'.program.nodes, n.mark = m

/-- An expression has the type that it had, and a call of a function the signature. -/
structure Settles (e : Expr Mark) : Prop where
  type : ∀ t, g.F.nodeTypes.find? e.id = some t →
    g.F'.nodeTypes.find? (g.ν e.id) = some (g.move t)
  call : ∀ m f args x, e = .call m f args → g.cx.symbolAt? f.mark.id = some x →
    (g.cx.symbol x).role = .function → ∃ sig sig', g.F.signatures.find? m.id = some sig ∧
      g.F'.signatures.find? (g.ν m.id) = some sig' ∧ sig.Moves g.ν g.ρ sig'

/-- All expressions at a node are settled. -/
def Kept (n : Node Mark) : Prop := ∀ L K e, Under L n K (.expr e) → g.Settles e

/-- What a checker has found of the first program is what the tables have of it. -/
structure Agrees (c : Checker) : Prop where
  noted : ∀ L n, g.cx.At L n → n.isTyped = true → ∀ u t,
    c.nodeTypes.find? (g.ν n.mark.id) = some u → g.F.nodeTypes.find? n.mark.id = some t →
      u = g.move t ∧ g.Kept n
  functions : ∀ d, .stmt (.fn d) ∈ g.cx.program.nodes → ∀ sig',
    c.signatures.find? (g.ν d.mark.id) = some sig' →
      ∃ sig, g.F.signatures.find? d.mark.id = some sig ∧ sig.Moves g.ν g.ρ sig'
  symbolTypes : ∀ x u, c.symbolTypes.find? (g.ρ x) = some u → u = g.move (g.F.bindingType x)
  aliasTargets : ∀ x d, (g.cx.symbol x).decls.head? = some (.typeAlias d) → ∀ u,
    c.aliasTargets.find? (g.ρ x) = some u →
      ∀ t, g.F.aliasTargets.find? x = some t → u = g.move t
  /-- No alias of the first program needs itself. -/
  straight : ∀ x, ¬c.Loops (.targetOf (g.ρ x))
  told : ∀ d ∈ c.diagnostics, d.isError = true → ∃ m, g.Extra m ∧ m.span = d.span

/-- A state before the end of the second check, in which nothing of the first program was found to
need itself. -/
structure Ahead (c : Checker) : Prop where
  follows : g.cx'.Follows c g.F'
  nodeTypes : c.nodeTypes.Within g.F'.nodeTypes
  signatures : c.signatures.Within g.F'.signatures
  told : ∀ d ∈ c.diagnostics, d ∈ g.F'.diagnostics
  straight : ∀ p ∈ c.pursuits, p.looped = true → (∀ x, p.goal ≠ .typeOf (g.ρ x)) ∧
    ∀ i, p.goal ≠ .resultOf (g.ν i)

end Graft

section
variable {g : Graft} {c c₁ : Checker} {n : Node Mark}

namespace Graft

theorem Kept.intro (own : ∀ e, n = .expr e → g.Settles e) (parts : ∀ k ∈ n.parts, g.Kept k) :
    g.Kept n := by
  intro L K e under
  cases under with
  | here => exact own e rfl
  | down part inner => exact parts _ part _ _ _ inner

theorem kept_type : ∀ t : TyNode Mark, g.Kept (.ty t)
  | .paren _ t => .intro nofun fun k part => by
    obtain rfl := List.mem_singleton.mp part
    exact kept_type t
  | .refer _ _ | .singleton _ _ | .lit _ _ _ => .intro nofun nofun

theorem kept_pat (q : Pat Mark) : g.Kept (.pat q) := by
  refine .intro nofun fun k part => ?_
  cases q with
  | typed m t =>
    obtain rfl := List.mem_singleton.mp part
    exact kept_type t
  | _ => cases part

/-- The states before a state ahead are ahead. -/
theorem Ahead.touched (ahead : g.Ahead c₁) {l : List Pursuit} (follows : g.cx'.Follows c c₁)
    (touches : Checker.Touches (fun _ => True) { c with pursuits := l } c₁)
    (straight : ∀ p ∈ c.pursuits, p.looped = true → (∀ x, p.goal ≠ .typeOf (g.ρ x)) ∧
      ∀ i, p.goal ≠ .resultOf (g.ν i)) : g.Ahead c where
  follows := follows.trans ahead.follows
  nodeTypes i t found := by
    rcases touches.nodeTypes i with same | ⟨none, _⟩
    · exact ahead.nodeTypes i t (same.trans found)
    · cases none.symm.trans found
  signatures i sig found := by
    rcases touches.signatures i with same | ⟨none, _⟩
    · exact ahead.signatures i sig (same.trans found)
    · cases none.symm.trans found
  told d member := ahead.told d (touches.kept d member)
  straight := straight

theorem Ahead.before (ahead : g.Ahead c₁) (strides : g.cx'.Strides c c₁) : g.Ahead c :=
  ahead.touched strides.follows strides.toTouches fun p member looped => by
    obtain ⟨goal, mark⟩ := p
    obtain rfl := (looped : mark = true)
    exact ahead.straight ⟨goal, true⟩ (strides.marks.mem member) rfl

/-- A step that writes and reports nothing of the first program. -/
theorem Agrees.step (agrees : g.Agrees c)
    (nodeTypes : ∀ L n, g.cx.At L n → n.isTyped = true →
      c₁.nodeTypes.find? (g.ν n.mark.id) = c.nodeTypes.find? (g.ν n.mark.id))
    (signatures : ∀ d, .stmt (.fn d) ∈ g.cx.program.nodes →
      c₁.signatures.find? (g.ν d.mark.id) = c.signatures.find? (g.ν d.mark.id))
    (symbolTypes : ∀ x, c₁.symbolTypes.find? (g.ρ x) = c.symbolTypes.find? (g.ρ x))
    (aliasTargets : ∀ x, c₁.aliasTargets.find? (g.ρ x) = c.aliasTargets.find? (g.ρ x))
    (straight : ∀ x, c₁.Loops (.targetOf (g.ρ x)) → c.Loops (.targetOf (g.ρ x)))
    (told : ∀ d ∈ c₁.diagnostics, d ∈ c.diagnostics ∨ d.isError = false ∨
      ∃ m, g.Extra m ∧ m.span = d.span) : g.Agrees c₁ where
  noted L n place typed u t found :=
    agrees.noted L n place typed u t ((nodeTypes L n place typed).symm.trans found)
  functions d node sig found := agrees.functions d node sig ((signatures d node).symm.trans found)
  symbolTypes x u found := agrees.symbolTypes x u ((symbolTypes x).symm.trans found)
  aliasTargets x d head u found :=
    agrees.aliasTargets x d head u ((aliasTargets x).symm.trans found)
  straight x loops := agrees.straight x (straight x loops)
  told d member error := by
    rcases told d member with before | mild | extra
    · exact agrees.told d before error
    · cases mild.symm.trans error
    · exact extra

/-! ### Symbols -/

variable (g) in
theorem symbolAt? (i : NodeId) :
    g.cx'.symbolAt? (g.ν i) = (g.cx.symbolAt? i).map g.ρ := by
  rw [BoundProgram.symbolAt?, BoundProgram.symbolAt?, g.targets]
  cases g.cx.targets.find? i with
  | none => rfl
  | some x =>
    by_cases resolved : x = Symbol.unresolvedId
    · subst resolved
      simp [Option.filter, g.unresolved]
    · have moved : g.ρ x ≠ Symbol.unresolvedId := fun same =>
        resolved (g.apart (same.trans g.unresolved.symm))
      simp [Option.filter, resolved, moved]

variable (g) in
theorem typable_iff (x : SymbolId) : g.cx'.Typable (g.ρ x) ↔ g.cx.Typable x := by
  rw [Context.Typable, Context.Typable, g.role]
  refine and_congr_right fun binding => not_congr ?_
  have other : (g.cx.symbol x).role ≠ .function := by
    intro same
    rw [same] at binding
    cases binding
  have pairs := g.plain x other
  revert pairs
  generalize (g.cx.symbol x).decls = ds
  generalize (g.cx'.symbol (g.ρ x)).decls = ds'
  rintro (_ | _) <;> simp

variable (g) in
/-- The first declarations are counterparts, if they are no functions. -/
theorem heads {x : SymbolId} (other : (g.cx.symbol x).role ≠ .function) :
    Option.Rel (Decl.Gains g.ν) (g.cx.symbol x).decls.head? (g.cx'.symbol (g.ρ x)).decls.head? := by
  have pairs := g.plain x other
  revert pairs
  generalize (g.cx.symbol x).decls = ds
  generalize (g.cx'.symbol (g.ρ x)).decls = ds'
  rintro (_ | ⟨gains, _⟩)
  · exact .none
  · exact .some gains

variable (g) in
theorem head {x : SymbolId} {d : Decl} (other : (g.cx.symbol x).role ≠ .function)
    (head : (g.cx.symbol x).decls.head? = some d) :
    ∃ d', (g.cx'.symbol (g.ρ x)).decls.head? = some d' ∧ d.Gains g.ν d' := by
  have heads := g.heads other
  rw [head] at heads
  generalize (g.cx'.symbol (g.ρ x)).decls.head? = found at heads
  cases heads with
  | some gains => exact ⟨_, rfl, gains⟩

variable (g) in
/-- An alias among the counterparts was one before. -/
theorem alias_old {x : SymbolId} {d' : AliasDecl Mark}
    (head : (g.cx'.symbol (g.ρ x)).decls.head? = some (.typeAlias d')) :
    ∃ d, (g.cx.symbol x).decls.head? = some (.typeAlias d) := by
  have role := g.ground.role (g.ρ x) _ (List.mem_of_mem_head? head)
  rw [g.role] at role
  have other : (g.cx.symbol x).role ≠ .function := by
    intro same
    rw [same] at role
    cases role
  have heads := g.heads other
  rw [head] at heads
  generalize (g.cx.symbol x).decls.head? = found at heads
  cases heads with
  | @some d _ gains =>
    cases d with
    | typeAlias d => exact ⟨d, rfl⟩
    | param q => obtain ⟨_, same, _⟩ := gains.param; cases same
    | val d => obtain ⟨_, same, _⟩ := gains.val; cases same
    | fn d => obtain ⟨_, same, _⟩ := gains.fn; cases same

/-! ### Expectations -/

theorem sways {e e' : Expr Mark} (gains : e.Gains g.ν e') {t : Ty}
    (sways : g.cx'.Sways (g.move t) e') : g.cx.Sways t e := by
  obtain ⟨x', inside, s', target, stable, same⟩ := sways
  obtain ⟨x, inside, moves⟩ := gains.of_ends x' inside
  rw [moves.1, g.symbolAt?] at target
  obtain ⟨s, bound, rfl⟩ := Option.map_eq_some_iff.mp target
  rw [g.role] at stable
  exact ⟨x, inside, s, bound, stable, Ty.move_injective g.apart same⟩

theorem indifferent {args args' : List (Expr Mark)} {ts : List Ty} (gain : exprsGain g.ν args args')
    (indifferent : g.cx.Indifferent args ts) : g.cx'.Indifferent args' (ts.map g.move) := by
  intro i e' t' found known sways
  obtain ⟨e, found, gains⟩ := gain.of_getElem? found
  rw [List.getElem?_map] at known
  obtain ⟨t, due, rfl⟩ := Option.map_eq_some_iff.mp known
  exact indifferent i e t found due (g.sways gains sways)

/-- The arguments of a call are expected to have the types that they had, or what is expected of
them does not count. -/
theorem typeOfArgs_added {L : List (Node Mark)} {m : Mark} {f : Ident Mark}
    {args args' : List (Expr Mark)} {x : SymbolId} (place : g.cx.At L (.expr (.call m f args)))
    (target : g.cx.symbolAt? f.mark.id = some x) (role : (g.cx.symbol x).role = .function)
    (gain : exprsGain g.ν args args') {sigs' : List Signature}
    (joins : Joins (Signature.Moves g.ν g.ρ) (fun sig => ∃ k, .fn k ∈ (g.cx'.symbol (g.ρ x)).decls ∧
      k.mark.id ∉ Set.range g.ν ∧ g.F'.signatures.find? k.mark.id = some sig)
      (g.cx.overloads g.F x) sigs') (o : Oracle) :
    (g.cx'.asking o).typeOfArgs args' (Resolver.expectedArgs args'.length sigs') =
      (g.cx'.asking o).typeOfArgs args'
        ((Resolver.expectedArgs args.length (g.cx.overloads g.F x)).map g.move) := by
  rw [gain.length]
  rcases joins.expectedArgs (g.recalled.arities L m f args x place target role) with same | second
  · rw [same]
  · obtain ⟨⟨sig, ⟨k, decl, new, found⟩, arity⟩, none⟩ := second
    have indifferent := (g.refused L m f args x place target k sig decl new found arity).2
    rw [none]
    exact (Resolver.typeOfArgs_unswayed _ (g.indifferent gain indifferent)).symm

/-! ### Steps up -/

variable (agrees : g.Agrees c) (ahead : g.Ahead c)
include agrees ahead

/-- What an old type is promised to widen to is what it widened to. -/
theorem Agrees.rises {s u' : Ty} (rises : g.cx'.Rises c (g.move s) u') :
    ∃ u, g.cx.Rises g.F s u ∧ u' = g.move u := by
  cases s with
  | path x =>
    refine ⟨g.F.bindingType x, g.recalled.promised x, ?_⟩
    rcases rises with found | ⟨rfl, untypable | loops⟩
    · exact agrees.symbolTypes x u' found
    · have untypable := mt (g.typable_iff x).mpr untypable
      have same : Ty.error = g.F.bindingType x :=
        g.recalled.rises (.inr ⟨rfl, .inl untypable⟩)
      rw [← same]
      rfl
    · exact absurd rfl ((ahead.straight _ loops rfl).1 x)
  | _ => exact ⟨u', rises, by cases rises; rfl⟩

theorem Agrees.steps {n : Nat} {s u' : Ty} (steps : Steps (g.cx'.Rises c) n (g.move s) u') :
    ∃ u, Steps (g.cx.Rises g.F) n s u ∧ u' = g.move u := by
  generalize moved : g.move s = s' at steps
  induction steps generalizing s with
  | none t => exact ⟨s, .none s, moved.symm⟩
  | step first _ ih =>
    subst moved
    obtain ⟨t, rises, rfl⟩ := agrees.rises ahead first
    obtain ⟨u, rest, rfl⟩ := ih rfl
    exact ⟨u, .step rises rest, rfl⟩

theorem Agrees.compares {s t : Ty} {b : Bool} (compares : g.cx'.Compares c (g.move s) (g.move t) b) :
    g.cx.Compares g.F s t b := by
  generalize moved : g.move t = t' at compares
  cases compares with
  | singleton single =>
    subst moved
    rw [Ty.isBelowSingleton_move g.apart]
    exact .singleton (by simpa using single)
  | top wide =>
    obtain rfl := Ty.move_eq_intrinsic.mp moved
    exact .top wide
  | base steps k =>
    obtain rfl := Ty.move_eq_intrinsic.mp moved
    obtain ⟨u, steps, same⟩ := agrees.steps ahead steps
    obtain rfl := Ty.move_eq_intrinsic.mp same.symm
    exact .base steps k
  | stuck steps single stands narrow =>
    obtain rfl := Ty.move_eq_intrinsic.mp moved
    obtain ⟨u, climbs, rfl⟩ := agrees.steps ahead steps
    obtain ⟨w, rises, same⟩ := agrees.rises ahead stands
    obtain rfl := Ty.move_injective g.apart same
    exact .stuck climbs (by simpa using single) rises narrow

end Graft

end

end Solo

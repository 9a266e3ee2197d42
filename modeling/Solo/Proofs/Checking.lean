import Mathlib.Data.List.Forall2
import Solo.Checker.Typing
import Solo.Proofs.Judgement

/-!
# A logic of checking

A checker only adds to its tables (`Grows`), and as long as it reports no error and no goal needs
itself (`Quiet`) what it adds is right. The entries are judged by the tables `F` that checking ends
with, so a judgement once made stays. `Keeps F P a Q` says of an action that it keeps all entries
right and that its answer satisfies `Q`, if `P` holds.
-/

namespace Solo

/-- All entries of a table are entries of another one. -/
def Table.Within {κ ν : Type} [DecidableEq κ] (t u : Table κ ν) : Prop :=
  ∀ k v, t.find? k = some v → u.find? k = some v

namespace Table.Within

variable {κ ν : Type} [DecidableEq κ] {t u w : Table κ ν}

theorem refl (t : Table κ ν) : t.Within t := fun _ _ found => found

theorem trans (first : t.Within u) (second : u.Within w) : t.Within w :=
  fun k v found => second k v (first k v found)

theorem insertNew (t : Table κ ν) (k : κ) (v : ν) : t.Within (t.insertNew k v) :=
  fun _ _ found => Table.find?_insertNew_of_some found

theorem insert {k : κ} (v : ν) (absent : t.contains k = false) : t.Within (t.insert k v) := by
  intro l w found
  rw [Table.find?_insert_other t v, found]
  rintro rfl
  rw [Table.contains_eq_false.mp absent] at found
  cases found

end Table.Within

namespace Checker

/-- Every answer of a checker is one of another checker. -/
structure Within (c c' : Checker) : Prop where
  symbolTypes : c.symbolTypes.Within c'.symbolTypes
  aliasTargets : c.aliasTargets.Within c'.aliasTargets
  nodeTypes : c.nodeTypes.Within c'.nodeTypes
  signatures : c.signatures.Within c'.signatures
  witnesses : c.witnesses.Within c'.witnesses

/-- The same goals in progress, of which some more may be marked. -/
def Marks : List Pursuit → List Pursuit → Prop :=
  List.Forall₂ fun q q' => q'.goal = q.goal ∧ (q.looped = true → q'.looped = true)

/-- What every action does to a checker: it adds answers and reports, and may mark goals. -/
structure Grows (c c' : Checker) : Prop extends c.Within c' where
  diagnostics : ∀ d ∈ c.diagnostics, d ∈ c'.diagnostics
  pursuits : Marks c.pursuits c'.pursuits
  purities : c'.purities = c.purities
  evaluating : c'.evaluating = c.evaluating

/-- No error is reported, and no goal in progress needs itself. -/
structure Quiet (c : Checker) : Prop where
  clean : ∀ d ∈ c.diagnostics, d.isError = false
  straight : ∀ q ∈ c.pursuits, q.looped = false

variable {c c₁ c₂ : Checker} {ps qs rs : List Pursuit}

theorem Marks.refl (ps : List Pursuit) : Marks ps ps :=
  List.forall₂_same.mpr fun _ _ => ⟨rfl, id⟩

theorem Marks.trans (first : Marks ps qs) (second : Marks qs rs) : Marks ps rs := by
  induction first generalizing rs with
  | nil => exact second
  | cons head _ ih =>
    cases second with
    | cons head' rest' =>
      exact .cons ⟨head'.1.trans head.1, fun marked => head'.2 (head.2 marked)⟩ (ih rest')

theorem Marks.goals (marks : Marks ps qs) : qs.map (·.goal) = ps.map (·.goal) := by
  induction marks with
  | nil => rfl
  | cons head _ ih => rw [List.map_cons, List.map_cons, head.1, ih]

theorem Marks.straight (marks : Marks ps qs) (straight : ∀ q ∈ qs, q.looped = false) :
    ∀ q ∈ ps, q.looped = false := by
  induction marks with
  | nil => exact straight
  | @cons p q ps qs head _ ih =>
    intro r member
    rcases List.mem_cons.mp member with rfl | later
    · have unmarked := straight q List.mem_cons_self
      by_contra marked
      rw [head.2 (Bool.of_not_eq_false marked)] at unmarked
      cases unmarked
    · exact ih (fun q member => straight q (List.mem_cons_of_mem _ member)) r later

theorem Within.trans (first : c.Within c₁) (second : c₁.Within c₂) : c.Within c₂ where
  symbolTypes := first.symbolTypes.trans second.symbolTypes
  aliasTargets := first.aliasTargets.trans second.aliasTargets
  nodeTypes := first.nodeTypes.trans second.nodeTypes
  signatures := first.signatures.trans second.signatures
  witnesses := first.witnesses.trans second.witnesses

theorem Grows.refl (c : Checker) : c.Grows c where
  symbolTypes := .refl _
  aliasTargets := .refl _
  nodeTypes := .refl _
  signatures := .refl _
  witnesses := .refl _
  diagnostics _ member := member
  pursuits := .refl _
  purities := rfl
  evaluating := rfl

theorem Grows.trans (first : c.Grows c₁) (second : c₁.Grows c₂) : c.Grows c₂ where
  toWithin := first.toWithin.trans second.toWithin
  diagnostics d member := second.diagnostics d (first.diagnostics d member)
  pursuits := first.pursuits.trans second.pursuits
  purities := second.purities.trans first.purities
  evaluating := second.evaluating.trans first.evaluating

theorem Grows.quiet (grows : c.Grows c₁) (quiet : c₁.Quiet) : c.Quiet where
  clean d member := quiet.clean d (grows.diagnostics d member)
  straight := grows.pursuits.straight quiet.straight

end Checker

/-! ### Right entries -/

section
variable (p : BoundProgram) (F : Checker)

/-- The type of a binding agrees with its declaration. -/
structure Declared (x : SymbolId) (t : Ty) : Prop where
  sane : Sane p t
  decl : (p.symbol x).decls ≠ []
  param : ∀ q, (p.symbol x).decls.head? = some (.param q) → Denotes p q.ty t
  annotated : ∀ d node, (p.symbol x).decls.head? = some (.val d) → d.ty = some node →
    Denotes p node t
  inferred : ∀ d, (p.symbol x).decls.head? = some (.val d) → d.ty = none →
    ∃ s, d.init.Typed p F s ∧ Below p F s t

variable {p F} in
theorem Declared.ofParam {x : SymbolId} {t : Ty} {q : Param Mark}
    (head : (p.symbol x).decls.head? = some (.param q)) (denotes : Denotes p q.ty t) :
    Declared p F x t := by
  refine ⟨denotes.sane, List.ne_nil_of_mem (List.mem_of_mem_head? head), ?_, ?_, ?_⟩ <;> rw [head]
  · intro q' same
    cases same
    exact denotes
  · nofun
  · nofun

variable {p F} in
theorem Declared.ofAnnotated {x : SymbolId} {t : Ty} {d : ValDecl Mark} {node : TyNode Mark}
    (head : (p.symbol x).decls.head? = some (.val d)) (ty : d.ty = some node)
    (denotes : Denotes p node t) : Declared p F x t := by
  refine ⟨denotes.sane, List.ne_nil_of_mem (List.mem_of_mem_head? head), ?_, ?_, ?_⟩ <;> rw [head]
  · nofun
  · intro d' node' same ty'
    cases same
    rw [ty] at ty'
    cases ty'
    exact denotes
  · intro d' same ty'
    cases same
    rw [ty] at ty'
    cases ty'

variable {p F} in
theorem Declared.ofInferred {x : SymbolId} {s t : Ty} {d : ValDecl Mark}
    (head : (p.symbol x).decls.head? = some (.val d)) (ty : d.ty = none) (sane : Sane p t)
    (typed : d.init.Typed p F s) (below : Below p F s t) : Declared p F x t := by
  refine ⟨sane, List.ne_nil_of_mem (List.mem_of_mem_head? head), ?_, ?_, ?_⟩ <;> rw [head]
  · nofun
  · intro d' node' same ty'
    cases same
    rw [ty] at ty'
    cases ty'
  · intro d' same _
    cases same
    exact ⟨s, typed, below⟩

/-- The signature of a function agrees with its declaration. -/
structure Signed (d : FnDecl Mark) (sig : Signature) : Prop where
  decl : sig.decl = d
  symbol : sig.symbol = (p.targets.find? d.mark.id).getD Symbol.unresolvedId
  params : List.Forall₂ (ParamTyped p F) d.params sig.params
  sane : Sane p sig.result
  declared : ∀ node, d.result = some node → Denotes p node sig.result
  inferred : d.result = none → ∃ s, d.body.Typed p F s ∧ Below p F s sig.result

/-- The signature that a call is resolved to is that of a function which the called name stands
for. -/
def Calls (f : Ident Mark) (sig : Signature) : Prop :=
  ∃ x, p.symbolAt? f.mark.id = some x ∧ (p.symbol x).role = .function ∧ Offers p F x sig ∧
    Signed p F sig.decl sig

/-- All entries of a checker are right, and what it is looking for is not found yet. -/
structure Sound (c : Checker) : Prop where
  once : (c.pursuits.map (·.goal)).Nodup
  unsettled : ∀ q ∈ c.pursuits, c.isSettled q.goal = false
  inferring : ∀ q ∈ c.pursuits, ∀ i, q.goal = .resultOf i →
    ∃ d, .stmt (.fn d) ∈ p.program.nodes ∧ d.mark.id = i ∧ d.result = none
  symbolTypes : ∀ x t, c.symbolTypes.find? x = some t → Declared p F x t
  aliasTargets : ∀ x t, c.aliasTargets.find? x = some t →
    ∀ d, (p.symbol x).decls.head? = some (.typeAlias d) → Denotes p d.ty t
  signatures : ∀ d, .stmt (.fn d) ∈ p.program.nodes → ∀ sig,
    c.signatures.find? d.mark.id = some sig → Signed p F d sig
  calls : ∀ m f args, .expr (.call m f args) ∈ p.program.nodes → ∀ sig,
    c.signatures.find? m.id = some sig → Calls p F f sig
  exprs : ∀ e, .expr e ∈ p.program.nodes → ∀ t, c.nodeTypes.find? e.id = some t →
    e.Typed p F t ∧ Sane p t
  types : ∀ node, .ty node ∈ p.program.nodes → ∀ t, c.nodeTypes.find? node.mark.id = some t →
    Denotes p node t
  subtypes : ∀ s t b, c.subtypes.find? (s, t) = some b → Sane p s → Sane p t → Decides p F s t b

/-- An action that keeps all entries right. -/
def Keeps {α : Type} (P : Prop) (a : Check α) (Q : α → Prop) : Prop :=
  ∀ c x c', a c = .ok (x, c') →
    c.Grows c' ∧ (P → c'.Quiet → c'.Within F → Sound p F c → Sound p F c' ∧ Q x)

end

/-- An action that first reads the checker goes on with the checker it is given. -/
theorem Check.get_bind {α : Type} (f : Checker → Check α) (c : Checker) :
    (MonadState.get >>= f) c = f c c := rfl

/-- So does an action that keeps a state of its own. -/
theorem Check.getThe_bind {σ α : Type} (f : Checker → StateT σ Check α) (s : σ) (c : Checker) :
    (getThe Checker >>= f) s c = f c s c := rfl

theorem Check.bind_ok {α β : Type} {a : Check α} {f : α → Check β} {c c' : Checker} {y : β}
    (run : (a >>= f) c = .ok (y, c')) :
    ∃ x c₁, a c = .ok (x, c₁) ∧ f x c₁ = .ok (y, c') := by
  change (a c).bind (fun r => f r.1 r.2) = _ at run
  cases first : a c with
  | error e =>
    rw [first] at run
    cases run
  | ok r =>
    rw [first] at run
    exact ⟨r.1, r.2, rfl, run⟩

namespace Keeps

variable {p : BoundProgram} {F : Checker} {α β : Type} {P P' : Prop} {a : Check α} {Q Q' : α → Prop}
  {R : β → Prop}

theorem pure {x : α} (holds : P → Q x) : Keeps p F P (Pure.pure x) Q := by
  intro c y c' run
  cases run
  exact ⟨.refl c, fun given _ _ sound => ⟨sound, holds given⟩⟩

theorem throw (e : Fault) : Keeps p F P (MonadExcept.throw e : Check α) Q := by
  intro c y c' run
  cases run

theorem bind {f : α → Check β} (first : Keeps p F P a Q)
    (rest : ∀ x, Keeps p F (P ∧ Q x) (f x) R) : Keeps p F P (a >>= f) R := by
  intro c y c' run
  obtain ⟨x, c₁, run₁, run₂⟩ := Check.bind_ok run
  obtain ⟨grows₁, keeps₁⟩ := first c x c₁ run₁
  obtain ⟨grows₂, keeps₂⟩ := rest x c₁ y c' run₂
  refine ⟨grows₁.trans grows₂, ?_⟩
  intro given quiet within sound
  obtain ⟨sound₁, found⟩ :=
    keeps₁ given (grows₂.quiet quiet) (grows₂.toWithin.trans within) sound
  exact keeps₂ ⟨given, found⟩ quiet within sound₁

theorem weaken (keeps : Keeps p F P a Q) (given : P' → P) (gives : ∀ x, P' → Q x → Q' x) :
    Keeps p F P' a Q' := by
  intro c x c' run
  obtain ⟨grows, holds⟩ := keeps c x c' run
  refine ⟨grows, ?_⟩
  intro given' quiet within sound
  obtain ⟨sound', found⟩ := holds (given given') quiet within sound
  exact ⟨sound', gives x given' found⟩

/-- What a checker has already found is right. -/
theorem get {f : Checker → Check β}
    (rest : ∀ s : Checker, Keeps p F (P ∧ Sound p F s ∧ s.Within F) (f s) R) :
    Keeps p F P (MonadState.get >>= f) R := by
  intro c y c' run
  obtain ⟨s, c₁, read, run⟩ := Check.bind_ok run
  cases read
  obtain ⟨grows, keeps⟩ := rest c c y c' run
  refine ⟨grows, ?_⟩
  intro given quiet within sound
  exact keeps ⟨given, sound, grows.toWithin.trans within⟩ quiet within sound

/-! ### Single steps -/

theorem enterText (v : Literal) : Keeps p F P (Check.enterText v) fun _ => True := by
  cases v with
  | str s =>
    intro c x c' run
    cases run
    have grows := Checker.Grows.refl c
    exact ⟨{ grows with }, fun _ _ _ sound => ⟨{ sound with }, trivial⟩⟩
  | _ => exact pure fun _ => trivial

theorem intern {α : Type} (enter : InternCache → α × InternCache) :
    Keeps p F P (Check.intern enter) fun _ => True := by
  intro c x c' run
  cases run
  have grows := Checker.Grows.refl c
  exact ⟨{ grows with }, fun _ _ _ sound => ⟨{ sound with }, trivial⟩⟩

theorem enterLiteral (v : Literal) : Keeps p F P (Check.enterLiteral v) fun _ => True := intern _

theorem enterType (t : Ty) : Keeps p F P (Check.enterType t) fun u => u = t := by
  cases t with
  | intrinsic k => exact pure (x := Ty.intrinsic k) fun _ => rfl
  | _ => exact bind (intern _) fun _ => pure fun _ => rfl

/-- A constant that is evaluated is in progress meanwhile, which is no answer either. -/
theorem evaluating (x : SymbolId) (keeps : Keeps p F P a Q) :
    Keeps p F P (do
      modify fun c => { c with evaluating := x :: c.evaluating }
      let y ← a
      modify fun c => { c with evaluating := c.evaluating.tail }
      return y) Q := by
  intro c y c' run
  obtain ⟨_, _, push, run⟩ := Check.bind_ok run
  cases push
  obtain ⟨z, c₁, inner, run⟩ := Check.bind_ok run
  obtain ⟨_, _, pop, run⟩ := Check.bind_ok run
  cases pop
  cases run
  obtain ⟨grows, holds⟩ := keeps _ _ _ inner
  refine ⟨{ grows with evaluating := congrArg List.tail grows.evaluating }, ?_⟩
  intro given quiet within sound
  obtain ⟨sound₁, found⟩ := holds given { quiet with } { within with } { sound with }
  exact ⟨{ sound₁ with }, found⟩

theorem report (span : Span) (problem : Problem) :
    Keeps p F P (Check.report span problem) fun _ =>
      Diagnostic.isError ⟨span, problem⟩ = false := by
  intro c x c' run
  cases run
  have grows := Checker.Grows.refl c
  refine ⟨{ grows with diagnostics := fun d member => Array.mem_push_of_mem _ member }, ?_⟩
  intro _ quiet _ sound
  exact ⟨{ sound with }, quiet.clean _ (Array.mem_push_self)⟩

theorem isPursuing (goal : Goal) : Keeps p F P (Check.isPursuing goal) fun _ => True :=
  get fun _ => pure fun _ => trivial

theorem fail {span : Span} {problem : Problem} (isError : problem.severity = .error) :
    Keeps p F P (Check.report span problem) fun _ => False := by
  refine (report span problem).weaken id fun _ _ quiet => ?_
  simp [Diagnostic.isError, isError] at quiet

end Keeps

section
variable {p : BoundProgram} {F c : Checker}

theorem Sound.note (sound : Sound p F c) {i : NodeId} {types : Table NodeId Ty}
    (other : ∀ k, k ≠ i → types.find? k = c.nodeTypes.find? k)
    (expr : ∀ e, .expr e ∈ p.program.nodes → e.id = i → ∀ u, types.find? i = some u →
      e.Typed p F u ∧ Sane p u)
    (type : ∀ node, .ty node ∈ p.program.nodes → node.mark.id = i → ∀ u, types.find? i = some u →
      Denotes p node u) :
    Sound p F { c with nodeTypes := types } :=
  { sound with
    exprs := by
      intro e node u found
      by_cases same : e.id = i
      · exact expr e node same u (same ▸ found)
      · exact sound.exprs e node u ((other _ same).symm.trans found)
    types := by
      intro e node u found
      by_cases same : e.mark.id = i
      · exact type e node same u (same ▸ found)
      · exact sound.types e node u ((other _ same).symm.trans found) }

end

namespace Keeps

variable {p : BoundProgram} {F : Checker} {P : Prop}

/-- Notes the type of a node that may have one. -/
theorem note {i : NodeId} {t : Ty}
    (expr : P → ∀ e, .expr e ∈ p.program.nodes → e.id = i →
      (F.Noted i → e.Typed p F t) ∧ Sane p t)
    (type : P → ∀ node, .ty node ∈ p.program.nodes → node.mark.id = i → Denotes p node t) :
    Keeps p F P (modify fun c => { c with nodeTypes := c.nodeTypes.insertNew i t })
      fun _ => F.Noted i := by
  intro c x c' run
  cases run
  refine ⟨{ Checker.Grows.refl c with nodeTypes := .insertNew _ i t }, ?_⟩
  intro given _ within sound
  have noted : F.Noted i := by
    cases found : c.nodeTypes.find? i with
    | none =>
      exact Option.isSome_of_eq_some (within.nodeTypes _ _ (Table.find?_insertNew_self found))
    | some u =>
      exact Option.isSome_of_eq_some
        (within.nodeTypes _ _ (Table.find?_insertNew_of_some found))
  have same : ∀ u, (c.nodeTypes.insertNew i t).find? i = some u →
      c.nodeTypes.find? i = some u ∨ u = t := by
    intro u found
    cases old : c.nodeTypes.find? i with
    | none =>
      rw [Table.find?_insertNew_self old] at found
      exact .inr (Option.some.inj found).symm
    | some u' =>
      rw [Table.find?_insertNew_of_some old] at found
      exact .inl found
  refine ⟨sound.note (fun k => Table.find?_insertNew_other) ?_ ?_, noted⟩
  · intro e node own u found
    rcases same u found with old | rfl
    · exact sound.exprs e node u (own ▸ old)
    · exact ⟨(expr given e node own).1 noted, (expr given e node own).2⟩
  · intro e node own u found
    rcases same u found with old | rfl
    · exact sound.types e node u (own ▸ old)
    · exact type given e node own

theorem onceExpr (bound : p.WellBound) {e : Expr Mark} {find : Check Ty}
    (finds : Keeps p F P find fun t => (F.Noted e.id → e.Typed p F t) ∧ Sane p t)
    (node : P → .expr e ∈ p.program.nodes) :
    Keeps p F P (Check.once e.id find) fun t => e.Typed p F t ∧ Sane p t := by
  refine get fun s => ?_
  split
  · next t found =>
    exact pure fun ⟨given, sound, _⟩ => sound.exprs e (node given) t found
  · refine (finds.weaken (fun given => given.1) fun _ _ found => found).bind fun t => ?_
    refine (note (i := e.id) (t := t) ?_ ?_).bind fun _ =>
      pure fun ⟨⟨_, typed, sane⟩, noted⟩ => ⟨typed noted, sane⟩
    · intro ⟨⟨given, _⟩, typed⟩ e' member own
      cases bound.node_unique member (node given) own
      exact typed
    · intro ⟨⟨given, _⟩, _⟩ node' member own
      cases bound.node_unique member (node given) own

theorem onceType (bound : p.WellBound) (node : TyNode Mark) {find : Check Ty}
    (finds : Keeps p F P find fun t => Denotes p node t)
    (member : P → .ty node ∈ p.program.nodes) :
    Keeps p F P (Check.once node.mark.id find) fun t => Denotes p node t := by
  refine get fun s => ?_
  split
  · next t found =>
    exact pure fun ⟨given, sound, _⟩ => sound.types node (member given) t found
  · refine (finds.weaken (fun given => given.1) fun _ _ found => found).bind fun t => ?_
    refine (note (i := node.mark.id) (t := t) ?_ ?_).bind fun _ =>
      pure fun ⟨⟨_, denotes⟩, _⟩ => denotes
    · intro ⟨⟨given, _⟩, _⟩ e other own
      cases bound.node_unique other (member given) own
    · intro ⟨⟨given, _⟩, denotes⟩ node' other own
      cases bound.node_unique other (member given) own
      exact denotes

/-- The type of a pattern belongs to no expression and no type node. -/
theorem recordType (bound : p.WellBound) {q : Pat Mark} {t : Ty}
    (member : P → .pat q ∈ p.program.nodes) :
    Keeps p F P (Check.recordType q.mark.id t) fun _ =>
      F.nodeTypes.find? q.mark.id = some t := by
  intro c x c' run
  obtain ⟨s, c₁, read, run⟩ := Check.bind_ok run
  cases read
  by_cases present : c.nodeTypes.contains q.mark.id = true
  · rw [if_pos present] at run
    cases run
  · rw [if_neg present] at run
    cases run
    refine ⟨{ Checker.Grows.refl c with
      nodeTypes := .insert t ((Bool.not_eq_true _).mp present) }, ?_⟩
    intro given _ within sound
    refine ⟨sound.note (i := q.mark.id) (fun k => Table.find?_insert_other _ _) ?_ ?_,
      within.nodeTypes _ _ (Table.find?_insert_self ..)⟩
    · intro e node own
      cases bound.node_unique node (member given) own
    · intro e node own
      cases bound.node_unique node (member given) own

theorem noteSubtype {s t : Ty} {b : Bool} (right : P → Decides p F s t b) :
    Keeps p F P (modify fun c => { c with subtypes := c.subtypes.insert (s, t) b })
      fun _ => True := by
  intro c x c' run
  cases run
  refine ⟨{ Checker.Grows.refl c with }, ?_⟩
  intro given _ _ sound
  refine ⟨{ sound with subtypes := ?_ }, trivial⟩
  intro s' t' b' found first second
  rw [Table.find?_insert] at found
  split at found
  · next same =>
    cases same
    cases found
    exact right given
  · exact sound.subtypes s' t' b' found first second

theorem recordWitness {i : NodeId} {w : Witness} :
    Keeps p F P (Check.recordWitness i w) fun _ => F.witnesses.find? i = some w := by
  intro c x c' run
  obtain ⟨s, c₁, read, run⟩ := Check.bind_ok run
  cases read
  by_cases present : c.witnesses.contains i = true
  · rw [if_pos present] at run
    cases run
  · rw [if_neg present] at run
    cases run
    refine ⟨{ Checker.Grows.refl c with
      witnesses := .insert w ((Bool.not_eq_true _).mp present) }, ?_⟩
    intro _ _ within sound
    exact ⟨{ sound with }, within.witnesses _ _ (Table.find?_insert_self ..)⟩

theorem recordSignature (bound : p.WellBound) {m : Mark} {f : Ident Mark} {args : List (Expr Mark)}
    {sig : Signature} (member : P → .expr (.call m f args) ∈ p.program.nodes)
    (right : P → Calls p F f sig) :
    Keeps p F P (Check.recordSignature m.id sig) fun _ => F.signatures.find? m.id = some sig := by
  intro c x c' run
  obtain ⟨s, c₁, read, run⟩ := Check.bind_ok run
  cases read
  by_cases present : c.signatures.contains m.id = true
  · rw [if_pos present] at run
    cases run
  · rw [if_neg present] at run
    cases run
    refine ⟨{ Checker.Grows.refl c with
      signatures := .insert sig ((Bool.not_eq_true _).mp present) }, ?_⟩
    intro given _ within sound
    have apart : ∀ d : FnDecl Mark, .stmt (.fn d) ∈ p.program.nodes → d.mark.id ≠ m.id := by
      intro d node same
      cases bound.node_unique node (member given) same
    refine ⟨{ sound with unsettled := ?_, signatures := ?_, calls := ?_ },
      within.signatures _ _ (Table.find?_insert_self ..)⟩
    · intro q inside
      have open' := sound.unsettled q inside
      cases goal : q.goal with
      | resultOf i =>
        obtain ⟨d, node, rfl, _⟩ := sound.inferring q inside i goal
        rw [goal] at open'
        simpa [Checker.isSettled, Table.contains, Table.find?_insert_other _ _ (apart d node)]
          using open'
      | _ =>
        rw [goal] at open'
        exact open'
    · intro d node sig' found
      rw [Table.find?_insert_other _ _ (apart d node)] at found
      exact sound.signatures d node sig' found
    · intro m' f' args' node sig' found
      by_cases same : m'.id = m.id
      · rw [same, Table.find?_insert_self] at found
        cases found
        cases bound.node_unique node (member given) same
        exact right given
      · rw [Table.find?_insert_other _ _ same] at found
        exact sound.calls m' f' args' node sig' found

end Keeps

/-! ### Goals -/

theorem markLoop?_none {settled : Goal → Bool} {goal : Goal} {ps : List Pursuit}
    (unsettled : ∀ q ∈ ps, settled q.goal = false) (new : markLoop? settled goal ps = none) :
    ∀ q ∈ ps, q.goal ≠ goal := by
  induction ps with
  | nil => simp
  | cons p ps ih =>
    rw [markLoop?, unsettled p List.mem_cons_self] at new
    rw [if_neg (by simp)] at new
    split at new
    · cases new
    · next other =>
      intro q member
      rcases List.mem_cons.mp member with rfl | later
      · exact other
      · exact ih (fun q inside => unsettled q (List.mem_cons_of_mem _ inside))
          (Option.map_eq_none_iff.mp new) q later

/-- A loop marks at least one goal and keeps the marks. -/
theorem markLoop?_some {settled : Goal → Bool} {goal : Goal} {ps qs : List Pursuit}
    (found : markLoop? settled goal ps = some qs) :
    Checker.Marks ps qs ∧ ∃ q ∈ qs, q.looped = true := by
  induction ps generalizing qs with
  | nil => cases found
  | cons p ps ih =>
    rw [markLoop?] at found
    split at found
    · cases found
    · split at found
      · cases found
        exact ⟨.cons ⟨rfl, fun _ => rfl⟩ (Checker.Marks.refl ps), _, List.mem_cons_self, rfl⟩
      · obtain ⟨rs, found', rfl⟩ := Option.map_eq_some_iff.mp found
        exact ⟨.cons ⟨rfl, fun _ => rfl⟩ (ih found').1, _, List.mem_cons_self, rfl⟩

theorem Check.pursue_apply (goal : Goal) (c : Checker) :
    Check.pursue goal c =
      match markLoop? c.isSettled goal c.pursuits with
      | some ps => .ok (false, { c with pursuits := ps })
      | none => .ok (true, { c with pursuits := ⟨goal, false⟩ :: c.pursuits }) := by
  change (match markLoop? c.isSettled goal c.pursuits with | some ps => _ | none => _ :
    Check Bool) c = _
  cases markLoop? c.isSettled goal c.pursuits <;> rfl

theorem Check.conclude_apply (c : Checker) :
    Check.conclude c =
      match c.pursuits with
      | [] => .ok (false, c)
      | q :: outer => .ok (q.looped, { c with pursuits := outer }) := by
  change (match c.pursuits with | [] => _ | q :: outer => _ : Check Bool) c = _
  cases c.pursuits <;> rfl

/-- An action after which an error is reported. -/
def Fails {α : Type} (a : Check α) : Prop :=
  ∀ c x c', a c = .ok (x, c') → c.Grows c' ∧ ¬c'.Quiet

/-- An action that may take up a goal as settled: nothing else is looking for it. -/
def Settles (p : BoundProgram) (F : Checker) {α : Type} (goal : Goal) (P : Prop) (a : Check α)
    (Q : α → Prop) : Prop :=
  ∀ c x c', a c = .ok (x, c') → c.Grows c' ∧
    (P → c'.Quiet → c'.Within F → Sound p F c → (∀ q ∈ c.pursuits, q.goal ≠ goal) →
      c.isSettled goal = false → Sound p F c' ∧ Q x)

/-- An action that is right where a goal is not settled. -/
def Seeks (p : BoundProgram) (F : Checker) {α : Type} (goal : Goal) (P : Prop) (a : Check α)
    (Q : α → Prop) : Prop :=
  ∀ c x c', a c = .ok (x, c') → c.Grows c' ∧
    (P → c'.Quiet → c'.Within F → Sound p F c → c.isSettled goal = false → Sound p F c' ∧ Q x)

theorem Keeps.seeks {p : BoundProgram} {F : Checker} {α : Type} {goal : Goal} {P : Prop} {a : Check α}
    {Q : α → Prop} (keeps : Keeps p F P a Q) : Seeks p F goal P a Q := by
  intro c x c' run
  obtain ⟨grows, holds⟩ := keeps c x c' run
  exact ⟨grows, fun given quiet within sound _ => holds given quiet within sound⟩

/-- The answer to a goal is looked up, and sought only if it is not known. -/
theorem Keeps.seek {p : BoundProgram} {F : Checker} {α : Type} {P : Prop}
    {step : Checker → Check α} {Q : α → Prop} (goal : Goal) (find : Checker → Option α)
    (settled : ∀ c, find c = none → c.isSettled goal = false)
    (known : ∀ c x, find c = some x →
      step c = Pure.pure x ∧ (P → c.Within F → Sound p F c → Q x))
    (seeks : ∀ c, find c = none → Seeks p F goal P (step c) Q) :
    Keeps p F P (MonadState.get >>= step) Q := by
  intro c x c' run
  obtain ⟨s, c₁, read, run⟩ := Check.bind_ok run
  cases read
  cases found : find c with
  | some y =>
    obtain ⟨returns, right⟩ := known c y found
    rw [returns] at run
    cases run
    exact ⟨.refl c, fun given _ within sound => ⟨sound, right given within sound⟩⟩
  | none =>
    obtain ⟨grows, keeps⟩ := seeks c found c x c' run
    exact ⟨grows, fun given quiet within sound =>
      keeps given quiet within sound (settled c found)⟩

theorem Fails.report {α : Type} {span : Span} {problem : Problem} {rest : Check α}
    (isError : problem.severity = .error)
    (grows : ∀ c x c', rest c = .ok (x, c') → c.Grows c') :
    Fails (do Check.report span problem; rest) := by
  intro c x c' run
  obtain ⟨_, c₁, reported, run⟩ := Check.bind_ok run
  cases reported
  have grown := grows _ x c' run
  have first : c.Grows { c with diagnostics := c.diagnostics.push ⟨span, problem⟩ } :=
    { Checker.Grows.refl c with
      diagnostics := fun d member => Array.mem_push_of_mem _ member }
  refine ⟨first.trans grown, fun quiet => ?_⟩
  have clean := quiet.clean _ (grown.diagnostics _ Array.mem_push_self)
  simp [Diagnostic.isError, isError] at clean

theorem Sound.begin {p : BoundProgram} {F c : Checker} {goal : Goal} (sound : Sound p F c)
    (inferring : ∀ i, goal = .resultOf i →
      ∃ d, .stmt (.fn d) ∈ p.program.nodes ∧ d.mark.id = i ∧ d.result = none)
    (unsettled : c.isSettled goal = false) (new : ∀ q ∈ c.pursuits, q.goal ≠ goal) :
    Sound p F { c with pursuits := ⟨goal, false⟩ :: c.pursuits } :=
  { sound with
    once := by
      rw [List.map_cons, List.nodup_cons]
      refine ⟨?_, sound.once⟩
      intro member
      obtain ⟨q, inside, same⟩ := List.mem_map.mp member
      exact new q inside same
    unsettled := by
      intro q member
      rcases List.mem_cons.mp member with rfl | outer
      · exact unsettled
      · exact sound.unsettled q outer
    inferring := by
      intro q member
      rcases List.mem_cons.mp member with rfl | outer
      · exact inferring
      · exact sound.inferring q outer }

theorem Sound.finish {p : BoundProgram} {F c : Checker} {q : Pursuit} {outer : List Pursuit}
    (sound : Sound p F c) (pursuits : c.pursuits = q :: outer) :
    Sound p F { c with pursuits := outer } ∧ (∀ r ∈ outer, r.goal ≠ q.goal) ∧
      c.isSettled q.goal = false := by
  have once := sound.once
  have unsettled := sound.unsettled
  have inferring := sound.inferring
  rw [pursuits] at once unsettled inferring
  rw [List.map_cons, List.nodup_cons] at once
  refine ⟨{ sound with once := once.2, unsettled := ?_, inferring := ?_ }, ?_, ?_⟩
  · exact fun r member => unsettled r (List.mem_cons_of_mem q member)
  · exact fun r member => inferring r (List.mem_cons_of_mem q member)
  · intro r member same
    exact once.1 (List.mem_map.mpr ⟨r, member, same⟩)
  · exact unsettled q List.mem_cons_self

theorem Keeps.pursue {p : BoundProgram} {F : Checker} {α β : Type} {P : Prop} {goal : Goal}
    {body : Check α} {Q : α → Prop} {blocked : β} {after : α → Bool → Check β} {R : β → Prop}
    (inferring : P → ∀ i, goal = .resultOf i →
      ∃ d, .stmt (.fn d) ∈ p.program.nodes ∧ d.mark.id = i ∧ d.result = none)
    (finds : Keeps p F P body Q) (looped : ∀ x, Fails (after x true))
    (straight : ∀ x, Settles p F goal (P ∧ Q x) (after x false) R) :
    Seeks p F goal P (do
      let started ← Check.pursue goal
      if !started then Pure.pure blocked
      else do
        let x ← body
        let looped ← Check.conclude
        after x looped) R := by
  intro c y c' run
  obtain ⟨started, c₁, start, run⟩ := Check.bind_ok run
  rw [Check.pursue_apply] at start
  cases marked : markLoop? c.isSettled goal c.pursuits with
  | some ps =>
    rw [marked] at start
    cases start
    cases run
    obtain ⟨marks, q, member, loops⟩ := markLoop?_some marked
    refine ⟨{ Checker.Grows.refl c with pursuits := marks }, ?_⟩
    -- a marked goal ends with a report
    intro _ quiet
    rw [quiet.straight q member] at loops
    cases loops
  | none =>
    rw [marked] at start
    cases start
    obtain ⟨x, c₂, run₂, run⟩ := Check.bind_ok run
    obtain ⟨grows₂, keeps₂⟩ := finds _ x c₂ run₂
    obtain ⟨q, outer, ⟨own, _⟩, marks, pursuits⟩ := List.forall₂_cons_left_iff.mp grows₂.pursuits
    obtain ⟨loops, c₃, ended, run⟩ := Check.bind_ok run
    rw [Check.conclude_apply, pursuits] at ended
    cases ended
    have grows₃ : c.Grows { c₂ with pursuits := outer } :=
      { grows₂ with pursuits := marks }
    cases loops : q.looped with
    | true =>
      rw [loops] at run
      obtain ⟨grows₄, loud⟩ := looped x _ y c' run
      exact ⟨grows₃.trans grows₄, fun _ quiet => absurd quiet loud⟩
    | false =>
      rw [loops] at run
      obtain ⟨grows₄, settle⟩ := straight x _ y c' run
      refine ⟨grows₃.trans grows₄, ?_⟩
      intro given quiet within sound unsettled
      have quiet₃ := grows₄.quiet quiet
      have quiet₂ : c₂.Quiet := by
        refine ⟨quiet₃.clean, ?_⟩
        rw [pursuits]
        intro r member
        rcases List.mem_cons.mp member with rfl | later
        · exact loops
        · exact quiet₃.straight r later
      have begun := sound.begin (inferring given) unsettled (markLoop?_none sound.unsettled marked)
      obtain ⟨sound₂, found⟩ :=
        keeps₂ given quiet₂ { grows₄.toWithin.trans within with } begun
      obtain ⟨sound₃, alone, still⟩ := sound₂.finish pursuits
      rw [own] at alone still
      exact settle ⟨given, found⟩ quiet within sound₃ alone still

/-! ### Answers to goals -/

namespace Sound

variable {p : BoundProgram} {F c : Checker}

theorem settleSymbol (sound : Sound p F c) {x : SymbolId} {t : Ty} (right : Declared p F x t)
    (alone : ∀ q ∈ c.pursuits, q.goal ≠ .typeOf x) (unsettled : c.isSettled (.typeOf x) = false) :
    Sound p F { c with symbolTypes := c.symbolTypes.insertNew x t } :=
  { sound with
    unsettled := by
      intro q member
      have before := sound.unsettled q member
      cases goal : q.goal with
      | typeOf y =>
        have apart : y ≠ x := by
          rintro rfl
          exact alone q member goal
        rw [goal] at before
        simpa [Checker.isSettled, Table.contains, Table.find?_insertNew_other apart] using before
      | _ =>
        rw [goal] at before
        exact before
    symbolTypes := by
      intro y u found
      by_cases same : y = x
      · subst same
        rw [Table.find?_insertNew_self (Table.contains_eq_false.mp unsettled)] at found
        cases found
        exact right
      · rw [Table.find?_insertNew_other same] at found
        exact sound.symbolTypes y u found }

theorem settleAlias (sound : Sound p F c) {x : SymbolId} {t : Ty}
    (right : ∀ d, (p.symbol x).decls.head? = some (.typeAlias d) → Denotes p d.ty t)
    (alone : ∀ q ∈ c.pursuits, q.goal ≠ .targetOf x)
    (unsettled : c.isSettled (.targetOf x) = false) :
    Sound p F { c with aliasTargets := c.aliasTargets.insertNew x t } :=
  { sound with
    unsettled := by
      intro q member
      have before := sound.unsettled q member
      cases goal : q.goal with
      | targetOf y =>
        have apart : y ≠ x := by
          rintro rfl
          exact alone q member goal
        rw [goal] at before
        simpa [Checker.isSettled, Table.contains, Table.find?_insertNew_other apart] using before
      | _ =>
        rw [goal] at before
        exact before
    aliasTargets := by
      intro y u found
      by_cases same : y = x
      · subst same
        rw [Table.find?_insertNew_self (Table.contains_eq_false.mp unsettled)] at found
        cases found
        exact right
      · rw [Table.find?_insertNew_other same] at found
        exact sound.aliasTargets y u found }

theorem settleSignature (sound : Sound p F c) {d : FnDecl Mark} {sig : Signature}
    (apart : ∀ m f args, .expr (.call m f args) ∈ p.program.nodes → m.id ≠ d.mark.id)
    (right : ∀ d', .stmt (.fn d') ∈ p.program.nodes → d'.mark.id = d.mark.id → Signed p F d' sig)
    (alone : ∀ q ∈ c.pursuits, q.goal ≠ .resultOf d.mark.id)
    (unsettled : c.isSettled (.resultOf d.mark.id) = false) :
    Sound p F { c with signatures := c.signatures.insertNew d.mark.id sig } :=
  { sound with
    unsettled := by
      intro q member
      have before := sound.unsettled q member
      cases goal : q.goal with
      | resultOf i =>
        have apart : i ≠ d.mark.id := by
          rintro rfl
          exact alone q member goal
        rw [goal] at before
        simpa [Checker.isSettled, Table.contains, Table.find?_insertNew_other apart] using before
      | _ =>
        rw [goal] at before
        exact before
    signatures := by
      intro d' node sig' found
      by_cases same : d'.mark.id = d.mark.id
      · rw [same, Table.find?_insertNew_self (Table.contains_eq_false.mp unsettled)] at found
        cases found
        exact right d' node same
      · rw [Table.find?_insertNew_other same] at found
        exact sound.signatures d' node sig' found
    calls := by
      intro m f args node sig' found
      rw [Table.find?_insertNew_other (apart m f args node)] at found
      exact sound.calls m f args node sig' found }

end Sound

end Solo

import Solo.Proofs.Grounding
import Solo.Proofs.Declarations

/-!
# Demands

While a tree is typed, three demands lead to declarations elsewhere: for the type of a binding, the
target of an alias and the signature of a function. An action of the checker is seen here as a
function of the oracle that meets these demands. `Asks` tells which demands it makes and in which
states, and a property that is `Compositional` holds of all of checking once it holds of single
steps and of the demands themselves.
-/

namespace Solo

/-- A demand for what a declaration says. -/
inductive Demand where
  | typeOf (x : SymbolId)
  | aliasTarget (x : SymbolId) (span : Span)
  | signature (d : FnDecl Mark)

def Demand.Answer : Demand → Type
  | typeOf _ | aliasTarget _ _ => Ty
  | signature _ => Signature

abbrev Oracle := (q : Demand) → Check q.Answer

namespace Context

variable (cx : Context)

/-- The resolver that leaves all demands to an oracle. -/
def asking (o : Oracle) : Resolver where
  toContext := cx
  typeOf x := o (.typeOf x)
  aliasTarget x span := o (.aliasTarget x span)
  signature d := o (.signature d)

/-- How a demand is met, given an oracle for the demands on the way. -/
def meet : (q : Demand) → Oracle → Check q.Answer
  | .typeOf x, o => (cx.asking o).typeOfSymbol x
  | .aliasTarget x span, o => (cx.asking o).targetOfAlias x span
  | .signature d, o => (cx.asking o).signatureOf d

/-- Meets demands to a depth of `n` demands inside each other. -/
def oracle : Nat → Oracle
  | 0, _ => throw .endless
  | n + 1, q => cx.meet q (oracle n)

theorem asking_toContext (o : Oracle) : (cx.asking o).toContext = cx := rfl

/-- A demand that can come up: functions are those of the program. -/
def Poses : Demand → Prop
  | .signature d => .stmt (.fn d) ∈ cx.program.nodes
  | _ => True

end Context

theorem Resolver.ofDepth_eq (cx : Context) (n : Nat) :
    Resolver.ofDepth cx n = cx.asking (cx.oracle n) := by
  induction n with
  | zero => rfl
  | succ n ih =>
    rw [Resolver.ofDepth, ih]
    rfl

/-- An action makes a demand in a state: its outcome depends on how the demand is met there. -/
def Asks {α : Type} (act : Oracle → Check α) (o : Oracle) (c : Checker) (q : Demand)
    (s : Checker) : Prop :=
  ∃ o' : Oracle, (∀ p t, ¬(p = q ∧ t = s) → o' p t = o p t) ∧ act o' c ≠ act o c

theorem Check.bind_apply {α β : Type} (a : Check α) (f : α → Check β) (c : Checker) :
    (a >>= f) c = (a c).bind fun r => f r.1 r.2 := rfl

namespace Asks

variable {α β : Type} {o : Oracle} {c s : Checker} {q : Demand} {act : Oracle → Check α}

theorem not_still {a : Check α} (asks : Asks (fun _ => a) o c q s) : False := by
  obtain ⟨_, _, differs⟩ := asks
  exact differs rfl

/-- A demand is made by the first of two actions, or by the second after the first has ended. -/
theorem bind {f : α → Oracle → Check β}
    (asks : Asks (fun o => act o >>= fun x => f x o) o c q s) :
    Asks act o c q s ∨ ∃ x c₁, act o c = .ok (x, c₁) ∧ Asks (f x) o c₁ q s := by
  obtain ⟨o', same, differs⟩ := asks
  by_cases first : act o' c = act o c
  · cases run : act o c with
    | error e =>
      simp [Check.bind_apply, first, run, Except.bind] at differs
    | ok r =>
      refine .inr ⟨r.1, r.2, rfl, o', same, fun equal => differs ?_⟩
      simpa [Check.bind_apply, first, run, Except.bind] using equal
  · exact .inl ⟨o', same, first⟩

theorem ask {p : Demand} (asks : Asks (fun o => o p) o c q s) : p = q ∧ c = s := by
  obtain ⟨o', same, differs⟩ := asks
  by_contra other
  exact differs (same p c other)

end Asks

/-! ### Steps that make no demand -/

/-- What a step that makes no demand leaves as it is. -/
structure Context.Frame (cx : Context) (c c' : Checker) : Prop where
  symbolTypes : c'.symbolTypes = c.symbolTypes
  aliasTargets : c'.aliasTargets = c.aliasTargets
  pursuits : c'.pursuits = c.pursuits
  /-- Only calls are given a signature. -/
  signatures : ∀ i, (∀ m f args, .expr (.call m f args) ∈ cx.program.nodes → m.id ≠ i) →
    c'.signatures.find? i = c.signatures.find? i

theorem Context.Frame.refl (cx : Context) (c : Checker) : cx.Frame c c :=
  ⟨rfl, rfl, rfl, fun _ _ => rfl⟩

theorem Context.Frame.trans {cx : Context} {c c₁ c₂ : Checker} (first : cx.Frame c c₁)
    (second : cx.Frame c₁ c₂) : cx.Frame c c₂ where
  symbolTypes := second.symbolTypes.trans first.symbolTypes
  aliasTargets := second.aliasTargets.trans first.aliasTargets
  pursuits := second.pursuits.trans first.pursuits
  signatures i other := (second.signatures i other).trans (first.signatures i other)

/-- An action that settles no goal and takes no report back. -/
structure Still (cx : Context) {α : Type} (a : Check α) : Prop where
  frame : ∀ c x c', a c = .ok (x, c') → cx.Frame c c'
  reports : ∀ c x c', a c = .ok (x, c') → ∀ d ∈ c.diagnostics, d ∈ c'.diagnostics
  ends : ∀ c, a c ≠ .error .endless

namespace Still

variable {cx : Context} {α β : Type} {a : Check α}

theorem pure (x : α) : Still cx (Pure.pure x) where
  frame c y c' run := by
    cases run
    exact .refl cx c
  reports c y c' run d member := by
    cases run
    exact member
  ends _ := nofun

theorem rewritten (i : NodeId) : Still cx (MonadExcept.throw (Fault.rewritten i) : Check α) where
  frame _ _ _ := nofun
  reports _ _ _ := nofun
  ends _ := nofun

theorem bind {f : α → Check β} (first : Still cx a) (rest : ∀ x, Still cx (f x)) :
    Still cx (a >>= f) where
  frame c y c' run := by
    obtain ⟨x, c₁, run₁, run₂⟩ := Check.bind_ok run
    exact (first.frame c x c₁ run₁).trans ((rest x).frame c₁ y c' run₂)
  reports c y c' run d member := by
    obtain ⟨x, c₁, run₁, run₂⟩ := Check.bind_ok run
    exact (rest x).reports c₁ y c' run₂ d (first.reports c x c₁ run₁ d member)
  ends c fault := by
    rw [Check.bind_apply] at fault
    cases run : a c with
    | error e =>
      rw [run] at fault
      cases fault
      exact first.ends c run
    | ok r =>
      rw [run] at fault
      exact (rest r.1).ends r.2 fault

theorem get : Still cx MonadState.get where
  frame c x c' run := by
    cases run
    exact .refl cx c
  reports c x c' run d member := by
    cases run
    exact member
  ends _ := nofun

theorem modify {f : Checker → Checker} (same : ∀ c, cx.Frame c (f c))
    (reports : ∀ c, ∀ d ∈ c.diagnostics, d ∈ (f c).diagnostics) : Still cx (modify f) where
  frame c x c' run := by
    cases run
    exact same c
  reports c x c' run := by
    cases run
    exact reports c
  ends _ := nofun

theorem update {f : Checker → Checker}
    (same : ∀ c, ∃ names interns nodeTypes witnesses subtypes evaluating,
      f c = { c with names, interns, nodeTypes, witnesses, subtypes, evaluating }) :
    Still cx (MonadState.modifyGet fun c => ((), f c)) := by
  refine modify (fun c => ?_) fun c d member => ?_
  · obtain ⟨_, _, _, _, _, _, updated⟩ := same c
    rw [updated]
    exact ⟨rfl, rfl, rfl, fun _ _ => rfl⟩
  · obtain ⟨_, _, _, _, _, _, updated⟩ := same c
    rw [updated]
    exact member

theorem report (span : Span) (problem : Problem) : Still cx (Check.report span problem) :=
  modify (fun _ => ⟨rfl, rfl, rfl, fun _ _ => rfl⟩) fun _ _ member => Array.mem_push_of_mem _ member

theorem enterText (v : Literal) : Still cx (Check.enterText v) := by
  cases v with
  | str s => exact update fun _ => ⟨_, _, _, _, _, _, rfl⟩
  | _ => exact pure ()

theorem intern {α : Type} (enter : InternCache → α × InternCache) :
    Still cx (Check.intern enter) where
  frame c x c' run := by
    cases run
    exact ⟨rfl, rfl, rfl, fun _ _ => rfl⟩
  reports c x c' run := by
    cases run
    exact fun _ => id
  ends _ := nofun

theorem enterLiteral (v : Literal) : Still cx (Check.enterLiteral v) := intern _

theorem enterType (t : Ty) : Still cx (Check.enterType t) := by
  cases t with
  | intrinsic k => exact bind (pure _) fun _ => pure _
  | _ => exact bind (intern _) fun _ => pure _

theorem recordType (i : NodeId) (t : Ty) : Still cx (Check.recordType i t) := by
  refine bind get fun c => ?_
  split
  · exact bind (rewritten i) fun _ => update fun _ => ⟨_, _, _, _, _, _, rfl⟩
  · exact update fun _ => ⟨_, _, _, _, _, _, rfl⟩

theorem recordWitness (i : NodeId) (w : Witness) : Still cx (Check.recordWitness i w) := by
  refine bind get fun c => ?_
  split
  · exact bind (rewritten i) fun _ => update fun _ => ⟨_, _, _, _, _, _, rfl⟩
  · exact update fun _ => ⟨_, _, _, _, _, _, rfl⟩

theorem recordSignature {m : Mark} {f : Ident Mark} {args : List (Expr Mark)} (sig : Signature)
    (call : .expr (.call m f args) ∈ cx.program.nodes) :
    Still cx (Check.recordSignature m.id sig) := by
  have insert : Still cx (MonadState.modifyGet fun c : Checker =>
      ((), { c with signatures := c.signatures.insert m.id sig })) :=
    modify (fun c => ⟨rfl, rfl, rfl, fun i other =>
      Table.find?_insert_other _ _ (other m f args call).symm⟩) fun _ _ member => member
  refine bind get fun c => ?_
  split
  · exact bind (rewritten m.id) fun _ => insert
  · exact insert

theorem apply (result : Except OpError Literal) : Still cx (Check.apply result) := by
  cases result with
  | error e => exact pure none
  | ok v => exact bind (enterText v) fun _ => pure (some v)

end Still

/-! ### Steps at some nodes -/

/-- Between two states types and signatures are written, and problems reported, at nodes with
certain marks only, and what was written before stays. -/
structure Checker.Touches (M : Mark → Prop) (c c' : Checker) : Prop where
  nodeTypes : ∀ i, c'.nodeTypes.find? i = c.nodeTypes.find? i ∨
    c.nodeTypes.find? i = none ∧ ∃ m, M m ∧ m.id = i
  signatures : ∀ i, c'.signatures.find? i = c.signatures.find? i ∨
    c.signatures.find? i = none ∧ ∃ m, M m ∧ m.id = i
  kept : ∀ d ∈ c.diagnostics, d ∈ c'.diagnostics
  told : ∀ d ∈ c'.diagnostics, d ∈ c.diagnostics ∨ ∃ m, M m ∧ m.span = d.span

namespace Checker.Touches

variable {M : Mark → Prop} {c c₁ c₂ : Checker}

theorem of_eq (nodeTypes : c₁.nodeTypes = c.nodeTypes) (signatures : c₁.signatures = c.signatures)
    (diagnostics : c₁.diagnostics = c.diagnostics) : c.Touches M c₁ where
  nodeTypes _ := .inl (by rw [nodeTypes])
  signatures _ := .inl (by rw [signatures])
  kept _ := diagnostics ▸ id
  told _ := .inl ∘ (diagnostics ▸ id)

theorem refl (M : Mark → Prop) (c : Checker) : c.Touches M c := of_eq rfl rfl rfl

theorem trans (first : c.Touches M c₁) (second : c₁.Touches M c₂) : c.Touches M c₂ where
  nodeTypes i := by
    rcases second.nodeTypes i with same | ⟨new, own⟩
    · exact same ▸ first.nodeTypes i
    · exact .inr ⟨(first.nodeTypes i).elim (· ▸ new) And.left, own⟩
  signatures i := by
    rcases second.signatures i with same | ⟨new, own⟩
    · exact same ▸ first.signatures i
    · exact .inr ⟨(first.signatures i).elim (· ▸ new) And.left, own⟩
  kept d member := second.kept d (first.kept d member)
  told d member := (second.told d member).elim (first.told d) .inr

theorem mono {M' : Mark → Prop} (touches : c.Touches M c₁) (wider : ∀ m, M m → M' m) :
    c.Touches M' c₁ where
  nodeTypes i := (touches.nodeTypes i).imp_right fun ⟨new, m, own, same⟩ =>
    ⟨new, m, wider m own, same⟩
  signatures i := (touches.signatures i).imp_right fun ⟨new, m, own, same⟩ =>
    ⟨new, m, wider m own, same⟩
  kept := touches.kept
  told d member := (touches.told d member).imp_right fun ⟨m, own, same⟩ => ⟨m, wider m own, same⟩

theorem noteNew {m : Mark} (own : M m) (t : Ty) :
    c.Touches M { c with nodeTypes := c.nodeTypes.insertNew m.id t } where
  nodeTypes i := (c.nodeTypes.find?_insertNew_or m.id i t).imp_right fun ⟨new, same⟩ =>
    ⟨new, m, own, same⟩
  signatures _ := .inl rfl
  kept _ := id
  told _ := .inl

theorem note {m : Mark} (own : M m) (t : Ty) (new : c.nodeTypes.contains m.id = false) :
    c.Touches M { c with nodeTypes := c.nodeTypes.insert m.id t } where
  nodeTypes i := by
    by_cases same : i = m.id
    · exact .inr ⟨same ▸ Table.contains_eq_false.mp new, m, own, same.symm⟩
    · exact .inl (Table.find?_insert_other _ _ same)
  signatures _ := .inl rfl
  kept _ := id
  told _ := .inl

theorem sign {m : Mark} (own : M m) (sig : Signature) (new : c.signatures.contains m.id = false) :
    c.Touches M { c with signatures := c.signatures.insert m.id sig } where
  nodeTypes _ := .inl rfl
  signatures i := by
    by_cases same : i = m.id
    · exact .inr ⟨same ▸ Table.contains_eq_false.mp new, m, own, same.symm⟩
    · exact .inl (Table.find?_insert_other _ _ same)
  kept _ := id
  told _ := .inl

theorem signNew {m : Mark} (own : M m) (sig : Signature) :
    c.Touches M { c with signatures := c.signatures.insertNew m.id sig } where
  nodeTypes _ := .inl rfl
  signatures i := (c.signatures.find?_insertNew_or m.id i sig).imp_right fun ⟨new, same⟩ =>
    ⟨new, m, own, same⟩
  kept _ := id
  told _ := .inl

theorem report {span : Span} (own : ∃ m, M m ∧ m.span = span) (problem : Problem) :
    c.Touches M { c with diagnostics := c.diagnostics.push ⟨span, problem⟩ } where
  nodeTypes _ := .inl rfl
  signatures _ := .inl rfl
  kept _ := Array.mem_push_of_mem _
  told d member := by
    rcases Array.mem_push.mp member with old | rfl
    · exact .inl old
    · exact .inr own

end Checker.Touches

/-- A step that settles no goal and writes and reports at nodes with certain marks only. -/
structure StillAt (cx : Context) (M : Mark → Prop) {α : Type} (a : Check α) : Prop
    extends Still cx a where
  touches : ∀ c x c', a c = .ok (x, c') → c.Touches M c'
  subtypes : ∀ c x c', a c = .ok (x, c') → c'.subtypes = c.subtypes

namespace StillAt

variable {cx : Context} {M : Mark → Prop} {α β : Type} {a : Check α}

theorem mono {M' : Mark → Prop} (still : StillAt cx M a) (wider : ∀ m, M m → M' m) :
    StillAt cx M' a where
  toStill := still.toStill
  touches c x c' run := (still.touches c x c' run).mono wider
  subtypes := still.subtypes

theorem pure (x : α) : StillAt cx M (Pure.pure x) where
  toStill := .pure x
  touches c y c' run := by
    cases run
    exact .refl M c
  subtypes c y c' run := by
    cases run
    rfl

theorem rewritten (i : NodeId) : StillAt cx M (MonadExcept.throw (Fault.rewritten i) : Check α) :=
  ⟨.rewritten i, fun _ _ _ => nofun, fun _ _ _ => nofun⟩

theorem bind {f : α → Check β} (first : StillAt cx M a) (rest : ∀ x, StillAt cx M (f x)) :
    StillAt cx M (a >>= f) where
  toStill := first.toStill.bind fun x => (rest x).toStill
  touches c y c' run := by
    obtain ⟨x, c₁, run₁, run₂⟩ := Check.bind_ok run
    exact (first.touches c x c₁ run₁).trans ((rest x).touches c₁ y c' run₂)
  subtypes c y c' run := by
    obtain ⟨x, c₁, run₁, run₂⟩ := Check.bind_ok run
    exact ((rest x).subtypes c₁ y c' run₂).trans (first.subtypes c x c₁ run₁)

theorem get : StillAt cx M MonadState.get where
  toStill := .get
  touches c y c' run := by
    cases run
    exact .refl M c
  subtypes c y c' run := by
    cases run
    rfl

/-- A step that runs without fail. -/
theorem update {f : Checker → Checker}
    (still : Still cx (MonadState.modifyGet fun c => ((), f c)))
    (touches : ∀ c : Checker, c.Touches M (f c))
    (subtypes : ∀ c, (f c).subtypes = c.subtypes) :
    StillAt cx M (MonadState.modifyGet fun c => ((), f c)) where
  toStill := still
  touches c y c' run := by
    cases run
    exact touches c
  subtypes c y c' run := by
    cases run
    exact subtypes c

theorem report {span : Span} (own : ∃ m, M m ∧ m.span = span) (problem : Problem) :
    StillAt cx M (Check.report span problem) :=
  update (.report span problem) (fun _ => .report own problem) fun _ => rfl

theorem enterText (v : Literal) : StillAt cx M (Check.enterText v) := by
  cases v with
  | str s => exact update (.enterText (.str s)) (fun _ => .of_eq rfl rfl rfl) fun _ => rfl
  | _ => exact pure ()

theorem intern {α : Type} (enter : InternCache → α × InternCache) :
    StillAt cx M (Check.intern enter) where
  toStill := .intern enter
  touches c y c' run := by
    cases run
    exact .of_eq rfl rfl rfl
  subtypes c y c' run := by
    cases run
    rfl

theorem enterLiteral (v : Literal) : StillAt cx M (Check.enterLiteral v) := intern _

theorem enterType (t : Ty) : StillAt cx M (Check.enterType t) := by
  cases t with
  | intrinsic k => exact bind (pure _) fun _ => pure _
  | _ => exact bind (intern _) fun _ => pure _

theorem isPursuing (goal : Goal) : StillAt cx M (Check.isPursuing goal) := bind get fun _ => pure _

theorem evaluating (f : List SymbolId → List SymbolId) : StillAt cx M
    (MonadState.modifyGet fun c : Checker => ((), { c with evaluating := f c.evaluating })) :=
  update (.update fun _ => ⟨_, _, _, _, _, _, rfl⟩) (fun _ => .of_eq rfl rfl rfl) fun _ => rfl

theorem noteNew {m : Mark} (own : M m) (t : Ty) : StillAt cx M
    (MonadState.modifyGet fun c : Checker =>
      ((), { c with nodeTypes := c.nodeTypes.insertNew m.id t })) :=
  update (.update fun _ => ⟨_, _, _, _, _, _, rfl⟩) (fun _ => .noteNew own t) fun _ => rfl

theorem recordType {m : Mark} (own : M m) (t : Ty) : StillAt cx M (Check.recordType m.id t) where
  toStill := .recordType m.id t
  touches c y c' run := by
    rw [Check.recordType, Check.get_bind] at run
    cases new : c.nodeTypes.contains m.id with
    | true =>
      rw [new] at run
      cases run
    | false =>
      rw [new] at run
      cases run
      exact .note own t new
  subtypes c y c' run := by
    rw [Check.recordType, Check.get_bind] at run
    split at run <;> cases run
    rfl

theorem recordWitness (i : NodeId) (w : Witness) : StillAt cx M (Check.recordWitness i w) := by
  refine bind get fun c => ?_
  have put : StillAt cx M (MonadState.modifyGet fun c : Checker =>
      ((), { c with witnesses := c.witnesses.insert i w })) :=
    update (.update fun _ => ⟨_, _, _, _, _, _, rfl⟩) (fun _ => .of_eq rfl rfl rfl) fun _ => rfl
  split
  · exact bind (rewritten i) fun _ => put
  · exact put

theorem recordSignature {m : Mark} {f : Ident Mark} {args : List (Expr Mark)} (own : M m)
    (sig : Signature) (call : .expr (.call m f args) ∈ cx.program.nodes) :
    StillAt cx M (Check.recordSignature m.id sig) where
  toStill := .recordSignature sig call
  touches c y c' run := by
    rw [Check.recordSignature, Check.get_bind] at run
    cases new : c.signatures.contains m.id with
    | true =>
      rw [new] at run
      cases run
    | false =>
      rw [new] at run
      cases run
      exact .sign own sig new
  subtypes c y c' run := by
    rw [Check.recordSignature, Check.get_bind] at run
    split at run <;> cases run
    rfl

theorem apply (result : Except OpError Literal) : StillAt cx M (Check.apply result) := by
  cases result with
  | error e => exact pure none
  | ok v => exact bind (enterText v) fun _ => pure (some v)

end StillAt

/-! ### Composed properties -/

/-- A property that is passed on to actions in turn. -/
structure Composed (C : {α : Type} → (Oracle → Check α) → Prop) : Prop where
  pure : ∀ {α : Type} (x : α), C fun _ => Pure.pure x
  bind : ∀ {α β : Type} {act : Oracle → Check α} {f : α → Oracle → Check β},
    C act → (∀ x, C (f x)) → C fun o => act o >>= fun x => f x o

namespace Composed

variable {C : {α : Type} → (Oracle → Check α) → Prop}

theorem branch {α : Type} {q : Prop} {dec : Oracle → Decidable q} {a b : Oracle → Check α}
    (yes : C a) (no : C b) : C fun o => @ite _ q (dec o) (a o) (b o) := by
  by_cases holds : q
  · simpa only [if_pos holds] using yes
  · simpa only [if_neg holds] using no

variable (comp : Composed C)
include comp

theorem mapM {α β : Type} {f : α → Oracle → Check β} :
    ∀ {xs : List α}, (∀ x ∈ xs, C (f x)) → C fun o => xs.mapM fun x => f x o
  | [], _ => by
    simp only [List.mapM_nil]
    exact comp.pure []
  | x :: xs, each => by
    simp only [List.mapM_cons]
    refine comp.bind (each x List.mem_cons_self) fun y => ?_
    refine comp.bind (mapM fun z member => each z (List.mem_cons_of_mem x member)) fun ys => ?_
    exact comp.pure (y :: ys)

theorem allM {α : Type} {f : α → Oracle → Check Bool} (each : ∀ x, C (f x)) :
    ∀ xs : List α, C fun o => xs.allM fun x => f x o
  | [] => comp.pure true
  | x :: xs => by
    simp only [List.allM]
    refine comp.bind (each x) fun b => ?_
    cases b with
    | true => exact allM each xs
    | false => exact comp.pure false

theorem filterAuxM {α : Type} {f : α → Oracle → Check Bool} (each : ∀ x, C (f x)) :
    ∀ xs acc : List α, C fun o => xs.filterAuxM (fun x => f x o) acc
  | [], acc => comp.pure acc
  | x :: xs, acc => comp.bind (each x) fun b => filterAuxM each xs (cond b (x :: acc) acc)

theorem filterM {α : Type} {f : α → Oracle → Check Bool} (each : ∀ x, C (f x)) (xs : List α) :
    C fun o => xs.filterM fun x => f x o :=
  comp.bind (comp.filterAuxM each xs []) fun ys => comp.pure ys.reverse

section
variable {cx : Context} (endless : ∀ {α : Type}, C fun _ => (throw .endless : Check α))
  (isSubtype : ∀ s t, C fun o => (cx.asking o).isSubtype s t)
  (widen : ∀ t, C fun o => (cx.asking o).widen t)
include endless isSubtype widen

/-- A type above two others is found by questions about subtypes and steps up. -/
theorem lubWithin (n : Nat) (s t : Ty) : C fun o => (cx.asking o).lubWithin n s t := by
  induction n generalizing s t with
  | zero => exact endless
  | succ n ih =>
    simp only [Resolver.lubWithin]
    refine comp.bind (isSubtype s t) fun _ => branch (comp.pure t) ?_
    refine comp.bind (isSubtype t s) fun _ => branch (comp.pure s) ?_
    refine comp.bind (widen s) fun s' => comp.bind (widen t) fun t' => ?_
    exact branch (comp.pure _) (ih s' t')

theorem lub (s t : Ty) : C fun o => (cx.asking o).lub s t :=
  comp.lubWithin endless isSubtype widen (cx.symbols.size + 2 + 1) s t

end

end Composed

/-- A property that an action has if its steps have it. -/
structure Compositional (cx : Context) (C : {α : Type} → (Oracle → Check α) → Prop) : Prop where
  still : ∀ {α : Type} {a : Check α}, Still cx a → C fun _ => a
  bind : ∀ {α β : Type} {act : Oracle → Check α} {f : α → Oracle → Check β},
    C act → (∀ x, C (f x)) → C fun o => act o >>= fun x => f x o
  ask : ∀ q, cx.Poses q → C fun o => o q

open Composed (branch)

namespace Compositional

variable {cx : Context} {C : {α : Type} → (Oracle → Check α) → Prop} (comp : Compositional cx C)
include comp

theorem pure {α : Type} (x : α) : C fun _ => Pure.pure x := comp.still (.pure x)

theorem composed : Composed C := ⟨comp.pure, comp.bind⟩

theorem get {α : Type} {f : Checker → Oracle → Check α} (rest : ∀ c, C (f c)) :
    C fun o => MonadState.get >>= fun c => f c o :=
  comp.bind (comp.still .get) rest

theorem typeOf (x : SymbolId) : C fun o => (cx.asking o).typeOf x := comp.ask (.typeOf x) trivial

theorem widen (t : Ty) : C fun o => (cx.asking o).widen t := by
  cases t with
  | path x => exact comp.typeOf x
  | _ => exact comp.pure _

/-! ### Subtypes -/

section
variable (endless : ∀ {α : Type}, C fun _ => (throw .endless : Check α))
include endless

theorem isSubtypeWithin (n : Nat) (s t : Ty) :
    C fun o => (cx.asking o).isSubtypeWithin n s t := by
  induction n generalizing s with
  | zero => exact endless
  | succ n ih =>
    have keep : ∀ b : Bool, C fun _ => do
        MonadState.modifyGet fun c : Checker =>
          ((), { c with subtypes := c.subtypes.insert (s, t) b })
        return b :=
      fun b => comp.still (.bind (.update fun _ => ⟨_, _, _, _, _, _, rfl⟩) fun _ => .pure b)
    simp only [Resolver.isSubtypeWithin]
    refine branch (comp.pure true) (comp.get fun c => ?_)
    cases c.subtypes.find? (s, t) with
    | some b => exact comp.pure b
    | none =>
      refine branch (comp.bind (comp.pure true) keep) ?_
      have climb : C fun o => do
          let up ← (cx.asking o).widen s
          if up = s then do
            let b ← (Pure.pure false : Check Bool)
            MonadState.modifyGet fun c : Checker =>
              ((), { c with subtypes := c.subtypes.insert (s, t) b })
            return b
          else do
            let b ← (cx.asking o).isSubtypeWithin n up t
            MonadState.modifyGet fun c : Checker =>
              ((), { c with subtypes := c.subtypes.insert (s, t) b })
            return b :=
        comp.bind (comp.widen s) fun up =>
          branch (comp.bind (comp.pure false) keep) (comp.bind (ih up) keep)
      cases s with
      | intrinsic j =>
        cases t with
        | _ => exact comp.bind (comp.pure _) keep
      | _ =>
        cases t with
        | intrinsic k => exact climb
        | _ => exact comp.bind (comp.pure _) keep

theorem isSubtype (s t : Ty) : C fun o => (cx.asking o).isSubtype s t :=
  comp.isSubtypeWithin endless (cx.symbols.size + 2) s t

theorem lub (s t : Ty) : C fun o => (cx.asking o).lub s t :=
  comp.composed.lub endless (comp.isSubtype endless) comp.widen s t

end

end Compositional

/-- A compositional property that also holds of subtyping. -/
structure Thorough (cx : Context) (C : {α : Type} → (Oracle → Check α) → Prop) : Prop
    extends Compositional cx C where
  isSubtype : ∀ s t, C fun o => (cx.asking o).isSubtype s t
  lub : ∀ s t, C fun o => (cx.asking o).lub s t

/-! ### Overload resolution in steps -/

/-- The one overload that is more specific than the others, or a report that there is none. -/
def Resolver.selectBest (r : Resolver) (call : Call) (applicable : List Signature) :
    Check (Option Signature) := do
  match ← applicable.filterM fun sig => r.isMostSpecific sig applicable with
  | [best] => return some best
  | _ =>
    Check.report call.span (.ambiguousCall call.callee (applicable.map Signature.site))
    return none

def Resolver.selectAmong (r : Resolver) (call : Call) (sigs : List Signature) (args : List Ty) :
    List Signature → Check (Option Signature)
  | [] => do
    r.reportNoMatch call sigs args
    return none
  | [only] => return some only
  | applicable => r.selectBest call applicable

/-! ### Actions at some nodes -/

/-- A demand that is reported, if it leads round in a circle, at a node with a certain mark. -/
def Demand.At (M : Mark → Prop) : Demand → Prop
  | .aliasTarget _ span => ∃ m, M m ∧ m.span = span
  | _ => True

/-- A property that an action at nodes with certain marks has if its steps have it. -/
structure Located (cx : Context) (M : Mark → Prop)
    (C : {α : Type} → (Oracle → Check α) → Prop) : Prop where
  still : ∀ {α : Type} {a : Check α}, StillAt cx M a → C fun _ => a
  bind : ∀ {α β : Type} {act : Oracle → Check α} {f : α → Oracle → Check β},
    C act → (∀ x, C (f x)) → C fun o => act o >>= fun x => f x o
  ask : ∀ q, cx.Poses q → q.At M → C fun o => o q
  isSubtype : ∀ s t, C fun o => (cx.asking o).isSubtype s t
  lub : ∀ s t, C fun o => (cx.asking o).lub s t

namespace Located

variable {cx : Context} {M : Mark → Prop} {C : {α : Type} → (Oracle → Check α) → Prop}
  (comp : Located cx M C)
include comp

theorem pure {α : Type} (x : α) : C fun _ => Pure.pure x := comp.still (.pure x)

theorem composed : Composed C := ⟨comp.pure, comp.bind⟩

theorem get {α : Type} {f : Checker → Oracle → Check α} (rest : ∀ c, C (f c)) :
    C fun o => MonadState.get >>= fun c => f c o :=
  comp.bind (comp.still .get) rest

theorem report {span : Span} (own : ∃ m, M m ∧ m.span = span) (problem : Problem) :
    C fun _ => Check.report span problem :=
  comp.still (.report own problem)

theorem reject {α : Type} {span : Span} (own : ∃ m, M m ∧ m.span = span) (problem : Problem)
    (x : α) : C fun _ => do Check.report span problem; return x :=
  comp.still (.bind (.report own problem) fun _ => .pure x)

theorem once {m : Mark} (own : M m) {f : Oracle → Check Ty} (finds : C f) :
    C fun o => Check.once m.id (f o) := by
  refine comp.get fun c => ?_
  cases c.nodeTypes.find? m.id with
  | some t => exact comp.pure t
  | none => exact comp.bind finds fun t => comp.still (.bind (.noteNew own t) fun _ => .pure t)

/-! ### Types -/

theorem typeOf (x : SymbolId) : C fun o => (cx.asking o).typeOf x :=
  comp.ask (.typeOf x) trivial trivial

theorem widen (t : Ty) : C fun o => (cx.asking o).widen t := by
  cases t with
  | path x => exact comp.typeOf x
  | _ => exact comp.pure _

theorem baseWithin (n : Nat) (t : Ty) : C fun o => (cx.asking o).baseWithin n t := by
  induction n generalizing t with
  | zero =>
    simp only [Resolver.baseWithin]
    exact branch (comp.bind (comp.widen t) fun _ => comp.pure Ty.error) (comp.pure t)
  | succ n ih =>
    simp only [Resolver.baseWithin]
    refine branch (comp.bind (comp.widen t) fun next => ?_) (comp.pure t)
    exact branch (comp.pure Ty.error) (ih next)

theorem baseKind (t : Ty) : C fun o => (cx.asking o).baseKind t :=
  comp.bind (comp.baseWithin (cx.symbols.size + 1) t) fun u => comp.pure (u.kind?.getD .error)

theorem typeOfReference {m : Mark} {x : Ident Mark} (own : M m) (own' : M x.mark) :
    C fun o => (cx.asking o).typeOfReference m x := by
  simp only [Resolver.typeOfReference, cx.asking_toContext]
  cases cx.targets.find? x.mark.id with
  | none => exact comp.pure _
  | some s =>
    refine branch (comp.pure _) (branch ?_ (comp.reject ⟨m, own, rfl⟩ _ Ty.error))
    exact comp.ask (.aliasTarget s x.mark.span) trivial ⟨_, own', rfl⟩

theorem typeOfPath (x : Ident Mark) {span : Span} (own : ∃ m, M m ∧ m.span = span) :
    C fun o => (cx.asking o).typeOfPath x span := by
  simp only [Resolver.typeOfPath, cx.asking_toContext]
  cases cx.symbolAt? x.mark.id with
  | none => exact comp.pure _
  | some s =>
    refine comp.bind (comp.still (.isPursuing (.typeOf s))) fun pursuing => ?_
    refine branch (comp.reject own _ Ty.error) ?_
    cases cx.stablePath s with
    | ok t => exact comp.still (.enterType t)
    | error p => exact comp.reject own p Ty.error

theorem typeOfOperand {m : Mark} {e : Expr Mark} (own : M m) (own' : M e.mark) :
    C fun o => (cx.asking o).typeOfOperand m e := by
  cases e with
  | lit l => exact comp.still (.enterType (.literal l.value))
  | name x => exact comp.typeOfPath x ⟨m, own, rfl⟩
  | _ => exact comp.reject ⟨_, own', rfl⟩ _ Ty.error

theorem typeOfLiteral {m : Mark} (own : M m) (v : Literal) (dot : Bool) :
    C fun o => (cx.asking o).typeOfLiteral m v dot := by
  simp only [Resolver.typeOfLiteral, cx.asking_toContext]
  have enter : C fun _ => Check.enterType (.literal v) := comp.still (.enterType _)
  exact branch (comp.bind (comp.report ⟨m, own, rfl⟩ _) fun _ => enter) enter

theorem typeOfNode : ∀ (node : TyNode Mark), (∀ n ∈ node.nodes, M n.mark) →
    C fun o => (cx.asking o).typeOfNode node
  | .refer m x, own => by
    obtain ⟨named, own⟩ := List.forall_mem_cons.mp own
    exact comp.once (own _ List.mem_cons_self)
      (comp.typeOfReference (own _ List.mem_cons_self) named)
  | .singleton m e, own => by
    obtain ⟨inner, own⟩ := List.forall_mem_append.mp own
    exact comp.once (own _ List.mem_cons_self)
      (comp.typeOfOperand (own _ List.mem_cons_self) (inner _ (Expr.mem_nodes e)))
  | .lit m l dot, own => by
    have own := own _ (List.mem_cons_of_mem _ List.mem_cons_self)
    exact comp.once own (comp.typeOfLiteral own l.value dot)
  | .paren m t, own => by
    obtain ⟨inner, own⟩ := List.forall_mem_append.mp own
    exact comp.once (own _ List.mem_cons_self) (typeOfNode t inner)

theorem typeOfParam (q : Param Mark) (own : ∀ n ∈ q.ty.nodes, M n.mark) :
    C fun o => (cx.asking o).typeOfParam q := by
  simp only [Resolver.typeOfParam, cx.asking_toContext]
  cases cx.targets.find? q.mark.id with
  | some x => exact comp.typeOf x
  | none => exact comp.typeOfNode q.ty own

/-! ### Constants -/

theorem constants (n : Nat) :
    (∀ x, C fun o => (cx.asking o).constantOf n x) ∧
      ∀ e, C fun o => (cx.asking o).constant n e := by
  induction n with
  | zero => exact ⟨fun _ => comp.pure none, fun _ => comp.pure none⟩
  | succ n ih =>
    obtain ⟨ofSymbol, ofExpr⟩ := ih
    refine ⟨fun x => ?_, fun e => ?_⟩
    · simp only [Resolver.constantOf, cx.asking_toContext]
      refine comp.get fun c => branch (comp.pure none) ?_
      refine branch (q := (!(cx.symbol x).role.isStable || (cx.symbol x).role = .param) = true)
        (comp.pure none) ?_
      refine comp.bind (comp.typeOf x) fun t => ?_
      cases t with
      | literal v => exact comp.pure (some v)
      | path y => exact ofSymbol y
      | intrinsic k =>
        rcases (cx.symbol x).decls.head? with _ | ⟨d⟩ | _ | _ | _
        case some.val =>
          refine comp.bind (comp.still (.evaluating (x :: ·))) fun _ => ?_
          refine comp.bind (ofExpr d.init) fun v => ?_
          exact comp.still (.bind (.evaluating List.tail) fun _ => .pure v)
        all_goals exact comp.pure none
    · cases e with
      | lit l => exact comp.pure _
      | paren m e => exact ofExpr e
      | name x =>
        simp only [Resolver.constant, cx.asking_toContext]
        cases cx.symbolAt? x.mark.id with
        | some s => exact ofSymbol s
        | none => exact comp.pure none
      | unary m op e =>
        simp only [Resolver.constant]
        refine comp.bind (ofExpr e) fun found => ?_
        cases found with
        | some v => exact comp.still (.apply _)
        | none => exact comp.pure none
      | bin m op a b =>
        simp only [Resolver.constant]
        refine comp.bind (ofExpr a) fun left => ?_
        cases left with
        | none => exact comp.pure none
        | some v =>
          refine comp.bind (ofExpr b) fun right => ?_
          cases right with
          | some w => exact comp.still (.apply _)
          | none => exact comp.pure none
      | _ => exact comp.pure none

theorem inhabitantWithin (n : Nat) (t : Ty) : C fun o => (cx.asking o).inhabitantWithin n t := by
  induction n generalizing t with
  | zero =>
    rcases t with k | v | x
    · cases k <;> exact comp.pure _
    · exact comp.pure _
    · exact comp.pure (Except.error (Problem.notAConstant (cx.nameOf x)))
  | succ n ih =>
    rcases t with k | v | x
    · cases k <;> exact comp.pure _
    · exact comp.pure _
    · simp only [Resolver.inhabitantWithin, cx.asking_toContext]
      refine comp.bind (comp.typeOf x) fun declared => branch ?_ ?_
      · refine comp.bind (ih declared) fun found => ?_
        cases found <;> exact comp.pure _
      · refine comp.bind ((comp.constants n).1 x) fun found => ?_
        cases found <;> exact comp.pure _

theorem inhabitant (t : Ty) : C fun o => (cx.asking o).inhabitant t := by
  refine comp.bind (comp.inhabitantWithin (cx.options.maxConstEvalDepth + 1) t) fun found => ?_
  cases found with
  | ok v => exact comp.still (.bind (.enterLiteral v) fun _ => .pure _)
  | error p => exact comp.pure (Except.error p)

/-! ### Overloads -/

theorem checkAssignable (s t : Ty) {span : Span} (own : ∃ m, M m ∧ m.span = span) :
    C fun o => (cx.asking o).checkAssignable s t span := by
  refine comp.bind (comp.isSubtype s t) fun b => ?_
  cases b with
  | true => exact comp.pure ()
  | false => exact comp.report own _

theorem allSubtypes : ∀ ss ts : List Ty, C fun o => (cx.asking o).allSubtypes ss ts
  | s :: ss, t :: ts => by
    simp only [Resolver.allSubtypes]
    exact comp.bind (comp.isSubtype s t) fun _ => branch (allSubtypes ss ts) (comp.pure false)
  | [], _ => comp.pure true
  | _ :: _, [] => comp.pure true

theorem reportArgument : ∀ (spans : List Span) (ss ts : List Ty),
    (∀ span ∈ spans, ∃ m, M m ∧ m.span = span) →
      C fun o => (cx.asking o).reportArgument spans ss ts
  | span :: spans, s :: ss, t :: ts, own => by
    obtain ⟨own, rest⟩ := List.forall_mem_cons.mp own
    simp only [Resolver.reportArgument]
    exact comp.bind (comp.isSubtype s t) fun _ =>
      branch (reportArgument spans ss ts rest) (comp.report own _)
  | [], _, _, _ => comp.pure ()
  | _ :: _, [], _, _ => comp.pure ()
  | _ :: _, _ :: _, [], _ => comp.pure ()

theorem isMostSpecific (sig : Signature) (others : List Signature) :
    C fun o => (cx.asking o).isMostSpecific sig others := by
  simp only [Resolver.isMostSpecific]
  exact comp.composed.allM (fun other : Signature =>
    branch (comp.pure true) (comp.allSubtypes sig.params other.params)) others

section
variable {call : Call} (own : ∃ m, M m ∧ m.span = call.span)
  (args : ∀ span ∈ call.args, ∃ m, M m ∧ m.span = span)
include own args

theorem reportNoMatch (sigs : List Signature) (types : List Ty) :
    C fun o => (cx.asking o).reportNoMatch call sigs types := by
  rcases sigs with _ | ⟨only, _ | ⟨next, sigs⟩⟩
  · exact comp.report own _
  · exact branch (comp.report own _) (comp.reportArgument call.args types only.params args)
  · exact comp.report own _

theorem selectAmong (sigs : List Signature) (types : List Ty) (applicable : List Signature) :
    C fun o => (cx.asking o).selectAmong call sigs types applicable := by
  rcases applicable with _ | ⟨only, _ | ⟨next, rest⟩⟩
  · exact comp.bind (comp.reportNoMatch own args sigs types) fun _ => comp.pure none
  · exact comp.pure (some only)
  · refine comp.bind (comp.composed.filterM (fun sig => comp.isMostSpecific sig _) _) fun best => ?_
    rcases best with _ | ⟨best, _ | ⟨second, rest⟩⟩
    · exact comp.reject own _ none
    · exact comp.pure (some best)
    · exact comp.reject own _ none

theorem selectOverload (sigs : List Signature) (types : List Ty) :
    C fun o => (cx.asking o).selectOverload call sigs types := by
  simp only [Resolver.selectOverload]
  exact branch (comp.pure none) (comp.bind
    (comp.composed.filterM (fun sig : Signature => comp.allSubtypes types sig.params) _)
      fun applicable => comp.selectAmong own args sigs types applicable)

end

/-! ### Single expressions -/

theorem typeOfName {x : Ident Mark} (own : M x.mark) (expected : Option Ty) :
    C fun o => (cx.asking o).typeOfName x expected := by
  simp only [Resolver.typeOfName, cx.asking_toContext]
  cases cx.symbolAt? x.mark.id with
  | none => exact comp.pure Ty.error
  | some s =>
    refine branch (comp.reject ⟨_, own, rfl⟩ _ Ty.error) ?_
    refine comp.bind (comp.typeOf s) fun declared => ?_
    exact branch (comp.pure _) (comp.pure _)

theorem typeOfResult (folded : Option (Except OpError Literal)) (k : Kind) :
    C fun _ => Resolver.typeOfResult folded k := by
  rcases folded with _ | _ | v
  · exact comp.pure _
  · exact comp.pure _
  · exact comp.still (.bind (.enterText v) fun _ => .enterType _)

theorem typeOfUnary {span : Span} (own : ∃ m, M m ∧ m.span = span) (op : UnaryOp) (t : Ty) :
    C fun o => (cx.asking o).typeOfUnary span op t := by
  refine branch (comp.pure Ty.error) (comp.bind (comp.baseKind t) fun k => ?_)
  cases op.resultKind k with
  | none => exact comp.reject own _ Ty.error
  | some j => exact comp.typeOfResult _ j

theorem typeOfBinary {span : Span} (own : ∃ m, M m ∧ m.span = span) (op : BinOp) (s t : Ty) :
    C fun o => (cx.asking o).typeOfBinary span op s t := by
  refine branch (comp.pure Ty.error) (comp.bind (comp.baseKind s) fun j =>
    comp.bind (comp.baseKind t) fun k => ?_)
  cases op.resultKind j k with
  | none => exact comp.reject own _ Ty.error
  | some i =>
    cases s with
    | literal v =>
      cases t with
      | literal w => exact comp.typeOfResult _ i
      | _ => exact comp.pure _
    | _ => exact comp.pure _

theorem typeOfInhabitant (m : Mark) (node : TyNode Mark) (own : ∀ n ∈ node.nodes, M n.mark) :
    C fun o => (cx.asking o).typeOfInhabitant m node := by
  refine comp.bind (comp.typeOfNode node own) fun t => branch (comp.pure t) ?_
  refine comp.bind (comp.inhabitant t) fun found => ?_
  cases found with
  | ok w => exact comp.still (.bind (.recordWitness m.id w) fun _ => .pure t)
  | error p => exact comp.reject ⟨_, own _ (TyNode.mem_nodes node), rfl⟩ p t

theorem comparePat (scrutinee : Ty) {m : Mark} (own : M m) (t : Ty) :
    C fun o => Resolver.checkPat.check (cx.asking o) scrutinee m t := by
  refine comp.bind (comp.still (.recordType own t)) fun _ => branch (comp.pure ()) ?_
  refine comp.bind (comp.isSubtype t scrutinee) fun _ => branch (comp.pure ()) ?_
  refine comp.bind (comp.isSubtype scrutinee t) fun _ => branch (comp.pure ()) ?_
  exact comp.report ⟨m, own, rfl⟩ _

theorem checkPat (scrutinee : Ty) (q : Pat Mark) (own : ∀ n ∈ q.nodes, M n.mark) :
    C fun o => (cx.asking o).checkPat scrutinee q := by
  cases q with
  | wildcard m => exact comp.pure ()
  | lit m l =>
    exact comp.bind (comp.still (.enterType _)) fun t =>
      comp.comparePat scrutinee (own _ (Pat.mem_nodes (.lit m l))) t
  | typed m node =>
    exact comp.bind (comp.typeOfNode node (List.forall_mem_append.mp own).1) fun t =>
      comp.comparePat scrutinee (own _ (Pat.mem_nodes (.typed m node))) t

variable (ground : cx.Grounded)
include ground

theorem signaturesOf (x : SymbolId) : C fun o => (cx.asking o).signaturesOf x := by
  simp only [Resolver.signaturesOf, cx.asking_toContext]
  exact comp.composed.mapM fun d member =>
    comp.ask (.signature d) (ground.decl x (.fn d) (Decl.mem_fns.mp member)) trivial

/-! ### Trees -/

set_option linter.unusedSectionVars false

section
variable {N : List (Node Mark)} (program : N ⊆ cx.program.nodes) (own : ∀ n ∈ N, M n.mark)
include program own

mutual
theorem typeOfExpr : ∀ (e : Expr Mark) (expected : Option Ty), e.nodes ⊆ N →
    C fun o => (cx.asking o).typeOfExpr e expected
  | .lit l, _, inside =>
    comp.once (own _ (inside (Expr.mem_nodes (.lit l)))) (comp.still (.enterType _))
  | .name x, expected, inside => by
    have own := own _ (inside (Expr.mem_nodes (.name x)))
    exact comp.once own (comp.typeOfName own expected)
  | .paren m e, expected, inside =>
    comp.once (own _ (inside (Expr.mem_nodes (.paren m e))))
      (typeOfExpr e expected (Answers.below_left inside))
  | .unary m op e, _, inside => by
    have own := own _ (inside (Expr.mem_nodes (.unary m op e)))
    exact comp.once own (comp.bind (typeOfExpr e none (Answers.below_left inside)) fun t =>
      comp.typeOfUnary ⟨m, own, rfl⟩ op t)
  | .bin m op a b, _, inside => by
    have own := own _ (inside (Expr.mem_nodes (.bin m op a b)))
    refine comp.once own ?_
    have operands := Answers.below_left inside
    refine comp.bind (typeOfExpr a none (Answers.below_left operands)) fun s => ?_
    refine comp.bind (typeOfExpr b none (Answers.below_right operands)) fun t => ?_
    exact comp.typeOfBinary ⟨m, own, rfl⟩ op s t
  | .call m f args, expected, inside => by
    have ofArgs := fun expected => typeOfArgs args expected
      (List.cons_subset.mp (Answers.below_left inside)).2
    have self := own _ (inside (Expr.mem_nodes (.call m f args)))
    have named := own _ (inside List.mem_cons_self)
    simp only [Resolver.typeOfExpr, cx.asking_toContext]
    refine comp.once self ?_
    cases cx.symbolAt? f.mark.id with
    | none => exact comp.bind (ofArgs []) fun _ => comp.pure Ty.error
    | some x =>
      dsimp only
      cases (cx.symbol x).role with
      | builtin =>
        refine comp.bind (ofArgs []) fun _ => branch ?_ (comp.pure _)
        exact comp.reject ⟨m, self, rfl⟩ _ _
      | function =>
        refine comp.bind (comp.signaturesOf ground x) fun sigs => ?_
        refine comp.bind (ofArgs _) fun types => ?_
        refine comp.bind (comp.selectOverload ⟨m, self, rfl⟩ (fun span member => ?_) sigs types)
          fun found => ?_
        · obtain ⟨e, arg, rfl⟩ := List.mem_map.mp member
          exact ⟨_, own _ ((List.cons_subset.mp (Answers.below_left inside)).2
            (Expr.mem_exprsNodes arg)), rfl⟩
        cases found with
        | some sig =>
          exact comp.still (.bind (.recordSignature self sig (program (inside (Expr.mem_nodes _))))
            fun _ => .pure _)
        | none => exact comp.pure Ty.error
      | _ => exact comp.bind (ofArgs []) fun _ => comp.reject ⟨_, named, rfl⟩ _ Ty.error
  | .block m ss tail, expected, inside => by
    refine comp.once (own _ (inside (Expr.mem_nodes (.block m ss tail)))) ?_
    refine comp.bind (checkStmts ss (Answers.below_left (Answers.below_left inside))) fun _ => ?_
    exact typeOfTail tail expected (Answers.below_right (Answers.below_left inside))
  | .assign m x e, _, inside => by
    have inner : e.nodes ⊆ N := (List.cons_subset.mp (Answers.below_left inside)).2
    have value := own _ (inner (Expr.mem_nodes e))
    simp only [Resolver.typeOfExpr, cx.asking_toContext]
    refine comp.once (own _ (inside (Expr.mem_nodes (.assign m x e)))) ?_
    cases cx.symbolAt? x.mark.id with
    | none => exact comp.bind (typeOfExpr e none inner) fun _ => comp.pure _
    | some s =>
      refine branch (comp.bind (comp.typeOf s) fun declared => ?_) ?_
      · refine comp.bind (typeOfExpr e (some declared) inner) fun t => ?_
        exact comp.bind (comp.checkAssignable t declared ⟨_, value, rfl⟩) fun _ => comp.pure _
      · refine comp.bind (comp.report ⟨_, own _ (inside List.mem_cons_self), rfl⟩ _) fun _ => ?_
        exact comp.bind (typeOfExpr e none inner) fun _ => comp.pure _
  | .cases m e arms, expected, inside => by
    refine comp.once (own _ (inside (Expr.mem_nodes (.cases m e arms)))) ?_
    have parts := Answers.below_left inside
    refine comp.bind (typeOfExpr e none (Answers.below_left parts)) fun t => ?_
    exact typeOfArms arms t.widenLiteral expected false none (Answers.below_right parts)
  | .inhabitant m node, _, inside =>
    comp.once (own _ (inside (Expr.mem_nodes (.inhabitant m node))))
      (comp.typeOfInhabitant m node fun n member => own n (inside (List.mem_append_left _ member)))
  | .host m desc, _, inside =>
    comp.once (own _ (inside (Expr.mem_nodes (.host m desc)))) (comp.pure _)

theorem typeOfArgs : ∀ (es : List (Expr Mark)) (expected : List Ty),
    exprsNodes es ⊆ N → C fun o => (cx.asking o).typeOfArgs es expected
  | [], _, _ => comp.pure []
  | e :: es, expected, inside => by
    refine comp.bind (typeOfExpr e expected.head? (Answers.below_left inside)) fun t => ?_
    exact comp.bind (typeOfArgs es expected.tail (Answers.below_right inside)) fun ts =>
      comp.pure (t :: ts)

theorem typeOfTail : ∀ (tail : Option (Expr Mark)) (expected : Option Ty),
    tailNodes tail ⊆ N → C fun o => (cx.asking o).typeOfTail tail expected
  | none, _, _ => comp.pure _
  | some e, expected, inside => typeOfExpr e expected inside

theorem typeOfArms : ∀ (arms : List (Arm Mark)) (scrutinee : Ty) (expected : Option Ty)
    (closed : Bool) (above : Option Ty), armsNodes arms ⊆ N →
      C fun o => (cx.asking o).typeOfArms scrutinee expected closed above arms
  | [], _, _, _, _, _ => comp.pure _
  | ⟨m, q, e⟩ :: arms, scrutinee, expected, closed, above, inside => by
    have pat := Answers.below_left (Answers.below_left (Answers.below_left inside))
    have body : C (fun o => do
        (cx.asking o).checkPat scrutinee q
        let t ← (cx.asking o).typeOfExpr e expected
        let above ← match above with
          | some prev => (cx.asking o).lub prev t
          | none => Pure.pure t
        (cx.asking o).typeOfArms scrutinee expected (closed || q.isWildcard) (some above)
          arms) := by
      refine comp.bind (comp.checkPat scrutinee q fun n member => own n (pat member)) fun _ => ?_
      refine comp.bind (typeOfExpr e expected
        (Answers.below_right (Answers.below_left (Answers.below_left inside)))) fun t => ?_
      cases above with
      | some prev =>
        exact comp.bind (comp.lub prev t) fun u =>
          typeOfArms arms scrutinee expected _ (some u) (Answers.below_right inside)
      | none =>
        exact comp.bind (comp.pure t) fun u =>
          typeOfArms arms scrutinee expected _ (some u) (Answers.below_right inside)
    simp only [Resolver.typeOfArms]
    cases closed with
    | true => exact comp.bind (comp.report ⟨_, own _ (pat (Pat.mem_nodes q)), rfl⟩ _) fun _ => body
    | false => exact body

theorem checkStmt : ∀ s : Stmt Mark, s.nodes ⊆ N →
    C fun o => (cx.asking o).checkStmt s
  | .val ⟨m, kind, x, ty, e⟩, inside => by
    have inner : e.nodes ⊆ N := Answers.below_right (Answers.below_left inside)
    simp only [Resolver.checkStmt, cx.asking_toContext]
    cases cx.symbolAt? m.id with
    | none => exact comp.pure ()
    | some s =>
      refine comp.bind (comp.typeOf s) fun declared => branch ?_ ?_
      · refine comp.bind (typeOfExpr e (some declared) inner) fun t => ?_
        exact comp.checkAssignable t declared ⟨_, own _ (inner (Expr.mem_nodes e)), rfl⟩
      · exact comp.bind (typeOfExpr e none inner) fun _ => comp.pure ()
  | .typeAlias ⟨m, name, ty⟩, inside => by
    simp only [Resolver.checkStmt, cx.asking_toContext]
    cases cx.symbolAt? m.id with
    | none => exact comp.pure ()
    | some s =>
      exact comp.bind (comp.ask (.aliasTarget s name.mark.span) trivial
        ⟨_, own _ (inside List.mem_cons_self), rfl⟩) fun _ => comp.pure ()
  | .fn ⟨m, name, params, result, e⟩, inside => by
    have inner : e.nodes ⊆ N := Answers.below_right (Answers.below_left inside)
    simp only [Resolver.checkStmt]
    refine comp.bind (comp.ask (.signature ⟨m, name, params, result, e⟩)
      (program (inside (Stmt.mem_nodes _))) trivial) fun sig => branch ?_ ?_
    · refine comp.bind (typeOfExpr e (some sig.result) inner) fun t => ?_
      exact comp.checkAssignable t sig.result ⟨_, own _ (inner (Expr.mem_nodes e)), rfl⟩
    · exact comp.bind (typeOfExpr e none inner) fun _ => comp.pure ()
  | .expr m e, inside =>
    comp.bind (typeOfExpr e none (Answers.below_left inside)) fun _ => comp.pure ()

theorem checkStmts : ∀ ss : List (Stmt Mark), stmtsNodes ss ⊆ N →
    C fun o => (cx.asking o).checkStmts ss
  | [], _ => comp.pure ()
  | s :: ss, inside =>
    comp.bind (checkStmt s (Answers.below_left inside)) fun _ =>
      checkStmts ss (Answers.below_right inside)
end

theorem typeOfVal (d : ValDecl Mark) (inside : Stmt.nodes (.val d) ⊆ N) :
    C fun o => (cx.asking o).typeOfVal d := by
  obtain ⟨m, kind, name, ty, e⟩ := d
  cases ty with
  | some ty =>
    exact comp.typeOfNode ty fun n member =>
      own n (inside (List.mem_append_left _ (List.mem_append_left _
        (List.mem_cons_of_mem _ member))))
  | none =>
    refine comp.bind (comp.typeOfExpr ground program own e none
      (Answers.below_right (Answers.below_left inside))) fun t => ?_
    exact branch (q := kind = .finalVal ∧ cx.options.inferFinalSingleton = true) (comp.pure t)
      (comp.pure t.widenLiteral)

end

end Located

theorem Mark.exists_span (span : Span) : ∃ m : Mark, True ∧ m.span = span :=
  ⟨⟨0, span, []⟩, trivial, rfl⟩

namespace Thorough

variable {cx : Context} {C : {α : Type} → (Oracle → Check α) → Prop} (comp : Thorough cx C)
include comp

/-- What holds of all steps holds of those at some nodes. -/
theorem located (M : Mark → Prop) : Located cx M C where
  still still := comp.still still.toStill
  bind := comp.bind
  ask q posed _ := comp.ask q posed
  isSubtype := comp.isSubtype
  lub := comp.lub

theorem anywhere : Located cx (fun _ => True) C := comp.located _

theorem typeOfNode (node : TyNode Mark) : C fun o => (cx.asking o).typeOfNode node :=
  comp.anywhere.typeOfNode node fun _ _ => trivial

theorem typeOfParam (q : Param Mark) : C fun o => (cx.asking o).typeOfParam q :=
  comp.anywhere.typeOfParam q fun _ _ => trivial

variable (ground : cx.Grounded)
include ground

theorem typeOfExpr (e : Expr Mark) (expected : Option Ty) (inside : e.nodes ⊆ cx.program.nodes) :
    C fun o => (cx.asking o).typeOfExpr e expected :=
  comp.anywhere.typeOfExpr ground (List.Subset.refl _) (fun _ _ => trivial) e expected inside

theorem typeOfVal (d : ValDecl Mark) (node : .stmt (.val d) ∈ cx.program.nodes) :
    C fun o => (cx.asking o).typeOfVal d :=
  comp.anywhere.typeOfVal ground (List.Subset.refl _) (fun _ _ => trivial) d
    fun _ below => Program.mem_below node below

theorem check : C fun o => (cx.asking o).checkStmts cx.program.stmts :=
  comp.anywhere.checkStmts ground (List.Subset.refl _) (fun _ _ => trivial) _
    (List.subset_append_left _ _)

end Thorough

end Solo

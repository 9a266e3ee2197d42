import Solo.Proofs.Demands

/-!
# Answers to demands are kept

While goals are in progress a demand may be answered before its goal is settled: with the error
type, and the goal is marked. So an answer is a promise. A promise is fulfilled already, or a goal
in progress will fulfil it, since a marked goal is settled with the error type. In an `Orderly`
state a demand has at most one promised answer, and every action of the checker keeps the promises
of the states before it (`Follows`).
-/

namespace Solo

/-- A goal in progress turned out to need itself. -/
def Checker.Loops (c : Checker) (g : Goal) : Prop := ⟨g, true⟩ ∈ c.pursuits

def TargetPromised (c : Checker) (x : SymbolId) (t : Ty) : Prop :=
  c.aliasTargets.find? x = some t ∨ t = .error ∧ c.Loops (.targetOf x)

namespace Context

variable (cx : Context)

/-- A symbol whose type is looked for in a declaration. -/
def Typable (x : SymbolId) : Prop :=
  (cx.symbol x).role.isBinding = true ∧ (cx.symbol x).decls ≠ []

/-! ### Promises -/

def TypePromised (c : Checker) (x : SymbolId) (t : Ty) : Prop :=
  c.symbolTypes.find? x = some t ∨ t = .error ∧ (¬cx.Typable x ∨ c.Loops (.typeOf x))

def ParamsPromised (c : Checker) : List (Param Mark) → List Ty → Prop :=
  List.Forall₂ fun q t => ∃ x, cx.targets.find? q.mark.id = some x ∧ cx.TypePromised c x t

/-- The signature of a function whose result is still looked for. -/
structure ResultAwaited (c : Checker) (d : FnDecl Mark) (sig : Signature) : Prop where
  loops : c.Loops (.resultOf d.mark.id)
  decl : sig.decl = d
  symbol : sig.symbol = (cx.targets.find? d.mark.id).getD Symbol.unresolvedId
  params : cx.ParamsPromised c d.params sig.params
  result : sig.result = .error

def SignaturePromised (c : Checker) (d : FnDecl Mark) (sig : Signature) : Prop :=
  c.signatures.find? d.mark.id = some sig ∨ cx.ResultAwaited c d sig

/-- An answer to a demand that is settled, or that a goal in progress will be settled with. -/
def Promised (c : Checker) : (q : Demand) → q.Answer → Prop
  | .typeOf x, t => cx.TypePromised c x t
  | .aliasTarget x _, t => TargetPromised c x t
  | .signature d, sig => cx.SignaturePromised c d sig

/-- The goals in progress are all different, and none is settled. -/
structure Orderly (c : Checker) : Prop where
  once : (c.pursuits.map (·.goal)).Nodup
  unsettled : ∀ q ∈ c.pursuits, c.isSettled q.goal = false
  inferring : ∀ q ∈ c.pursuits, ∀ i, q.goal = .resultOf i →
    ∃ d, .stmt (.fn d) ∈ cx.program.nodes ∧ d.mark.id = i ∧ d.result = none
  typable : ∀ x t, c.symbolTypes.find? x = some t → cx.Typable x

/-- A later state, in which all promises are kept. -/
structure Follows (c c' : Checker) : Prop where
  orderly : cx.Orderly c'
  kept : ∀ q, cx.Poses q → ∀ a, cx.Promised c q a → cx.Promised c' q a

end Context

section
variable {cx : Context} {c c₁ c₂ : Checker}

namespace Context.Orderly

theorem open_of_loops (orderly : cx.Orderly c) {g : Goal} (loops : c.Loops g) :
    c.isSettled g = false :=
  orderly.unsettled _ loops

theorem type_unique (orderly : cx.Orderly c) {x : SymbolId} {t u : Ty}
    (first : cx.TypePromised c x t) (second : cx.TypePromised c x u) : t = u := by
  have settled : ∀ {t}, c.symbolTypes.find? x = some t →
      ¬(¬cx.Typable x ∨ c.Loops (.typeOf x)) := by
    rintro t found (untyped | loops)
    · exact untyped (orderly.typable x t found)
    · have missing := Table.contains_eq_false.mp (orderly.open_of_loops loops)
      rw [missing] at found
      cases found
  rcases first with found | ⟨rfl, awaited⟩
  · rcases second with found' | ⟨_, awaited'⟩
    · exact Option.some.inj (found.symm.trans found')
    · exact absurd awaited' (settled found)
  · rcases second with found' | ⟨rfl, _⟩
    · exact absurd awaited (settled found')
    · rfl

theorem target_unique (orderly : cx.Orderly c) {x : SymbolId} {t u : Ty}
    (first : TargetPromised c x t) (second : TargetPromised c x u) : t = u := by
  have settled : ∀ {t}, c.aliasTargets.find? x = some t → ¬c.Loops (.targetOf x) := by
    intro t found loops
    have missing := Table.contains_eq_false.mp (orderly.open_of_loops loops)
    rw [missing] at found
    cases found
  rcases first with found | ⟨rfl, awaited⟩
  · rcases second with found' | ⟨_, awaited'⟩
    · exact Option.some.inj (found.symm.trans found')
    · exact absurd awaited' (settled found)
  · rcases second with found' | ⟨rfl, _⟩
    · exact absurd awaited (settled found')
    · rfl

theorem params_unique (orderly : cx.Orderly c) {qs : List (Param Mark)} {ts us : List Ty}
    (first : cx.ParamsPromised c qs ts) (second : cx.ParamsPromised c qs us) : ts = us := by
  induction first generalizing us with
  | nil =>
    cases second
    rfl
  | cons head _ ih =>
    cases second with
    | cons head' rest' =>
      obtain ⟨x, target, promised⟩ := head
      obtain ⟨x', target', promised'⟩ := head'
      cases target.symm.trans target'
      rw [orderly.type_unique promised promised', ih rest']

theorem signature_unique (orderly : cx.Orderly c) {d : FnDecl Mark} {sig sig' : Signature}
    (first : cx.SignaturePromised c d sig) (second : cx.SignaturePromised c d sig') :
    sig = sig' := by
  have settled : ∀ {s}, c.signatures.find? d.mark.id = some s →
      ¬c.Loops (.resultOf d.mark.id) := by
    intro s found loops
    have missing := Table.contains_eq_false.mp (orderly.open_of_loops loops)
    rw [missing] at found
    cases found
  rcases first with found | awaited
  · rcases second with found' | awaited'
    · exact Option.some.inj (found.symm.trans found')
    · exact absurd awaited'.loops (settled found)
  · rcases second with found' | awaited'
    · exact absurd awaited.loops (settled found')
    · obtain ⟨decl, symbol, params, result⟩ := sig
      obtain ⟨decl', symbol', params', result'⟩ := sig'
      obtain rfl : decl = d := awaited.decl
      obtain rfl : decl' = decl := awaited'.decl
      obtain rfl : symbol = symbol' := awaited.symbol.trans awaited'.symbol.symm
      obtain rfl : params = params' := orderly.params_unique awaited.params awaited'.params
      obtain rfl : result = result' := awaited.result.trans awaited'.result.symm
      rfl

end Context.Orderly

theorem Context.ParamsPromised.imp {qs : List (Param Mark)} {ts : List Ty}
    (promised : cx.ParamsPromised c qs ts)
    (kept : ∀ x t, cx.TypePromised c x t → cx.TypePromised c₁ x t) :
    cx.ParamsPromised c₁ qs ts :=
  List.Forall₂.imp (fun _ _ ⟨x, target, own⟩ => ⟨x, target, kept x _ own⟩) promised

namespace Context.Follows

theorem refl (orderly : cx.Orderly c) : cx.Follows c c := ⟨orderly, fun _ _ _ promised => promised⟩

theorem trans (first : cx.Follows c c₁) (second : cx.Follows c₁ c₂) : cx.Follows c c₂ :=
  ⟨second.orderly, fun q posed a promised => second.kept q posed a (first.kept q posed a promised)⟩

/-- It is enough that each kind of promise is kept. -/
theorem of_kept (orderly : cx.Orderly c₁)
    (types : ∀ x t, cx.TypePromised c x t → cx.TypePromised c₁ x t)
    (targets : ∀ x t, TargetPromised c x t → TargetPromised c₁ x t)
    (signatures : ∀ d, .stmt (.fn d) ∈ cx.program.nodes → ∀ sig,
      cx.SignaturePromised c d sig → cx.SignaturePromised c₁ d sig) : cx.Follows c c₁ where
  orderly := orderly
  kept q posed a promised := by
    cases q with
    | typeOf x => exact types x a promised
    | aliasTarget x span => exact targets x a promised
    | signature d => exact signatures d posed a promised

theorem type (follows : cx.Follows c c₁) {x : SymbolId} {t : Ty}
    (promised : cx.TypePromised c x t) : cx.TypePromised c₁ x t :=
  follows.kept (.typeOf x) trivial t promised

theorem params (follows : cx.Follows c c₁) {qs : List (Param Mark)} {ts : List Ty}
    (promised : cx.ParamsPromised c qs ts) : cx.ParamsPromised c₁ qs ts :=
  promised.imp fun _ _ => follows.type

end Context.Follows

/-! ### Steps keep promises -/

/-- The signatures of functions stay where only calls are given one. -/
theorem Context.Frame.signature (ground : cx.Grounded) (frame : cx.Frame c c₁) {d : FnDecl Mark}
    (node : .stmt (.fn d) ∈ cx.program.nodes) :
    c₁.signatures.find? d.mark.id = c.signatures.find? d.mark.id := by
  refine frame.signatures _ fun m f args call same => ?_
  cases ground.node_unique call node same

theorem Context.Frame.follows (ground : cx.Grounded) (frame : cx.Frame c c₁)
    (orderly : cx.Orderly c) : cx.Follows c c₁ := by
  have types : ∀ x t, cx.TypePromised c x t → cx.TypePromised c₁ x t := by
    intro x t promised
    rwa [TypePromised, Checker.Loops, frame.symbolTypes, frame.pursuits]
  refine .of_kept ⟨?_, ?_, ?_, ?_⟩ types (fun x t promised => ?_) fun d node sig promised => ?_
  · rw [frame.pursuits]
    exact orderly.once
  · rw [frame.pursuits]
    intro q member
    have before := orderly.unsettled q member
    cases goal : q.goal with
    | resultOf i =>
      obtain ⟨d, node, rfl, _⟩ := orderly.inferring q member i goal
      rw [goal] at before
      simpa [Checker.isSettled, Table.contains, frame.signature ground node] using before
    | _ =>
      rw [goal] at before
      simpa [Checker.isSettled, frame.symbolTypes, frame.aliasTargets] using before
  · rw [frame.pursuits]
    exact orderly.inferring
  · rw [frame.symbolTypes]
    exact orderly.typable
  · rwa [TargetPromised, Checker.Loops, frame.aliasTargets, frame.pursuits]
  · rcases promised with found | ⟨loops, decl, symbol, params, result⟩
    · exact .inl ((frame.signature ground node).trans found)
    · refine .inr ⟨?_, decl, symbol, params.imp types, result⟩
      rwa [Checker.Loops, frame.pursuits]

/-- Other goals in progress, with all marks there were. -/
theorem Context.Follows.of_pursuits {ps : List Pursuit}
    (orderly : cx.Orderly { c with pursuits := ps })
    (kept : ∀ g, c.Loops g → ⟨g, true⟩ ∈ ps) : cx.Follows c { c with pursuits := ps } := by
  have types : ∀ x t, cx.TypePromised c x t → cx.TypePromised { c with pursuits := ps } x t :=
    fun x t promised => promised.imp id fun ⟨same, awaited⟩ => ⟨same, awaited.imp id (kept _)⟩
  refine .of_kept orderly types (fun x t promised => ?_) fun d _ sig promised => ?_
  · exact promised.imp id fun ⟨same, loops⟩ => ⟨same, kept _ loops⟩
  · exact promised.imp id fun awaited =>
      { awaited with loops := kept _ awaited.loops, params := awaited.params.imp types }

theorem Checker.Marks.mem {ps qs : List Pursuit} {g : Goal} (marks : Marks ps qs)
    (member : ⟨g, true⟩ ∈ ps) : ⟨g, true⟩ ∈ qs := by
  induction marks with
  | nil => cases member
  | @cons p q ps qs head _ ih =>
    rcases List.mem_cons.mp member with rfl | later
    · obtain ⟨goal, looped⟩ := q
      obtain ⟨rfl, marked⟩ := head
      rw [show looped = true from marked rfl]
      exact List.mem_cons_self
    · exact List.mem_cons_of_mem q (ih later)

theorem Checker.Marks.mem_goal {ps qs : List Pursuit} {q : Pursuit} (marks : Marks ps qs)
    (member : q ∈ qs) : ∃ p ∈ ps, p.goal = q.goal := by
  have same := List.mem_map_of_mem (f := (·.goal)) member
  rw [marks.goals] at same
  exact List.mem_map.mp same

theorem markLoop?_goal {settled : Goal → Bool} {goal : Goal} {ps qs : List Pursuit}
    (found : markLoop? settled goal ps = some qs) : ⟨goal, true⟩ ∈ qs := by
  induction ps generalizing qs with
  | nil => cases found
  | cons p ps ih =>
    rw [markLoop?] at found
    split at found
    · cases found
    · split at found
      · next same =>
        cases found
        exact same ▸ List.mem_cons_self
      · obtain ⟨rs, found', rfl⟩ := Option.map_eq_some_iff.mp found
        exact List.mem_cons_of_mem _ (ih found')

namespace Context.Orderly

theorem marked (orderly : cx.Orderly c) {ps : List Pursuit}
    (marks : Checker.Marks c.pursuits ps) : cx.Orderly { c with pursuits := ps } := by
  have goals : ∀ q ∈ ps, ∃ p ∈ c.pursuits, q.goal = p.goal := fun q member =>
    (marks.mem_goal member).imp fun _ found => ⟨found.1, found.2.symm⟩
  refine { orderly with once := ?_, unsettled := ?_, inferring := ?_ }
  · exact marks.goals ▸ orderly.once
  · intro q member
    obtain ⟨p, inside, same⟩ := goals q member
    rw [same]
    exact orderly.unsettled p inside
  · intro q member i goal
    obtain ⟨p, inside, same⟩ := goals q member
    exact orderly.inferring p inside i (same.symm.trans goal)

theorem follows_marked (orderly : cx.Orderly c) {ps : List Pursuit}
    (marks : Checker.Marks c.pursuits ps) : cx.Follows c { c with pursuits := ps } :=
  Follows.of_pursuits (orderly.marked marks) fun _ loops => marks.mem loops

theorem follows_begun (orderly : cx.Orderly c) {g : Goal} (unsettled : c.isSettled g = false)
    (new : ∀ q ∈ c.pursuits, q.goal ≠ g)
    (inferring : ∀ i, g = .resultOf i →
      ∃ d, .stmt (.fn d) ∈ cx.program.nodes ∧ d.mark.id = i ∧ d.result = none) :
    cx.Follows c { c with pursuits := ⟨g, false⟩ :: c.pursuits } := by
  refine Follows.of_pursuits { orderly with once := ?_, unsettled := ?_, inferring := ?_ }
    fun _ loops => List.mem_cons_of_mem _ loops
  · rw [List.map_cons, List.nodup_cons]
    refine ⟨fun member => ?_, orderly.once⟩
    obtain ⟨q, inside, same⟩ := List.mem_map.mp member
    exact new q inside same
  · intro q member
    rcases List.mem_cons.mp member with rfl | outer
    · exact unsettled
    · exact orderly.unsettled q outer
  · intro q member
    rcases List.mem_cons.mp member with rfl | outer
    · exact inferring
    · exact orderly.inferring q outer

/-- The innermost goal is not settled, and no other goal in progress is the same. -/
theorem innermost (orderly : cx.Orderly c) {p : Pursuit} {outer : List Pursuit}
    (pursuits : c.pursuits = p :: outer) :
    cx.Orderly { c with pursuits := outer } ∧ (∀ q ∈ outer, q.goal ≠ p.goal) ∧
      c.isSettled p.goal = false := by
  have once := orderly.once
  have unsettled := orderly.unsettled
  have inferring := orderly.inferring
  rw [pursuits] at once unsettled inferring
  rw [List.map_cons, List.nodup_cons] at once
  refine ⟨{ orderly with once := once.2, unsettled := ?_, inferring := ?_ }, ?_, ?_⟩
  · exact fun q member => unsettled q (List.mem_cons_of_mem p member)
  · exact fun q member => inferring q (List.mem_cons_of_mem p member)
  · exact fun q member same => once.1 (List.mem_map.mpr ⟨q, member, same⟩)
  · exact unsettled p List.mem_cons_self

/-- A goal that loops is the innermost one, or still in progress without it. -/
theorem loops_cases {p : Pursuit} {outer : List Pursuit} (pursuits : c.pursuits = p :: outer)
    {g : Goal} (loops : c.Loops g) : (p.goal = g ∧ p.looped = true) ∨ ⟨g, true⟩ ∈ outer := by
  rw [Checker.Loops, pursuits] at loops
  rcases List.mem_cons.mp loops with rfl | inside
  · exact .inl ⟨rfl, rfl⟩
  · exact .inr inside

end Context.Orderly

/-! ### Settled goals keep promises -/

namespace Context.Orderly

/-- A goal that nothing else looks for is settled. -/
theorem settled (orderly : cx.Orderly c) {g : Goal} (pursuits : c₁.pursuits = c.pursuits)
    (alone : ∀ q ∈ c.pursuits, q.goal ≠ g)
    (others : ∀ h, h ≠ g → c₁.isSettled h = c.isSettled h)
    (typable : ∀ x t, c₁.symbolTypes.find? x = some t → cx.Typable x) : cx.Orderly c₁ := by
  refine ⟨?_, ?_, ?_, typable⟩
  · rw [pursuits]
    exact orderly.once
  · rw [pursuits]
    intro q member
    rw [others _ (alone q member)]
    exact orderly.unsettled q member
  · rw [pursuits]
    exact orderly.inferring

end Context.Orderly

theorem isSettled_of_settleType {x : SymbolId} {t : Ty} {ps : List Pursuit} {g : Goal}
    (other : g ≠ .typeOf x) : Checker.isSettled
      { c with pursuits := ps, symbolTypes := c.symbolTypes.insertNew x t } g = c.isSettled g := by
  cases g with
  | typeOf y =>
    have apart : y ≠ x := by
      rintro rfl
      exact other rfl
    simp [Checker.isSettled, Table.contains, Table.find?_insertNew_other apart]
  | _ => rfl

theorem isSettled_of_settleTarget {x : SymbolId} {t : Ty} {ps : List Pursuit} {g : Goal}
    (other : g ≠ .targetOf x) : Checker.isSettled
      { c with pursuits := ps, aliasTargets := c.aliasTargets.insertNew x t } g =
        c.isSettled g := by
  cases g with
  | targetOf y =>
    have apart : y ≠ x := by
      rintro rfl
      exact other rfl
    simp [Checker.isSettled, Table.contains, Table.find?_insertNew_other apart]
  | _ => rfl

theorem isSettled_of_settleSignature {i : NodeId} {sig : Signature} (ps : List Pursuit) {g : Goal}
    (other : g ≠ .resultOf i) : Checker.isSettled
      { c with pursuits := ps, signatures := c.signatures.insertNew i sig } g =
        c.isSettled g := by
  cases g with
  | resultOf j =>
    have apart : j ≠ i := by
      rintro rfl
      exact other rfl
    simp [Checker.isSettled, Table.contains, Table.find?_insertNew_other apart]
  | _ => rfl

namespace Context.Orderly

variable {p : Pursuit} {outer : List Pursuit}

/-- The type of a binding is found; it is the error type if the binding needed itself. -/
theorem follows_settleType (orderly : cx.Orderly c) (pursuits : c.pursuits = p :: outer)
    {x : SymbolId} {t : Ty} (goal : p.goal = .typeOf x) (typable : cx.Typable x)
    (error : p.looped = true → t = .error) :
    cx.Follows c { c with pursuits := outer, symbolTypes := c.symbolTypes.insertNew x t } ∧
      (c.symbolTypes.insertNew x t).find? x = some t := by
  obtain ⟨orderly', alone, unsettled⟩ := orderly.innermost pursuits
  rw [goal] at alone unsettled
  have own : (c.symbolTypes.insertNew x t).find? x = some t :=
    Table.find?_insertNew_self (Table.contains_eq_false.mp unsettled)
  refine ⟨?_, own⟩
  have types : ∀ y u, cx.TypePromised c y u → cx.TypePromised
      { c with pursuits := outer, symbolTypes := c.symbolTypes.insertNew x t } y u := by
    rintro y u (found | ⟨rfl, untyped | loops⟩)
    · exact .inl (Table.find?_insertNew_of_some found)
    · exact .inr ⟨rfl, .inl untyped⟩
    · rcases loops_cases pursuits loops with ⟨same, looped⟩ | inside
      · cases goal.symm.trans same
        rw [error looped] at own ⊢
        exact .inl own
      · exact .inr ⟨rfl, .inr inside⟩
  refine .of_kept (orderly'.settled rfl alone (fun g other => isSettled_of_settleType other) ?_)
    types (fun y u promised => ?_) fun d _ sig promised => ?_
  · intro y u found
    by_cases same : y = x
    · exact same ▸ typable
    · rw [Table.find?_insertNew_other same] at found
      exact orderly.typable y u found
  · refine promised.imp id fun ⟨same, loops⟩ => ⟨same, ?_⟩
    rcases loops_cases pursuits loops with ⟨wrong, _⟩ | inside
    · cases goal.symm.trans wrong
    · exact inside
  · refine promised.imp id fun awaited =>
      { awaited with loops := ?_, params := awaited.params.imp types }
    rcases loops_cases pursuits awaited.loops with ⟨wrong, _⟩ | inside
    · cases goal.symm.trans wrong
    · exact inside

theorem follows_settleTarget (orderly : cx.Orderly c) (pursuits : c.pursuits = p :: outer)
    {x : SymbolId} {t : Ty} (goal : p.goal = .targetOf x) (error : p.looped = true → t = .error) :
    cx.Follows c { c with pursuits := outer, aliasTargets := c.aliasTargets.insertNew x t } ∧
      (c.aliasTargets.insertNew x t).find? x = some t := by
  obtain ⟨orderly', alone, unsettled⟩ := orderly.innermost pursuits
  rw [goal] at alone unsettled
  have own : (c.aliasTargets.insertNew x t).find? x = some t :=
    Table.find?_insertNew_self (Table.contains_eq_false.mp unsettled)
  refine ⟨?_, own⟩
  have types : ∀ y u, cx.TypePromised c y u → cx.TypePromised
      { c with pursuits := outer, aliasTargets := c.aliasTargets.insertNew x t } y u := by
    refine fun y u promised => promised.imp id fun ⟨same, awaited⟩ =>
      ⟨same, awaited.imp id fun loops => ?_⟩
    rcases loops_cases pursuits loops with ⟨wrong, _⟩ | inside
    · cases goal.symm.trans wrong
    · exact inside
  refine .of_kept (orderly'.settled rfl alone (fun g other => isSettled_of_settleTarget other)
    orderly.typable) types (fun y u promised => ?_) fun d _ sig promised => ?_
  · rcases promised with found | ⟨rfl, loops⟩
    · exact .inl (Table.find?_insertNew_of_some found)
    · rcases loops_cases pursuits loops with ⟨same, looped⟩ | inside
      · cases goal.symm.trans same
        rw [error looped] at own ⊢
        exact .inl own
      · exact .inr ⟨rfl, inside⟩
  · refine promised.imp id fun awaited =>
      { awaited with loops := ?_, params := awaited.params.imp types }
    rcases loops_cases pursuits awaited.loops with ⟨wrong, _⟩ | inside
    · cases goal.symm.trans wrong
    · exact inside

/-- The result of a function is found; its parameters are what they were promised to be. -/
theorem follows_settleResult (ground : cx.Grounded) (orderly : cx.Orderly c)
    (pursuits : c.pursuits = p :: outer) {d : FnDecl Mark}
    (node : .stmt (.fn d) ∈ cx.program.nodes) {ts : List Ty} {t : Ty}
    (goal : p.goal = .resultOf d.mark.id) (params : cx.ParamsPromised c d.params ts)
    (error : p.looped = true → t = .error) {sig : Signature}
    (is : sig = ⟨d, (cx.targets.find? d.mark.id).getD Symbol.unresolvedId, ts, t⟩) :
    cx.Follows c
        { c with pursuits := outer, signatures := c.signatures.insertNew d.mark.id sig } ∧
      (c.signatures.insertNew d.mark.id sig).find? d.mark.id = some sig := by
  obtain ⟨orderly', alone, unsettled⟩ := orderly.innermost pursuits
  rw [goal] at alone unsettled
  have own : (c.signatures.insertNew d.mark.id sig).find? d.mark.id = some sig :=
    Table.find?_insertNew_self (Table.contains_eq_false.mp unsettled)
  refine ⟨?_, own⟩
  have types : ∀ y u, cx.TypePromised c y u → cx.TypePromised
      { c with pursuits := outer, signatures := c.signatures.insertNew d.mark.id sig } y u := by
    refine fun y u promised => promised.imp id fun ⟨same, awaited⟩ =>
      ⟨same, awaited.imp id fun loops => ?_⟩
    rcases loops_cases pursuits loops with ⟨wrong, _⟩ | inside
    · cases goal.symm.trans wrong
    · exact inside
  refine .of_kept (orderly'.settled rfl alone (fun g other => isSettled_of_settleSignature outer other)
    orderly.typable) types (fun y u promised => ?_) fun d' node' sig' promised => ?_
  · refine promised.imp id fun ⟨same, loops⟩ => ⟨same, ?_⟩
    rcases loops_cases pursuits loops with ⟨wrong, _⟩ | inside
    · cases goal.symm.trans wrong
    · exact inside
  · rcases promised with found | awaited
    · exact .inl (Table.find?_insertNew_of_some found)
    · rcases loops_cases pursuits awaited.loops with ⟨same, looped⟩ | inside
      · -- the awaited signature is the one that is found
        have id : d'.mark.id = d.mark.id := (Goal.resultOf.inj (goal.symm.trans same)).symm
        cases ground.node_unique node' node id
        have promised : cx.ResultAwaited c d sig := by
          subst is
          exact ⟨awaited.loops, rfl, rfl, params, error looped⟩
        rw [orderly.signature_unique (.inr awaited) (.inr promised)]
        exact .inl own
      · exact .inr { awaited with loops := inside, params := awaited.params.imp types }

/-- A signature with a declared result is found; no goal looks for it. -/
theorem follows_keepDeclared (ground : cx.Grounded) (orderly : cx.Orderly c) {d : FnDecl Mark}
    (node : .stmt (.fn d) ∈ cx.program.nodes) (declared : d.result ≠ none)
    (sig : Signature) :
    cx.Follows c { c with signatures := c.signatures.insertNew d.mark.id sig } := by
  have alone : ∀ q ∈ c.pursuits, q.goal ≠ .resultOf d.mark.id := by
    intro q member goal
    obtain ⟨d', node', same, inferred⟩ := orderly.inferring q member _ goal
    cases ground.node_unique node' node same
    exact declared inferred
  refine .of_kept (orderly.settled rfl alone
    (fun g other => isSettled_of_settleSignature c.pursuits other) orderly.typable)
    (fun _ _ promised => promised) (fun _ _ promised => promised) fun d' _ sig' promised => ?_
  exact promised.imp Table.find?_insertNew_of_some fun awaited => { awaited with }

end Context.Orderly

end

end Solo

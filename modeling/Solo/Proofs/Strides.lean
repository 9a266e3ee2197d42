import Solo.Proofs.Comparisons

/-!
# Runs from upright states

A checker is `Upright` if its goals in progress are in order and its kept answers about subtypes are
those of the closed form. Whatever it is asked, it stays so, and a later state has all its entries,
reports and promises. This holds of every program, also of one with errors.
-/

namespace Solo

namespace Context

variable (cx : Context)

structure Upright (c : Checker) : Prop where
  orderly : cx.Orderly c
  compared : ∀ s t b, c.subtypes.find? (s, t) = some b → cx.Compares c s t b

/-- A later state with the same goals in progress. -/
structure Strides (c c' : Checker) : Prop extends c.Touches (fun _ => True) c' where
  follows : cx.Follows c c'
  marks : Checker.Marks c.pursuits c'.pursuits

/-- An action that leads from upright states to upright states after them. -/
abbrev Striding {α : Type} (a : Check α) : Prop := Check.Proceeds cx.Upright cx.Strides a

end Context

section
variable {cx : Context} {c c₁ c₂ : Checker} {o : Oracle} {α β : Type} {a : Check α}

namespace Context

theorem Strides.refl (orderly : cx.Orderly c) : cx.Strides c c where
  toTouches := .refl _ c
  follows := .refl orderly
  marks := .refl _

theorem Strides.trans (first : cx.Strides c c₁) (second : cx.Strides c₁ c₂) : cx.Strides c c₂ where
  toTouches := first.toTouches.trans second.toTouches
  follows := first.follows.trans second.follows
  marks := first.marks.trans second.marks

theorem Upright.later (upright : cx.Upright c) (follows : cx.Follows c c₁)
    (same : c₁.subtypes = c.subtypes) : cx.Upright c₁ where
  orderly := follows.orderly
  compared s t b found := (upright.compared s t b (same ▸ found)).kept follows

/-! ### Steps -/

theorem Striding.still (ground : cx.Grounded) (still : StillAt cx (fun _ => True) a) :
    cx.Striding a := by
  intro c upright x c' run
  have frame := still.frame c x c' run
  have follows := frame.follows ground upright.orderly
  exact ⟨upright.later follows (still.subtypes c x c' run),
    { toTouches := still.touches c x c' run, follows, marks := frame.pursuits ▸ .refl _ }⟩

theorem Upright.keep (ground : cx.Grounded) (upright : cx.Upright c) {s t : Ty} {b : Bool}
    (compares : cx.Compares c s t b) :
    cx.Upright { c with subtypes := c.subtypes.insert (s, t) b } ∧
      cx.Strides c { c with subtypes := c.subtypes.insert (s, t) b } := by
  have follows : cx.Follows c { c with subtypes := c.subtypes.insert (s, t) b } :=
    Frame.follows ground ⟨rfl, rfl, rfl, fun _ _ => rfl⟩ upright.orderly
  refine ⟨⟨follows.orderly, fun s' t' b' found => ?_⟩,
    { toTouches := .of_eq rfl rfl rfl, follows, marks := .refl _ }⟩
  rw [Table.find?_insert] at found
  split at found
  · next same =>
    cases same
    cases found
    exact compares.kept follows
  · exact (upright.compared s' t' b' found).kept follows

/-- An oracle that keeps promises and leads from upright states to upright ones. -/
structure Steadfast (cx : Context) (o : Oracle) : Prop where
  faithful : Faithful cx o
  strides : ∀ q, cx.Poses q → cx.Striding (o q)

end Context

namespace Context.Steadfast

variable (steadfast : cx.Steadfast o) (ground : cx.Grounded)
include steadfast ground

omit ground in
theorem rises (orderly : cx.Orderly c) {s u : Ty}
    (run : (cx.asking o).widen s c = .ok (u, c₁)) : cx.Rises c₁ s u := by
  cases s with
  | path x => exact (steadfast.faithful.meets (.typeOf x) trivial c orderly u c₁ run).2.2
  | _ =>
    cases run
    rfl

/-- An upright checker judges by its own promises. -/
theorem judges : cx.Judges (cx.asking o) cx.Upright cx.Strides id where
  refl _ upright := .refl upright.orderly
  trans _ _ _ := .trans
  follows _ _ strides := strides.follows
  compared _ upright := upright.compared
  widen c upright s u c₁ run := by
    have rises := steadfast.rises upright.orderly run
    cases s with
    | path x =>
      obtain ⟨upright', strides⟩ := steadfast.strides (.typeOf x) trivial c upright u c₁ run
      exact ⟨upright', strides, rises⟩
    | _ =>
      cases run
      exact ⟨upright, .refl upright.orderly, rises⟩
  keep c upright s t b compares := upright.keep ground compares

/-- All of checking leads from upright states to upright ones. -/
theorem located : Located cx (fun _ => True) fun act => cx.Striding (act o) :=
  (steadfast.judges ground).located (fun still => Striding.still ground still)
    fun q posed _ => steadfast.strides q posed

end Context.Steadfast

/-! ### Goals -/

/-- A search is refused, or its goal is begun and given up in the end. -/
theorem search_ok {g : Goal} {body : Check α} {blocked y : β} {finish : α → Bool → Check β}
    (run : search g body blocked finish c = .ok (y, c₁)) :
    (∃ ps, markLoop? c.isSettled g c.pursuits = some ps ∧ y = blocked ∧
      c₁ = { c with pursuits := ps }) ∨
    markLoop? c.isSettled g c.pursuits = none ∧ ∃ x c₂,
      body { c with pursuits := ⟨g, false⟩ :: c.pursuits } = .ok (x, c₂) ∧
      ∀ p outer, c₂.pursuits = p :: outer →
        finish x p.looped { c₂ with pursuits := outer } = .ok (y, c₁) := by
  cases marked : markLoop? c.isSettled g c.pursuits with
  | some ps =>
    cases (search_blocked marked).symm.trans run
    exact .inl ⟨ps, rfl, rfl, rfl⟩
  | none =>
    rw [search_begun marked] at run
    cases found : body { c with pursuits := ⟨g, false⟩ :: c.pursuits } with
    | error e =>
      rw [found] at run
      cases run
    | ok r =>
      rw [found] at run
      refine .inr ⟨rfl, r.1, r.2, rfl, fun p outer pursuits => ?_⟩
      obtain ⟨looped, c₃, concluded, ended⟩ := Check.bind_ok run
      rw [Check.conclude_apply, pursuits] at concluded
      cases concluded
      exact ended

theorem Context.Upright.search {g : Goal} {body : Check α} {blocked y : β}
    {finish : α → Bool → Check β} (upright : cx.Upright c) (unsettled : c.isSettled g = false)
    (inferring : ∀ i, g = .resultOf i →
      ∃ d, .stmt (.fn d) ∈ cx.program.nodes ∧ d.mark.id = i ∧ d.result = none)
    (finds : cx.Striding body)
    (ends : ∀ x c₂ p outer, cx.Follows c c₂ → c₂.pursuits = p :: outer → p.goal = g →
      ∀ y c', finish x p.looped { c₂ with pursuits := outer } = .ok (y, c') →
        cx.Follows c₂ c' ∧ c'.pursuits = outer ∧ c'.subtypes = c₂.subtypes ∧
          Checker.Touches (fun _ => True) { c₂ with pursuits := outer } c')
    (run : search g body blocked finish c = .ok (y, c₁)) : cx.Upright c₁ ∧ cx.Strides c c₁ := by
  have orderly := upright.orderly
  rcases search_ok run with ⟨ps, marked, rfl, rfl⟩ | ⟨new, x, c₂, found, ended⟩
  · obtain ⟨marks, _⟩ := markLoop?_some marked
    have follows := orderly.follows_marked marks
    exact ⟨upright.later follows rfl, { toTouches := .of_eq rfl rfl rfl, follows, marks }⟩
  · have begins := orderly.follows_begun unsettled (markLoop?_none orderly.unsettled new) inferring
    obtain ⟨upright₂, strides⟩ := finds _ (upright.later begins rfl) x c₂ found
    obtain ⟨p, outer, ⟨goal, _⟩, outside, pursuits⟩ := List.forall₂_cons_left_iff.mp strides.marks
    obtain ⟨follows, left, subtypes, touches⟩ := ends x c₂ p outer (begins.trans strides.follows)
      pursuits goal _ _ (ended p outer pursuits)
    have aside : ∀ (c : Checker) ps, c.Touches (fun _ => True) { c with pursuits := ps } :=
      fun _ _ => .of_eq rfl rfl rfl
    exact ⟨upright₂.later follows subtypes,
      { toTouches := ((aside c _).trans strides.toTouches).trans ((aside c₂ outer).trans touches)
        follows := (begins.trans strides.follows).trans follows
        marks := left ▸ outside }⟩

/-! ### Demands -/

section
variable {x : SymbolId} {span : Span} {name : String} {t u : Ty} {looped : Bool}

theorem Check.settleType_touches (run : Check.settleType x span name t looped c = .ok (u, c₁)) :
    c₁.subtypes = c.subtypes ∧ c.Touches (fun _ => True) c₁ := by
  cases looped with
  | true =>
    cases run
    exact ⟨rfl, (Checker.Touches.report (Mark.exists_span span) _).trans (.of_eq rfl rfl rfl)⟩
  | false =>
    cases run
    exact ⟨rfl, .of_eq rfl rfl rfl⟩

theorem Check.settleTarget_touches (run : Check.settleTarget x span name t looped c = .ok (u, c₁)) :
    c₁.subtypes = c.subtypes ∧ c.Touches (fun _ => True) c₁ := by
  cases looped with
  | true =>
    cases run
    exact ⟨rfl, (Checker.Touches.report (Mark.exists_span span) _).trans (.of_eq rfl rfl rfl)⟩
  | false =>
    cases run
    exact ⟨rfl, .of_eq rfl rfl rfl⟩

theorem Check.keep_touches {sig sig' : Signature}
    (run : Resolver.signatureOf.keep sig c = .ok (sig', c₁)) :
    c₁.subtypes = c.subtypes ∧ c.Touches (fun _ => True) c₁ := by
  cases run
  exact ⟨rfl, .signNew trivial sig⟩

theorem Check.settleResult_touches {d : FnDecl Mark} {params : List Ty} {sig : Signature}
    (run : Check.settleResult d x params t looped c = .ok (sig, c₁)) :
    c₁.subtypes = c.subtypes ∧ c.Touches (fun _ => True) c₁ := by
  cases looped with
  | true =>
    obtain ⟨_, c₂, reported, kept⟩ := Check.bind_ok run
    cases reported
    obtain ⟨subtypes, touches⟩ := Check.keep_touches kept
    exact ⟨subtypes, (Checker.Touches.report (Mark.exists_span _) _).trans touches⟩
  | false => exact Check.keep_touches run

end

namespace Context.Steadfast

variable (steadfast : cx.Steadfast o) (ground : cx.Grounded)
include steadfast ground

theorem typeOfSymbol (x : SymbolId) : cx.Striding ((cx.asking o).typeOfSymbol x) := by
  intro c upright t c' run
  cases found : c.symbolTypes.find? x with
  | some u =>
    cases ((cx.asking o).typeOfSymbol_known found).symm.trans run
    exact ⟨upright, .refl upright.orderly⟩
  | none =>
    by_cases typable : cx.Typable x
    · obtain ⟨binding, declared⟩ := typable
      obtain ⟨d, ds, decls⟩ := List.exists_cons_of_ne_nil declared
      have head : (cx.symbol x).decls.head? = some d := by rw [decls]; rfl
      have finds : cx.Striding ((cx.asking o).typeOfDecl d) :=
        (steadfast.located ground).typeOfDecl ground
          (ground.decl x d (List.mem_of_mem_head? head)) fun _ _ => trivial
      rw [(cx.asking o).typeOfSymbol_search found binding head] at run
      refine upright.search (g := .typeOf x) (Table.contains_eq_false.mpr found) nofun finds
        (fun _ c₂ p outer follows pursuits goal _ _ ended => ?_) run
      obtain ⟨settled, left, _⟩ := follows.orderly.settleType ground pursuits goal
        ⟨binding, declared⟩ ended
      obtain ⟨subtypes, touches⟩ := Check.settleType_touches ended
      exact ⟨settled, left, subtypes, touches⟩
    · cases ((cx.asking o).typeOfSymbol_untypable found typable).symm.trans run
      exact ⟨upright, .refl upright.orderly⟩

theorem targetOfAlias (x : SymbolId) (span : Span) :
    cx.Striding ((cx.asking o).targetOfAlias x span) := by
  intro c upright t c' run
  cases found : c.aliasTargets.find? x with
  | some u =>
    cases ((cx.asking o).targetOfAlias_known found).symm.trans run
    exact ⟨upright, .refl upright.orderly⟩
  | none =>
    have finds : cx.Striding ((cx.asking o).typeOfTarget (cx.symbol x).decls.head?) :=
      (steadfast.located ground).typeOfTarget fun _ _ _ _ => trivial
    rw [(cx.asking o).targetOfAlias_search found] at run
    refine upright.search (g := .targetOf x) (Table.contains_eq_false.mpr found) nofun finds
      (fun _ c₂ p outer follows pursuits goal _ _ ended => ?_) run
    obtain ⟨settled, left, _⟩ := follows.orderly.settleTarget ground pursuits goal ended
    obtain ⟨subtypes, touches⟩ := Check.settleTarget_touches ended
    exact ⟨settled, left, subtypes, touches⟩

theorem signatureAfter {d : FnDecl Mark} {ts : List Ty} {sig : Signature}
    (node : .stmt (.fn d) ∈ cx.program.nodes) (upright : cx.Upright c)
    (promised : cx.ParamsPromised c d.params ts) (new : c.signatures.find? d.mark.id = none)
    (run : (cx.asking o).signatureAfter d ts c = .ok (sig, c₁)) :
    cx.Upright c₁ ∧ cx.Strides c c₁ := by
  have located := steadfast.located ground
  simp only [Resolver.signatureAfter, cx.asking_toContext] at run
  cases result : d.result with
  | some ty =>
    rw [result] at run
    obtain ⟨t, c₂, written, kept⟩ := Check.bind_ok run
    obtain ⟨upright₂, strides₂⟩ := located.typeOfNode ty (fun _ _ => trivial) c upright t c₂ written
    obtain ⟨subtypes, touches⟩ := Check.keep_touches kept
    have follows : cx.Follows c₂ c₁ := by
      cases kept
      exact upright₂.orderly.follows_keepDeclared ground node (by simp [result]) _
    refine ⟨upright₂.later follows subtypes, strides₂.trans
      { toTouches := touches, follows, marks := ?_ }⟩
    cases kept
    exact .refl _
  | none =>
    rw [result] at run
    have finds : cx.Striding ((cx.asking o).typeOfExpr d.body none) :=
      located.typeOfExpr ground (Program.body_of_fn node) (fun _ _ => trivial) d.body none
        (List.Subset.refl _)
    refine upright.search (g := .resultOf d.mark.id) (Table.contains_eq_false.mpr new)
      (fun i same => ⟨d, node, Goal.resultOf.inj same, result⟩) finds
      (fun _ c₂ p outer follows pursuits goal _ _ ended => ?_) run
    obtain ⟨settled, left, _⟩ := follows.orderly.settleResult ground pursuits node goal
      (follows.params promised) ended
    obtain ⟨subtypes, touches⟩ := Check.settleResult_touches ended
    exact ⟨settled, left, subtypes, touches⟩

theorem signatureOf {d : FnDecl Mark} (node : .stmt (.fn d) ∈ cx.program.nodes) :
    cx.Striding ((cx.asking o).signatureOf d) := by
  intro c upright sig c' run
  have located := steadfast.located ground
  cases found : c.signatures.find? d.mark.id with
  | some sig' =>
    cases ((cx.asking o).signatureOf_known found).symm.trans run
    exact ⟨upright, .refl upright.orderly⟩
  | none =>
    rw [(cx.asking o).signatureOf_new found] at run
    obtain ⟨ts, c₁, params, run⟩ := Check.bind_ok run
    have nodes : ∀ q ∈ d.params, .param q ∈ cx.program.nodes := fun q => Program.param_of_fn node
    have first : cx.Striding (d.params.mapM (cx.asking o).typeOfParam) :=
      located.composed.mapM (f := fun q o => (cx.asking o).typeOfParam q) fun q _ =>
        located.typeOfParam q fun _ _ => trivial
    obtain ⟨upright₁, strides₁⟩ := first c upright ts c₁ params
    obtain ⟨_, _, promised⟩ := (steadfast.faithful.typeOfParams ground nodes upright.orderly).run
      ts c₁ params
    have new := steadfast.faithful.typeOfParams_unsigned ground nodes found params
    obtain ⟨upright', strides⟩ :=
      steadfast.signatureAfter ground node upright₁ promised new run
    exact ⟨upright', strides₁.trans strides⟩

theorem meet {q : Demand} (posed : cx.Poses q) : cx.Striding (cx.meet q o) := by
  cases q with
  | typeOf x => exact steadfast.typeOfSymbol ground x
  | aliasTarget x span => exact steadfast.targetOfAlias ground x span
  | signature d => exact steadfast.signatureOf ground posed

omit steadfast in
/-- To every depth, demands lead from upright states to upright ones. -/
theorem oracle (n : Nat) : cx.Steadfast (cx.oracle n) := by
  induction n with
  | zero => exact ⟨.oracle ground 0, fun _ _ _ _ _ _ => nofun⟩
  | succ n ih => exact ⟨.oracle ground (n + 1), fun q => ih.meet ground⟩

end Context.Steadfast

end

theorem Context.Upright.start (cx : Context) (names : Roster String) : cx.Upright (.start names) :=
  ⟨.start cx names, fun s t b found => by
    have none : (Table.empty : Table (Ty × Ty) Bool).find? (s, t) = some b := found
    cases none⟩

/-- An upright checker's answers about subtypes are those of the closed form of its promises. -/
theorem Context.Upright.compares {cx : Context} {F c : Checker} (ground : cx.Grounded)
    (upright : cx.Upright F) {s t : Ty} {b : Bool}
    (run : cx.resolver.isSubtype s t { F with diagnostics := #[] } = .ok (b, c)) :
    cx.Follows F c ∧ cx.Compares c s t b := by
  have follows : cx.Follows F { F with diagnostics := #[] } :=
    Frame.follows ground ⟨rfl, rfl, rfl, fun _ _ => rfl⟩ upright.orderly
  rw [Context.resolver, Resolver.ofDepth_eq] at run
  have judges := (Context.Steadfast.oracle ground cx.questionBound).judges ground
  obtain ⟨_, strides, compares⟩ := judges.isSubtypeWithin (upright.later follows rfl) run
  exact ⟨follows.trans strides.follows, compares⟩

end Solo

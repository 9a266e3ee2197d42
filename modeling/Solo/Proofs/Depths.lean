import Solo.Proofs.Checked
import Solo.Proofs.Widening

/-!
# Depths

A check that does not end goes round in a circle of bindings. Demands inside each other lead to
new goals, so there are no more of them than the depth allows for; and where no demand is too deep,
an endless one has left a circle in the tables.
-/

namespace Solo

/-! ### Endless actions -/

/-- An action whose demands are made among the goals in progress that it found. -/
structure Level (cx : Context) (o : Oracle) {α : Type} (act : Oracle → Check α) : Prop where
  tame : Tame cx o act
  level : ∀ c, cx.Orderly c → ∀ q s, Asks act o c q s → Checker.Marks c.pursuits s.pursuits

/-- An action that is endless only if one of its demands gives a reason. -/
structure Ending (cx : Context) (o : Oracle) {α : Type} (act : Oracle → Check α) : Prop
    extends Level cx o act where
  candid : Candid o act
  ends : ∀ c, cx.Orderly c → act o c = .error .endless → Troubled o act c

section
variable {cx : Context} {o : Oracle}

theorem Faithful.level (faithful : Faithful cx o) (ground : cx.Grounded) :
    Thorough cx (Level cx o) := by
  have tame := faithful.thorough ground
  have comp : Compositional cx (Level cx o) := {
    still := fun still => ⟨tame.still still, fun _ _ _ _ asks => asks.not_still.elim⟩
    bind := fun first rest => by
      refine ⟨tame.bind first.tame fun x => (rest x).tame, fun c orderly q s asks => ?_⟩
      rcases asks.bind with early | ⟨x, c₁, run, late⟩
      · exact first.level c orderly q s early
      · obtain ⟨follows, marks, _⟩ := (first.tame c orderly).run x c₁ run
        exact marks.trans ((rest x).level c₁ follows.orderly q s late)
    ask := fun q posed => by
      refine ⟨tame.ask q posed, fun c _ p s asks => ?_⟩
      obtain ⟨_, rfl⟩ := asks.ask
      exact .refl _ }
  have endless : ∀ {α : Type}, Level cx o fun _ => (throw .endless : Check α) :=
    ⟨fun _ _ => .const (fun _ => rfl) fun _ _ => nofun, fun _ _ _ _ asks => asks.not_still.elim⟩
  exact { comp with
    isSubtype := comp.isSubtype endless
    lub := comp.lub endless }

theorem Faithful.ending (faithful : Faithful cx o) (ground : cx.Grounded) :
    Thorough cx (Ending cx o) := by
  have level := faithful.level ground
  have candid := Candid.thorough cx o
  exact {
    still := fun still => ⟨level.still still, candid.still still,
      fun c _ fails => absurd fails (still.ends c)⟩
    bind := fun first rest => by
      refine ⟨level.bind first.toLevel fun x => (rest x).toLevel,
        candid.bind first.candid fun x => (rest x).candid, fun c orderly fails => ?_⟩
      rcases endless_bind first.candid fails (first.ends c orderly) with
        troubled | ⟨x, c₁, run, later, lift⟩
      · exact troubled
      · have follows := ((first.tame c orderly).run x c₁ run).1
        exact ((rest x).ends c₁ follows.orderly later).lift lift
    ask := fun q posed => ⟨level.ask q posed, candid.ask q posed,
      fun c _ fails => ⟨q, c, .self o q c, .inl fails⟩⟩
    isSubtype := fun s t => ⟨level.isSubtype s t, candid.isSubtype s t,
      fun _ orderly => faithful.isSubtype_ends orderly⟩
    lub := fun s t => ⟨level.lub s t, candid.lub s t,
      fun _ orderly => faithful.lub_ends ground orderly⟩ }

end

/-! ### What a demand leads to -/

/-- How an action goes on from a state: it is endless only for a reason, it passes on the faults of
its demands, and `L` holds of them. -/
structure Nested (o : Oracle) {α : Type} (act : Oracle → Check α) (c : Checker)
    (L : Demand → Checker → Prop) : Prop where
  ends : act o c = .error .endless → Troubled o act c
  heeds : ∀ q s, Asks act o c q s → Heeds act o c q s
  asks : ∀ q s, Asks act o c q s → L q s

/-- The goals in progress, with one more. -/
def Checker.Deeper (c : Checker) (g : Goal) (s : Checker) : Prop :=
  Checker.Marks (⟨g, false⟩ :: c.pursuits) s.pursuits

section
variable {cx : Context} {o : Oracle} {c : Checker} {α β : Type} {act act' : Oracle → Check α}
  {L L' : Demand → Checker → Prop}

namespace Nested

theorem quiet (never : ∀ q s, ¬Asks act o c q s)
    (ends : act o c = .error .endless → Troubled o act c) : Nested o act c L :=
  ⟨ends, fun q s asks => absurd asks (never q s), fun q s asks => absurd asks (never q s)⟩

theorem const {r : α × Checker} (same : ∀ o', act o' c = .ok r) : Nested o act c L := by
  refine quiet ?_ fun fails => ?_
  · rintro q s ⟨o', _, differs⟩
    exact differs ((same o').trans (same o).symm)
  · cases (same o).symm.trans fails

theorem congr (nested : Nested o act c L) (same : ∀ o', act' o' c = act o' c) :
    Nested o act' c L := by
  have before : ∀ q s, Asks act' o c q s → Asks act o c q s := by
    rintro q s ⟨o', agrees, differs⟩
    exact ⟨o', agrees, by rwa [same, same] at differs⟩
  exact ⟨fun fails =>
      (nested.ends ((same o).symm.trans fails)).lift fun _ _ heeds => heeds.congr same,
    fun q s asks => (nested.heeds q s (before q s asks)).congr same,
    fun q s asks => nested.asks q s (before q s asks)⟩

theorem weaken (nested : Nested o act c L) (gives : ∀ q s, L q s → L' q s) :
    Nested o act c L' :=
  ⟨nested.ends, nested.heeds, fun q s asks => gives q s (nested.asks q s asks)⟩

theorem ofEnding (ending : Ending cx o act) (orderly : cx.Orderly c) :
    Nested o act c fun _ s => Checker.Marks c.pursuits s.pursuits :=
  ⟨ending.ends c orderly, ending.candid c, ending.level c orderly⟩

theorem bind {f : α → Oracle → Check β} (candid : Candid o act) (first : Nested o act c L)
    (rest : ∀ x c₁, act o c = .ok (x, c₁) → Nested o (f x) c₁ L) :
    Nested o (fun o => act o >>= fun x => f x o) c L where
  ends fails := by
    rcases endless_bind candid fails first.ends with troubled | ⟨x, c₁, run, later, lift⟩
    · exact troubled
    · exact ((rest x c₁ run).ends later).lift lift
  heeds q s asks := by
    rcases asks.bind with early | ⟨x, c₁, run, late⟩
    · exact (first.heeds q s early).first
    · exact ((rest x c₁ run).heeds q s late).next candid run
  asks q s asks := by
    rcases asks.bind with early | ⟨x, c₁, run, late⟩
    · exact first.asks q s early
    · exact (rest x c₁ run).asks q s late

end Nested

/-- The demands of a search are made with its goal in progress. -/
theorem Ending.nested_search {g : Goal} {body : Oracle → Check α} (ending : Ending cx o body)
    (blocked : β) (finish : α → Bool → Check β) (orderly : cx.Orderly c)
    (unsettled : c.isSettled g = false)
    (inferring : ∀ i, g = .resultOf i →
      ∃ d, .stmt (.fn d) ∈ cx.program.nodes ∧ d.mark.id = i ∧ d.result = none)
    (finishes : ∀ x looped c, finish x looped c ≠ .error .endless) :
    Nested o (fun o => search g (body o) blocked finish) c fun _ s => c.Deeper g s := by
  cases marked : markLoop? c.isSettled g c.pursuits with
  | some ps => exact .const fun o' => search_blocked marked
  | none =>
    have begins := orderly.follows_begun unsettled (markLoop?_none orderly.unsettled marked)
      inferring
    have inner := Nested.ofEnding ending begins.orderly
    have opened : ∀ o', search g (body o') blocked finish c = _ := fun o' => search_begun marked
    have before : ∀ q s, Asks (fun o => search g (body o) blocked finish) o c q s →
        Asks body o { c with pursuits := ⟨g, false⟩ :: c.pursuits } q s := by
      rintro q s ⟨o', agrees, differs⟩
      refine ⟨o', agrees, fun same => differs ?_⟩
      exact (opened o').trans (same ▸ (opened o).symm)
    refine ⟨fun fails => ?_, fun q s asks => (inner.heeds q s (before q s asks)).around opened,
      fun q s asks => inner.asks q s (before q s asks)⟩
    · rw [opened] at fails
      cases run : body o { c with pursuits := ⟨g, false⟩ :: c.pursuits } with
      | error e =>
        rw [run] at fails
        cases fails
        exact (inner.ends run).lift fun q s heeds => heeds.around opened
      | ok r =>
        rw [run] at fails
        change (Check.conclude >>= finish r.1) r.2 = _ at fails
        rw [Check.bind_apply, Check.conclude_apply] at fails
        cases known : r.2.pursuits <;> rw [known] at fails <;> exact absurd fails (finishes _ _ _)

/-! ### Demands inside demands -/

def Demand.isSignature : Demand → Bool
  | signature _ => true
  | _ => false

theorem Asks.once {i : NodeId} {find : Oracle → Check Ty} {q : Demand} {s : Checker}
    (asks : Asks (fun o => Check.once i (find o)) o c q s) : Asks find o c q s := by
  obtain ⟨o', agrees, differs⟩ := asks
  refine ⟨o', agrees, fun same => differs ?_⟩
  simp only [Check.once, Check.get_bind]
  cases c.nodeTypes.find? i with
  | some t => rfl
  | none =>
    dsimp only
    rw [Check.bind_apply, Check.bind_apply, same]

theorem Asks.branch {p : Prop} {dec : Oracle → Decidable p} {a b : Oracle → Check α} {q : Demand}
    {s : Checker} (asks : Asks (fun o => @ite _ p (dec o) (a o) (b o)) o c q s) :
    Asks a o c q s ∨ Asks b o c q s := by
  by_cases holds : p
  · exact .inl (by simpa only [if_pos holds] using asks)
  · exact .inr (by simpa only [if_neg holds] using asks)

theorem typeOfReference_asks {m : Mark} {x : Ident Mark} {q : Demand} {s : Checker}
    (asks : Asks (fun o => (cx.asking o).typeOfReference m x) o c q s) : q.isSignature = false := by
  simp only [Resolver.typeOfReference, cx.asking_toContext] at asks
  cases target : cx.targets.find? x.mark.id with
  | none =>
    simp only [target] at asks
    exact asks.not_still.elim
  | some y =>
    simp only [target] at asks
    rcases asks.branch with none | asks
    · exact none.not_still.elim
    rcases asks.branch with asks | none
    · obtain ⟨rfl, _⟩ := asks.ask (p := .aliasTarget y x.mark.span)
      rfl
    · exact none.not_still.elim

/-- A type as written leads to aliases only. -/
theorem typeOfNode_asks : ∀ {node : TyNode Mark} {q : Demand} {s : Checker},
    Asks (fun o => (cx.asking o).typeOfNode node) o c q s → q.isSignature = false
  | .refer _ _, _, _, asks => typeOfReference_asks asks.once
  | .singleton m e, _, _, asks =>
    (asks.once.not_still (a := (cx.asking o).typeOfOperand m e)).elim
  | .lit m l dot, _, _, asks =>
    (asks.once.not_still (a := (cx.asking o).typeOfLiteral m l.value dot)).elim
  | .paren _ _, _, _, asks => typeOfNode_asks asks.once

theorem typeOfParam_asks {a : Param Mark} {q : Demand} {s : Checker}
    (asks : Asks (fun o => (cx.asking o).typeOfParam a) o c q s) : q.isSignature = false := by
  simp only [Resolver.typeOfParam, cx.asking_toContext] at asks
  cases target : cx.targets.find? a.mark.id with
  | some x =>
    simp only [target] at asks
    obtain ⟨rfl, _⟩ := asks.ask (p := .typeOf x)
    rfl
  | none =>
    simp only [target] at asks
    exact typeOfNode_asks asks

theorem typeOfParams_asks {params : List (Param Mark)} {q : Demand} {s : Checker}
    (asks : Asks (fun o => params.mapM (cx.asking o).typeOfParam) o c q s) :
    q.isSignature = false := by
  induction params generalizing c with
  | nil =>
    simp only [List.mapM_nil] at asks
    exact asks.not_still.elim
  | cons a params ih =>
    simp only [List.mapM_cons] at asks
    rcases asks.bind with first | ⟨t, c₁, _, rest⟩
    · exact typeOfParam_asks first
    · rcases rest.bind with later | ⟨ts, c₂, _, none⟩
      · exact ih later
      · exact none.not_still.elim

end

/-! ### The goals of a program -/

namespace Context

variable (cx : Context)

def goalAt? : Node Mark → Option Goal
  | .stmt (.val d) => (cx.targets.find? d.mark.id).map .typeOf
  | .param q => (cx.targets.find? q.mark.id).map .typeOf
  | .stmt (.typeAlias d) => (cx.targets.find? d.mark.id).map .targetOf
  | .stmt (.fn d) => some (.resultOf d.mark.id)
  | _ => none

/-- The goals that are looked for in the declarations of the program. -/
def goals : List Goal := cx.program.nodes.filterMap cx.goalAt?

/-- Where a demand leads to from a state: there is a new goal in progress, or the demand is for a
signature and the next one is not. -/
def Leads (q : Demand) (c : Checker) (p : Demand) (s : Checker) : Prop :=
  (q.goal ∈ cx.goals ∧ c.Deeper q.goal s) ∨
    q.isSignature = true ∧ p.isSignature = false ∧ Checker.Marks c.pursuits s.pursuits

end Context

section
variable {cx : Context} {o : Oracle} {c : Checker}

theorem Context.typeOf_mem_goals (ground : cx.Grounded) {x : SymbolId} {d : Decl}
    (binding : (cx.symbol x).role.isBinding = true)
    (head : (cx.symbol x).decls.head? = some d) : .typeOf x ∈ cx.goals := by
  have member := List.mem_of_mem_head? head
  have target := ground.target x d member
  have own : d.role.isBinding = true := by
    rw [← ground.role x d member, Role.isBinding_thaw]
    exact binding
  refine List.mem_filterMap.mpr ⟨d.node, ground.decl x d member, ?_⟩
  cases d with
  | val v =>
    change (cx.targets.find? v.mark.id).map Goal.typeOf = _
    rw [show cx.targets.find? v.mark.id = some x from target]
    rfl
  | param q =>
    change (cx.targets.find? q.mark.id).map Goal.typeOf = _
    rw [show cx.targets.find? q.mark.id = some x from target]
    rfl
  | _ => cases own

theorem Context.targetOf_mem_goals (ground : cx.Grounded) {x : SymbolId} {d : AliasDecl Mark}
    (head : (cx.symbol x).decls.head? = some (.typeAlias d)) : .targetOf x ∈ cx.goals := by
  have member := List.mem_of_mem_head? head
  refine List.mem_filterMap.mpr ⟨.stmt (.typeAlias d), ground.decl x _ member, ?_⟩
  change (cx.targets.find? d.mark.id).map Goal.targetOf = _
  rw [show cx.targets.find? d.mark.id = some x from ground.target x _ member]
  rfl

namespace Faithful

variable (faithful : Faithful cx o) (ground : cx.Grounded)
include faithful ground

theorem typeOfSymbol_nested (x : SymbolId) (orderly : cx.Orderly c) :
    Nested o (fun o => (cx.asking o).typeOfSymbol x) c (cx.Leads (.typeOf x) c) := by
  cases found : c.symbolTypes.find? x with
  | some t => exact .const fun o' => (cx.asking o').typeOfSymbol_known found
  | none =>
    by_cases typable : cx.Typable x
    · obtain ⟨binding, declared⟩ := typable
      obtain ⟨d, ds, decls⟩ := List.exists_cons_of_ne_nil declared
      have head : (cx.symbol x).decls.head? = some d := by rw [decls]; rfl
      have ending : Ending cx o fun o => (cx.asking o).typeOfDecl d := by
        have thorough := faithful.ending ground
        cases d with
        | param q => exact thorough.typeOfNode q.ty
        | val v =>
          exact thorough.typeOfVal ground v (ground.decl x (.val v) (List.mem_of_mem_head? head))
        | _ => exact thorough.pure Ty.error
      have searching := ending.nested_search (g := .typeOf x) Ty.error
        (Check.settleType x d.name.mark.span (cx.symbol x).name) orderly
        (Table.contains_eq_false.mpr found) (fun _ => nofun) (fun _ looped _ => by cases looped <;> nofun)
      refine (searching.weaken fun q s deeper => .inl ⟨?_, deeper⟩).congr
        fun o' => (cx.asking o').typeOfSymbol_search found binding head
      exact cx.typeOf_mem_goals ground binding head
    · exact .const fun o' => (cx.asking o').typeOfSymbol_untypable found typable

theorem targetOfAlias_nested (x : SymbolId) (span : Span) (orderly : cx.Orderly c) :
    Nested o (fun o => (cx.asking o).targetOfAlias x span) c (cx.Leads (.aliasTarget x span) c) := by
  cases found : c.aliasTargets.find? x with
  | some t => exact .const fun o' => (cx.asking o').targetOfAlias_known found
  | none =>
    have searching : ∀ {body : Oracle → Check Ty}, Ending cx o body →
        Nested o (fun o => search (.targetOf x) (body o) Ty.error
          (Check.settleTarget x span (cx.symbol x).name)) c fun _ s => c.Deeper (.targetOf x) s :=
      fun ending => ending.nested_search _ _ orderly (Table.contains_eq_false.mpr found)
        (fun _ => nofun) fun _ looped _ => by cases looped <;> nofun
    refine Nested.congr ?_ fun o' => (cx.asking o').targetOfAlias_search found
    have thorough := faithful.ending ground
    have shape : ∀ o', (cx.asking o').typeOfTarget ((cx.asking o').symbol x).decls.head? =
        (cx.asking o').typeOfTarget (cx.symbol x).decls.head? := fun _ => rfl
    simp only [shape]
    rcases head : (cx.symbol x).decls.head? with _ | _ | _ | d | _
    case some.typeAlias =>
      exact (searching (thorough.typeOfNode d.ty)).weaken
        fun q s deeper => .inl ⟨cx.targetOf_mem_goals ground head, deeper⟩
    all_goals
      refine .quiet (fun q s asks => ?_) (searching (thorough.pure Ty.error)).ends
      exact asks.not_still (a := search (.targetOf x) (Pure.pure Ty.error) Ty.error
        (Check.settleTarget x span (cx.symbol x).name))

theorem signatureOf_nested {d : FnDecl Mark} (node : .stmt (.fn d) ∈ cx.program.nodes)
    (orderly : cx.Orderly c) :
    Nested o (fun o => (cx.asking o).signatureOf d) c (cx.Leads (.signature d) c) := by
  cases found : c.signatures.find? d.mark.id with
  | some sig => exact .const fun o' => (cx.asking o').signatureOf_known found
  | none =>
    have thorough := faithful.ending ground
    have params : Ending cx o fun o => d.params.mapM (cx.asking o).typeOfParam :=
      thorough.composed.mapM fun q _ => thorough.typeOfParam q
    refine Nested.congr (Nested.bind params.candid ⟨params.ends c orderly, params.candid c, ?_⟩ ?_)
      fun o' => (cx.asking o').signatureOf_new found
    · exact fun q s asks =>
        .inr ⟨rfl, typeOfParams_asks asks, params.level c orderly q s asks⟩
    intro ts c₁ run
    obtain ⟨follows, marks, _⟩ := (params.tame c orderly).run ts c₁ run
    simp only [Resolver.signatureAfter, cx.asking_toContext]
    cases result : d.result with
    | some node' =>
      have ofNode := thorough.typeOfNode node'
      refine Nested.bind ofNode.candid
        ⟨ofNode.ends c₁ follows.orderly, ofNode.candid c₁, fun q s asks => ?_⟩
        fun t c₂ _ => .const fun _ => rfl
      exact .inr ⟨rfl, typeOfNode_asks asks,
        marks.trans (ofNode.level c₁ follows.orderly q s asks)⟩
    | none =>
      have nodes : ∀ q ∈ d.params, .param q ∈ cx.program.nodes :=
        fun q => Program.param_of_fn node
      have new : c₁.signatures.find? d.mark.id = none := by
        rw [Spares.mapM (fun q member => faithful.spares.typeOfParam
          (ground.param q (nodes q member))) c ts c₁ run]
        exact found
      have body := thorough.typeOfExpr ground d.body none (Program.body_of_fn node)
      have searching := body.nested_search (g := .resultOf d.mark.id)
        ⟨d, (cx.targets.find? d.mark.id).getD Symbol.unresolvedId, ts, .error⟩
        (Check.settleResult d ((cx.targets.find? d.mark.id).getD Symbol.unresolvedId) ts)
        follows.orderly (Table.contains_eq_false.mpr new) (fun i same => ?_)
        fun _ looped _ => by cases looped <;> rintro ⟨⟩
      · refine searching.weaken fun q s deeper => .inl ⟨List.mem_filterMap.mpr ⟨_, node, rfl⟩, ?_⟩
        exact Checker.Marks.trans (.cons ⟨rfl, id⟩ marks) deeper
      · cases same
        exact ⟨d, node, rfl, result⟩

theorem meet_nested {q : Demand} (posed : cx.Poses q) (orderly : cx.Orderly c) :
    Nested o (cx.meet q) c (cx.Leads q c) := by
  cases q with
  | typeOf x => exact faithful.typeOfSymbol_nested ground x orderly
  | aliasTarget x span => exact faithful.targetOfAlias_nested ground x span orderly
  | signature d => exact faithful.signatureOf_nested ground posed orderly

end Faithful

end

/-! ### Enough depth -/

/-- A demand in a state can be met at a depth: for each goal that is not yet in progress there is
room for two demands inside each other. -/
structure Context.Room (cx : Context) (n : Nat) (q : Demand) (c : Checker) : Prop where
  posed : cx.Poses q
  orderly : cx.Orderly c
  goals : c.pursuits.map (·.goal) ⊆ cx.goals
  deep : 2 * (cx.goals.length - c.pursuits.length) + q.isSignature.toNat < n

section
variable {cx : Context} {α : Type} {act : Oracle → Check α} {n m : Nat} {c s t : Checker}
  {q p : Demand}

/-- No goal is in progress twice, so there are not more than the program has. -/
theorem Context.Orderly.pursuits_le (orderly : cx.Orderly c)
    (inside : c.pursuits.map (·.goal) ⊆ cx.goals) : c.pursuits.length ≤ cx.goals.length := by
  have fits := orderly.once.length_le_of_subset inside
  rwa [List.length_map] at fits

theorem Context.Room.meet (ground : cx.Grounded) (room : cx.Room (n + 1) q s)
    (asks : Asks (cx.meet q) (cx.oracle n) s p t) : cx.Room n p t := by
  have faithful := Faithful.oracle ground n
  obtain ⟨posed, follows⟩ := (faithful.meet ground room.posed room.orderly).ask p t asks
  have deep := room.deep
  have small := p.isSignature.toNat_le
  rcases (faithful.meet_nested ground room.posed room.orderly).asks p t asks with
    ⟨own, deeper⟩ | ⟨isSignature, notSignature, level⟩
  · have goals : t.pursuits.map (·.goal) ⊆ cx.goals := by
      rw [deeper.goals, List.map_cons]
      exact List.cons_subset.mpr ⟨own, room.goals⟩
    have more := deeper.length_eq
    rw [List.length_cons] at more
    have few := follows.orderly.pursuits_le goals
    exact ⟨posed, follows.orderly, goals, by omega⟩
  · have same := level.length_eq
    rw [isSignature] at deep
    refine ⟨posed, follows.orderly, level.goals ▸ room.goals, ?_⟩
    rw [notSignature, ← same]
    simp only [Bool.toNat_true, Bool.toNat_false] at deep ⊢
    omega

theorem Context.Moment.room (ground : cx.Grounded) (moment : cx.Moment act n c m q s)
    (top : ∀ q s, Asks act (cx.oracle n) c q s → cx.Room n q s) : cx.Room m q s := by
  induction moment with
  | made asks => exact top _ _ asks
  | inside asks _ ih => exact ih fun p t inner => (top _ _ asks).meet ground inner

/-- Trouble comes from a circle that an answer left behind, at some depth. -/
theorem Troubled.moment (ground : cx.Grounded) (troubled : Troubled (cx.oracle n) act c)
    (top : ∀ q s, Asks act (cx.oracle n) c q s → cx.Room n q s) :
    ∃ m q s a s', cx.Moment act n c m q s ∧ cx.oracle m q s = .ok (a, s') ∧ s'.Circular := by
  induction n generalizing α act c with
  | zero =>
    obtain ⟨q, s, heeds, _⟩ := troubled
    exact absurd (top q s heeds.asks).deep (Nat.not_lt_zero _)
  | succ n ih =>
    obtain ⟨q, s, heeds, endless | ⟨a, s', met, circular⟩⟩ := troubled
    · have room := top q s heeds.asks
      have nested := (Faithful.oracle ground n).meet_nested ground room.posed room.orderly
      obtain ⟨m, p, t, b, t', moment, found⟩ := ih (nested.ends endless)
        fun p t asks => room.meet ground asks
      exact ⟨m, p, t, b, t', .inside heeds.asks moment, found⟩
    · exact ⟨n + 1, q, s, a, s', .made heeds.asks, met, circular⟩

/-- A check of the whole program has the depth it needs. -/
theorem Draft.room {d : Draft} {options : Options} {early late : List Demand}
    (posed : ∀ q ∈ early ++ late, (d.context options).Poses q)
    (asks : Asks ((d.context options).visit early late)
      ((d.context options).oracle (d.context options).questionBound)
      (.start (d.context options).names) q s) :
    (d.context options).Room (d.context options).questionBound q s := by
  have ground := d.grounded options
  have visit := ((Faithful.oracle ground (d.context options).questionBound).level ground).visit
    ground posed
  obtain ⟨own, follows⟩ := (visit.tame _ (.start _ _)).ask q s asks
  have none : s.pursuits = [] := List.forall₂_nil_left_iff.mp (visit.level _ (.start _ _) q s asks)
  refine ⟨own, follows.orderly, by simp [none], ?_⟩
  have small := q.isSignature.toNat_le
  have goals := List.length_filterMap_le (d.context options).goalAt?
    (d.context options).program.nodes
  have nodes := d.sized options
  rw [none, List.length_nil, Context.goals, Context.questionBound]
  omega

end

end Solo

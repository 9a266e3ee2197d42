import Solo.Proofs.Promises

/-!
# The course of an action

An action is `Tame` if it keeps all promises, also up to the states in which it makes demands, and
if its demands come one after the other: of two demands one is met before the other is made. All of
checking is tame, given an oracle that keeps promises; so by induction on the depth the oracle of
every depth keeps promises and makes them.
-/

namespace Solo

/-- A demand is met, and later a state is reached. -/
def Context.Before (cx : Context) (o : Oracle) (q : Demand) (s c : Checker) : Prop :=
  ∃ a s', o q s = .ok (a, s') ∧ cx.Follows s' c

/-- The course of an action from a state; its results satisfy `R`. -/
structure TameAt (cx : Context) (o : Oracle) {α : Type} (act : Oracle → Check α) (c : Checker)
    (R : α → Checker → Prop) : Prop where
  run : ∀ x c', act o c = .ok (x, c') →
    cx.Follows c c' ∧ Checker.Marks c.pursuits c'.pursuits ∧ R x c'
  ask : ∀ q s, Asks act o c q s → cx.Poses q ∧ cx.Follows c s
  answered : ∀ q s, Asks act o c q s → ∀ x c', act o c = .ok (x, c') → cx.Before o q s c'
  ordered : ∀ q s p t, Asks act o c q s → Asks act o c p t →
    (q = p ∧ s = t) ∨ cx.Before o q s t ∨ cx.Before o p t s

/-- An action that runs its course from every orderly state. -/
def Tame (cx : Context) (o : Oracle) {α : Type} (act : Oracle → Check α) : Prop :=
  ∀ c, cx.Orderly c → TameAt cx o act c fun _ _ => True

/-- An oracle that keeps promises and makes them. -/
structure Faithful (cx : Context) (o : Oracle) : Prop where
  meets : ∀ q, cx.Poses q → ∀ c, cx.Orderly c → ∀ a c', o q c = .ok (a, c') →
    cx.Follows c c' ∧ Checker.Marks c.pursuits c'.pursuits ∧ cx.Promised c' q a
  spares : SparesTypes (cx.asking o)

theorem Context.Before.trans {cx : Context} {o : Oracle} {q : Demand} {s c c₁ : Checker}
    (before : cx.Before o q s c) (follows : cx.Follows c c₁) : cx.Before o q s c₁ := by
  obtain ⟨a, s', met, later⟩ := before
  exact ⟨a, s', met, later.trans follows⟩

namespace TameAt

variable {cx : Context} {o : Oracle} {α β : Type} {act : Oracle → Check α} {c c₁ : Checker}
  {R R₁ : α → Checker → Prop} {R' : β → Checker → Prop}

theorem const (same : ∀ o', act o' c = act o c)
    (run : ∀ x c', act o c = .ok (x, c') →
      cx.Follows c c' ∧ Checker.Marks c.pursuits c'.pursuits ∧ R x c') :
    TameAt cx o act c R := by
  have silent : ∀ q s, ¬Asks act o c q s := fun q s ⟨o', _, differs⟩ => differs (same o')
  exact ⟨run, fun q s asks => absurd asks (silent q s), fun q s asks => absurd asks (silent q s),
    fun q s _ _ asks => absurd asks (silent q s)⟩

theorem pure {x : α} (orderly : cx.Orderly c) (holds : R x c) :
    TameAt cx o (fun _ => Pure.pure x) c R := by
  refine const (fun _ => rfl) fun y c' run => ?_
  cases run
  exact ⟨.refl orderly, .refl _, holds⟩

theorem congr {act' : Oracle → Check α} (tame : TameAt cx o act c R)
    (same : ∀ o', act' o' c = act o' c) : TameAt cx o act' c R := by
  have asks : ∀ {q s}, Asks act' o c q s → Asks act o c q s := by
    rintro q s ⟨o', agrees, differs⟩
    exact ⟨o', agrees, by rwa [same, same] at differs⟩
  exact ⟨fun x c' run => tame.run x c' (same o ▸ run), fun q s asked => tame.ask q s (asks asked),
    fun q s asked x c' run => tame.answered q s (asks asked) x c' (same o ▸ run),
    fun q s p t first second => tame.ordered q s p t (asks first) (asks second)⟩

theorem weaken (tame : TameAt cx o act c R)
    (gives : ∀ x c', act o c = .ok (x, c') → cx.Follows c c' → R x c' → R₁ x c') :
    TameAt cx o act c R₁ :=
  { tame with
    run := fun x c' run =>
      have ⟨follows, marks, holds⟩ := tame.run x c' run
      ⟨follows, marks, gives x c' run follows holds⟩ }

theorem bind {f : α → Oracle → Check β} (first : TameAt cx o act c R)
    (rest : ∀ x c₁, act o c = .ok (x, c₁) → cx.Follows c c₁ → R x c₁ →
      TameAt cx o (f x) c₁ R') :
    TameAt cx o (fun o => act o >>= fun x => f x o) c R' := by
  have follow : ∀ {x c₁}, act o c = .ok (x, c₁) → cx.Follows c c₁ ∧
      Checker.Marks c.pursuits c₁.pursuits ∧ TameAt cx o (f x) c₁ R' := by
    intro x c₁ run
    obtain ⟨follows, marks, holds⟩ := first.run x c₁ run
    exact ⟨follows, marks, rest x c₁ run follows holds⟩
  refine ⟨fun y c' run => ?_, fun q s asks => ?_, fun q s asks y c' run => ?_,
    fun q s p t asks asks' => ?_⟩
  · obtain ⟨x, c₁, run₁, run₂⟩ := Check.bind_ok run
    obtain ⟨follows, marks, tame⟩ := follow run₁
    obtain ⟨follows', marks', holds⟩ := tame.run y c' run₂
    exact ⟨follows.trans follows', marks.trans marks', holds⟩
  · rcases asks.bind with early | ⟨x, c₁, run₁, late⟩
    · exact first.ask q s early
    · obtain ⟨follows, _, tame⟩ := follow run₁
      obtain ⟨posed, follows'⟩ := tame.ask q s late
      exact ⟨posed, follows.trans follows'⟩
  · obtain ⟨x, c₁, run₁, run₂⟩ := Check.bind_ok run
    obtain ⟨_, _, tame⟩ := follow run₁
    rcases asks.bind with early | ⟨x', c₁', run₁', late⟩
    · exact (first.answered q s early x c₁ run₁).trans (tame.run y c' run₂).1
    · cases run₁.symm.trans run₁'
      exact tame.answered q s late y c' run₂
  · rcases asks.bind with early | ⟨x, c₁, run₁, late⟩
    · rcases asks'.bind with early' | ⟨x', c₁', run₁', late'⟩
      · exact first.ordered q s p t early early'
      · obtain ⟨_, _, tame⟩ := follow run₁'
        exact .inr (.inl ((first.answered q s early x' c₁' run₁').trans (tame.ask p t late').2))
    · obtain ⟨_, _, tame⟩ := follow run₁
      rcases asks'.bind with early' | ⟨x', c₁', run₁', late'⟩
      · exact .inr (.inr ((first.answered p t early' x c₁ run₁).trans (tame.ask q s late).2))
      · cases run₁.symm.trans run₁'
        exact tame.ordered q s p t late late'

/-- An action that begins with steps to a state and ends with steps from there on. -/
theorem around {body : Oracle → Check α} {whole : Oracle → Check β}
    (finish : α → Checker → Except Fault (β × Checker))
    (same : ∀ o', whole o' c = (body o' c₁).bind fun r => finish r.1 r.2)
    (begins : cx.Follows c c₁) (inner : TameAt cx o body c₁ R)
    (ends : ∀ x c₂, cx.Follows c₁ c₂ → Checker.Marks c₁.pursuits c₂.pursuits → R x c₂ →
      ∀ y c', finish x c₂ = .ok (y, c') →
        cx.Follows c₂ c' ∧ Checker.Marks c.pursuits c'.pursuits ∧ R' y c') :
    TameAt cx o whole c R' := by
  have asked : ∀ {q s}, Asks whole o c q s → Asks body o c₁ q s := by
    rintro q s ⟨o', agrees, differs⟩
    refine ⟨o', agrees, fun equal => differs ?_⟩
    rw [same, same, equal]
  have finished : ∀ {y c'}, whole o c = .ok (y, c') → ∃ x c₂, body o c₁ = .ok (x, c₂) ∧
      finish x c₂ = .ok (y, c') := by
    intro y c' run
    rw [same] at run
    cases found : body o c₁ with
    | error e =>
      rw [found] at run
      cases run
    | ok r =>
      rw [found] at run
      exact ⟨r.1, r.2, rfl, run⟩
  refine ⟨fun y c' run => ?_, fun q s asks => ?_, fun q s asks y c' run => ?_,
    fun q s p t asks asks' => ?_⟩
  · obtain ⟨x, c₂, found, ended⟩ := finished run
    obtain ⟨follows, marks, holds⟩ := inner.run x c₂ found
    obtain ⟨follows', marks', holds'⟩ := ends x c₂ follows marks holds y c' ended
    exact ⟨(begins.trans follows).trans follows', marks', holds'⟩
  · obtain ⟨posed, follows⟩ := inner.ask q s (asked asks)
    exact ⟨posed, begins.trans follows⟩
  · obtain ⟨x, c₂, found, ended⟩ := finished run
    obtain ⟨follows, marks, holds⟩ := inner.run x c₂ found
    exact (inner.answered q s (asked asks) x c₂ found).trans
      (ends x c₂ follows marks holds y c' ended).1
  · exact inner.ordered q s p t (asked asks) (asked asks')

end TameAt

/-! ### Checking is tame -/

namespace Faithful

variable {cx : Context} {o : Oracle}

theorem meets_tame (faithful : Faithful cx o) {q : Demand} (posed : cx.Poses q) {c : Checker}
    (orderly : cx.Orderly c) : TameAt cx o (fun o => o q) c fun a c' => cx.Promised c' q a where
  run a c' run := faithful.meets q posed c orderly a c' run
  ask p s asks := by
    obtain ⟨rfl, rfl⟩ := asks.ask
    exact ⟨posed, .refl orderly⟩
  answered p s asks a c' run := by
    obtain ⟨rfl, rfl⟩ := asks.ask
    exact ⟨a, c', run, .refl (faithful.meets q posed c orderly a c' run).1.orderly⟩
  ordered p s p' s' asks asks' := by
    obtain ⟨rfl, rfl⟩ := asks.ask
    exact .inl asks'.ask

theorem compositional (faithful : Faithful cx o) (ground : cx.Grounded) :
    Compositional cx (Tame cx o) where
  still still _ orderly := by
    refine .const (fun _ => rfl) fun x c' run => ?_
    have frame := still.frame _ x c' run
    refine ⟨frame.follows ground orderly, ?_, trivial⟩
    rw [frame.pursuits]
    exact .refl _
  bind first rest _ orderly :=
    (first _ orderly).bind fun x c₁ _ follows _ => rest x c₁ follows.orderly
  ask _ posed _ orderly := (faithful.meets_tame posed orderly).weaken fun _ _ _ _ _ => trivial

theorem thorough (faithful : Faithful cx o) (ground : cx.Grounded) : Thorough cx (Tame cx o) :=
  have comp := faithful.compositional ground
  have endless : ∀ {α : Type}, Tame cx o fun _ => (throw .endless : Check α) :=
    fun _ _ => .const (fun _ => rfl) fun _ _ => nofun
  { comp with
    isSubtype := comp.isSubtype endless
    lub := comp.lub endless }

end Faithful

/-! ### Goals -/

/-- A goal is pursued, unless it is in progress. -/
def search {α β : Type} (g : Goal) (body : Check α) (blocked : β) (finish : α → Bool → Check β) :
    Check β := do
  if !(← Check.pursue g) then return blocked
  let x ← body
  let looped ← Check.conclude
  finish x looped

namespace Check

def settleType (x : SymbolId) (span : Span) (name : String) (found : Ty) (looped : Bool) :
    Check Ty := do
  if looped then report span (.circularInitializer name)
  let t := if looped then .error else found
  modify fun c => { c with symbolTypes := c.symbolTypes.insertNew x t }
  return t

def settleTarget (x : SymbolId) (span : Span) (name : String) (found : Ty) (looped : Bool) :
    Check Ty := do
  if looped then report span (.circularAlias name)
  let t := if looped then .error else found
  modify fun c => { c with aliasTargets := c.aliasTargets.insertNew x t }
  return t

def settleResult (d : FnDecl Mark) (x : SymbolId) (params : List Ty) (body : Ty) (looped : Bool) :
    Check Signature := do
  if looped then report d.name.mark.span (.recursiveWithoutResult d.name.name)
  Resolver.signatureOf.keep ⟨d, x, params, if looped then .error else body.widenLiteral⟩

end Check

section
variable {cx : Context} {o : Oracle} {c : Checker} {α β : Type} {R : α → Checker → Prop}
  {R' : β → Checker → Prop}

theorem search_blocked {g : Goal} {body : Check α} {blocked : β} {finish : α → Bool → Check β}
    {ps : List Pursuit} (marked : markLoop? c.isSettled g c.pursuits = some ps) :
    search g body blocked finish c = .ok (blocked, { c with pursuits := ps }) := by
  rw [search, Check.bind_apply, Check.pursue_apply, marked]
  rfl

theorem search_begun {g : Goal} {body : Check α} {blocked : β} {finish : α → Bool → Check β}
    (new : markLoop? c.isSettled g c.pursuits = none) :
    search g body blocked finish c =
      (body { c with pursuits := ⟨g, false⟩ :: c.pursuits }).bind fun r => (do
        let looped ← Check.conclude
        finish r.1 looped : Check β) r.2 := by
  rw [search, Check.bind_apply, Check.pursue_apply, new]
  rfl

theorem TameAt.search {g : Goal} {body : Oracle → Check α} {blocked : β}
    {finish : α → Bool → Check β} (orderly : cx.Orderly c) (unsettled : c.isSettled g = false)
    (inferring : ∀ i, g = .resultOf i →
      ∃ d, .stmt (.fn d) ∈ cx.program.nodes ∧ d.mark.id = i ∧ d.result = none)
    (finds : ∀ c₁, cx.Follows c c₁ → TameAt cx o body c₁ R)
    (waits : ∀ c₁, cx.Follows c c₁ → c₁.Loops g → R' blocked c₁)
    (ends : ∀ x c₂ p outer, cx.Follows c c₂ → R x c₂ → c₂.pursuits = p :: outer → p.goal = g →
      ∀ y c', finish x p.looped { c₂ with pursuits := outer } = .ok (y, c') →
        cx.Follows c₂ c' ∧ c'.pursuits = outer ∧ R' y c') :
    TameAt cx o (fun o => Solo.search g (body o) blocked finish) c R' := by
  cases marked : markLoop? c.isSettled g c.pursuits with
  | some ps =>
    refine .const (fun o' => (search_blocked marked).trans (search_blocked marked).symm)
      fun y c' run => ?_
    cases (search_blocked marked).symm.trans run
    obtain ⟨marks, _⟩ := markLoop?_some marked
    have follows := orderly.follows_marked marks
    exact ⟨follows, marks, waits _ follows (markLoop?_goal marked)⟩
  | none =>
    have begins := orderly.follows_begun unsettled
      (markLoop?_none orderly.unsettled marked) inferring
    refine .around (fun x c₂ => (do
      let looped ← Check.conclude
      finish x looped : Check β) c₂) (fun o' => search_begun marked) begins (finds _ begins) ?_
    intro x c₂ follows marks holds y c' ended
    obtain ⟨p, outer, ⟨goal, _⟩, outside, pursuits⟩ := List.forall₂_cons_left_iff.mp marks
    obtain ⟨looped, c₃, concluded, ended⟩ := Check.bind_ok ended
    rw [Check.conclude_apply, pursuits] at concluded
    cases concluded
    obtain ⟨follows', same, found⟩ :=
      ends x c₂ p outer (begins.trans follows) holds pursuits goal y c' ended
    exact ⟨follows', same ▸ outside, found⟩

end

namespace Resolver

variable (r : Resolver) {c : Checker} {x : SymbolId}

theorem typeOfSymbol_known {t : Ty} (found : c.symbolTypes.find? x = some t) :
    r.typeOfSymbol x c = .ok (t, c) := by
  rw [typeOfSymbol, Check.get_bind, found]
  rfl

theorem typeOfSymbol_untypable (new : c.symbolTypes.find? x = none)
    (untyped : ¬r.Typable x) : r.typeOfSymbol x c = .ok (.error, c) := by
  rw [typeOfSymbol, Check.get_bind, new]
  cases binding : (r.symbol x).role.isBinding with
  | false => simp only [binding]; rfl
  | true =>
    cases decls : (r.symbol x).decls with
    | nil => simp only [binding, decls]; rfl
    | cons d ds => exact absurd ⟨binding, by simp [decls]⟩ untyped

def typeOfDecl : Decl → Check Ty
  | .param q => r.typeOfNode q.ty
  | .val d => r.typeOfVal d
  | _ => pure .error

theorem typeOfSymbol_search {d : Decl} (new : c.symbolTypes.find? x = none)
    (binding : (r.symbol x).role.isBinding = true) (head : (r.symbol x).decls.head? = some d) :
    r.typeOfSymbol x c = search (.typeOf x) (r.typeOfDecl d) Ty.error
      (Check.settleType x d.name.mark.span (r.symbol x).name) c := by
  rw [typeOfSymbol, Check.get_bind, new]
  simp only [binding, head]
  cases d <;> rfl

theorem targetOfAlias_known {t : Ty} {span : Span} (found : c.aliasTargets.find? x = some t) :
    r.targetOfAlias x span c = .ok (t, c) := by
  rw [targetOfAlias, Check.get_bind, found]
  rfl

def typeOfTarget : Option Decl → Check Ty
  | some (.typeAlias d) => r.typeOfNode d.ty
  | _ => pure .error

theorem targetOfAlias_search {span : Span} (new : c.aliasTargets.find? x = none) :
    r.targetOfAlias x span c =
      search (.targetOf x) (r.typeOfTarget (r.symbol x).decls.head?) Ty.error
        (Check.settleTarget x span (r.symbol x).name) c := by
  rw [targetOfAlias, Check.get_bind, new]
  dsimp only
  unfold typeOfTarget
  rcases (r.symbol x).decls.head? with _ | _ | _ | _ | _ <;> rfl

variable {d : FnDecl Mark}

theorem signatureOf_known {sig : Signature} (found : c.signatures.find? d.mark.id = some sig) :
    r.signatureOf d c = .ok (sig, c) := by
  rw [signatureOf, Check.get_bind, found]
  rfl

/-- What is looked for after the parameters of a function. -/
def signatureAfter (d : FnDecl Mark) (params : List Ty) : Check Signature :=
  let x := (r.targets.find? d.mark.id).getD Symbol.unresolvedId
  match d.result with
  | some node => do
    let t ← r.typeOfNode node
    signatureOf.keep ⟨d, x, params, t⟩
  | none =>
    search (.resultOf d.mark.id) (r.typeOfExpr d.body none) ⟨d, x, params, .error⟩
      (Check.settleResult d x params)

theorem signatureOf_new (new : c.signatures.find? d.mark.id = none) :
    r.signatureOf d c = (do
      let params ← d.params.mapM r.typeOfParam
      r.signatureAfter d params) c := by
  rw [signatureOf, Check.get_bind, new]
  unfold signatureAfter
  cases d.result <;> rfl

end Resolver

namespace Located

variable {cx : Context} {M : Mark → Prop} {C : {α : Type} → (Oracle → Check α) → Prop}
  (comp : Located cx M C)
include comp

theorem typeOfDecl (ground : cx.Grounded) {d : Decl} (node : d.node ∈ cx.program.nodes)
    (own : ∀ n ∈ d.node.below, M n.mark) : C fun o => (cx.asking o).typeOfDecl d := by
  cases d with
  | param q =>
    obtain ⟨m, x, ty⟩ := q
    exact comp.typeOfNode ty fun n inside =>
      own n (List.mem_cons_of_mem _ (List.mem_append_left _ inside))
  | val v => exact comp.typeOfVal ground (fun _ => Program.mem_below node) own v (List.Subset.refl _)
  | _ => exact comp.pure Ty.error

theorem typeOfTarget {d : Option Decl} (own : ∀ k, d = some k → ∀ n ∈ k.node.below, M n.mark) :
    C fun o => (cx.asking o).typeOfTarget d := by
  rcases d with _ | _ | _ | ⟨m, x, ty⟩ | _
  case some.typeAlias =>
    exact comp.typeOfNode ty fun n inside =>
      own _ rfl n (List.mem_cons_of_mem _ (List.mem_append_left _ inside))
  all_goals exact comp.pure Ty.error

end Located

theorem Context.Follows.report {cx : Context} {c : Checker} (ground : cx.Grounded)
    (orderly : cx.Orderly c) (diagnostics : Array Diagnostic) :
    cx.Follows c { c with diagnostics } :=
  Context.Frame.follows ground ⟨rfl, rfl, rfl, fun _ _ => rfl⟩ orderly

/-! ### The innermost goal is settled -/

namespace Context.Orderly

variable {cx : Context} {c c' : Checker} {p : Pursuit} {outer : List Pursuit} {x : SymbolId}
  {span : Span} {name : String} {t u : Ty} (ground : cx.Grounded) (orderly : cx.Orderly c)
  (pursuits : c.pursuits = p :: outer)
include ground orderly pursuits

theorem settleType (goal : p.goal = .typeOf x) (typable : cx.Typable x)
    (run : Check.settleType x span name t p.looped { c with pursuits := outer } = .ok (u, c')) :
    cx.Follows c c' ∧ c'.pursuits = outer ∧ cx.TypePromised c' x u := by
  cases looped : p.looped with
  | true =>
    rw [looped] at run
    cases run
    obtain ⟨settled, own⟩ := orderly.follows_settleType (t := .error) pursuits goal typable
      fun _ => rfl
    exact ⟨settled.trans (.report ground settled.orderly _), rfl, .inl own⟩
  | false =>
    rw [looped] at run
    cases run
    obtain ⟨settled, own⟩ := orderly.follows_settleType (t := t) pursuits goal typable
      fun loops => by rw [looped] at loops; cases loops
    exact ⟨settled, rfl, .inl own⟩

theorem settleTarget (goal : p.goal = .targetOf x)
    (run : Check.settleTarget x span name t p.looped { c with pursuits := outer } = .ok (u, c')) :
    cx.Follows c c' ∧ c'.pursuits = outer ∧ TargetPromised c' x u := by
  cases looped : p.looped with
  | true =>
    rw [looped] at run
    cases run
    obtain ⟨settled, own⟩ := orderly.follows_settleTarget (t := .error) pursuits goal fun _ => rfl
    exact ⟨settled.trans (.report ground settled.orderly _), rfl, .inl own⟩
  | false =>
    rw [looped] at run
    cases run
    obtain ⟨settled, own⟩ := orderly.follows_settleTarget (t := t) pursuits goal
      fun loops => by rw [looped] at loops; cases loops
    exact ⟨settled, rfl, .inl own⟩

theorem settleResult {d : FnDecl Mark} {params : List Ty} {sig : Signature}
    (node : .stmt (.fn d) ∈ cx.program.nodes) (goal : p.goal = .resultOf d.mark.id)
    (promised : cx.ParamsPromised c d.params params)
    (run : Check.settleResult d ((cx.targets.find? d.mark.id).getD Symbol.unresolvedId) params t
      p.looped { c with pursuits := outer } = .ok (sig, c')) :
    cx.Follows c c' ∧ c'.pursuits = outer ∧ cx.SignaturePromised c' d sig := by
  cases looped : p.looped with
  | true =>
    rw [looped] at run
    cases run
    obtain ⟨settled, own⟩ := orderly.follows_settleResult (t := .error) ground pursuits node goal
      promised (fun _ => rfl) rfl
    exact ⟨settled.trans (.report ground settled.orderly _), rfl, .inl own⟩
  | false =>
    rw [looped] at run
    cases run
    obtain ⟨settled, own⟩ := orderly.follows_settleResult (t := t.widenLiteral) ground pursuits node
      goal promised (fun loops => by rw [looped] at loops; cases loops) rfl
    exact ⟨settled, rfl, .inl own⟩

end Context.Orderly

namespace Faithful

variable {cx : Context} {o : Oracle} {c : Checker} (faithful : Faithful cx o)
  (ground : cx.Grounded)
include faithful ground

/-! ### Bindings and aliases -/

omit faithful in
theorem seekType {x : SymbolId} {body : Oracle → Check Ty} (span : Span) (name : String)
    (typable : cx.Typable x) (tame : Tame cx o body) (orderly : cx.Orderly c)
    (unsettled : c.isSettled (.typeOf x) = false) :
    TameAt cx o (fun o => search (.typeOf x) (body o) Ty.error (Check.settleType x span name)) c
      fun t c' => cx.TypePromised c' x t := by
  refine .search orderly unsettled (fun _ => nofun) (fun c₁ follows => tame c₁ follows.orderly)
    (fun c₁ _ loops => .inr ⟨rfl, .inr loops⟩) fun _ c₂ p outer follows _ pursuits goal _ _ run => ?_
  exact follows.orderly.settleType ground pursuits goal typable run

theorem typeOfSymbol (x : SymbolId) (orderly : cx.Orderly c) :
    TameAt cx o (fun o => (cx.asking o).typeOfSymbol x) c fun t c' => cx.TypePromised c' x t := by
  cases found : c.symbolTypes.find? x with
  | some t =>
    exact (TameAt.pure orderly (.inl found)).congr fun o' =>
      (cx.asking o').typeOfSymbol_known found
  | none =>
    by_cases typable : cx.Typable x
    · obtain ⟨binding, declared⟩ := typable
      obtain ⟨d, ds, decls⟩ := List.exists_cons_of_ne_nil declared
      have head : (cx.symbol x).decls.head? = some d := by rw [decls]; rfl
      have tame : Tame cx o fun o => (cx.asking o).typeOfDecl d := by
        have thorough := faithful.thorough ground
        cases d with
        | param q => exact thorough.typeOfNode q.ty
        | val v =>
          exact thorough.typeOfVal ground v (ground.decl x (.val v) (List.mem_of_mem_head? head))
        | _ => exact thorough.pure Ty.error
      exact (seekType ground d.name.mark.span (cx.symbol x).name ⟨binding, declared⟩ tame orderly
        (Table.contains_eq_false.mpr found)).congr fun o' =>
          (cx.asking o').typeOfSymbol_search found binding head
    · exact (TameAt.pure orderly (.inr ⟨rfl, .inl typable⟩)).congr fun o' =>
        (cx.asking o').typeOfSymbol_untypable found typable

omit faithful in
theorem seekTarget {x : SymbolId} {body : Oracle → Check Ty} (span : Span) (name : String)
    (tame : Tame cx o body) (orderly : cx.Orderly c)
    (unsettled : c.isSettled (.targetOf x) = false) :
    TameAt cx o (fun o => search (.targetOf x) (body o) Ty.error (Check.settleTarget x span name)) c
      fun t c' => TargetPromised c' x t := by
  refine .search orderly unsettled (fun _ => nofun) (fun c₁ follows => tame c₁ follows.orderly)
    (fun c₁ _ loops => .inr ⟨rfl, loops⟩) fun _ c₂ p outer follows _ pursuits goal _ _ run => ?_
  exact follows.orderly.settleTarget ground pursuits goal run

theorem targetOfAlias (x : SymbolId) (span : Span) (orderly : cx.Orderly c) :
    TameAt cx o (fun o => (cx.asking o).targetOfAlias x span) c fun t c' =>
      TargetPromised c' x t := by
  cases found : c.aliasTargets.find? x with
  | some t =>
    exact (TameAt.pure orderly (.inl found)).congr fun o' =>
      (cx.asking o').targetOfAlias_known found
  | none =>
    have tame : Tame cx o fun o => (cx.asking o).typeOfTarget (cx.symbol x).decls.head? := by
      have thorough := faithful.thorough ground
      rcases (cx.symbol x).decls.head? with _ | _ | _ | d | _
      case some.typeAlias => exact thorough.typeOfNode d.ty
      all_goals exact thorough.pure Ty.error
    exact (seekTarget ground span (cx.symbol x).name tame orderly
      (Table.contains_eq_false.mpr found)).congr fun o' => (cx.asking o').targetOfAlias_search found

/-! ### Functions -/

theorem typeOfParam {q : Param Mark} (node : .param q ∈ cx.program.nodes)
    (orderly : cx.Orderly c) :
    TameAt cx o (fun o => (cx.asking o).typeOfParam q) c fun t c' =>
      ∃ x, cx.targets.find? q.mark.id = some x ∧ cx.TypePromised c' x t := by
  obtain ⟨x, declares⟩ := ground.param q node
  have target : cx.targets.find? q.mark.id = some x := declares.find?
  refine ((faithful.meets_tame (q := .typeOf x) trivial orderly).weaken
    fun t c' _ _ promised => ⟨x, target, promised⟩).congr fun o' => ?_
  simp only [Resolver.typeOfParam, cx.asking_toContext, target]
  rfl

theorem typeOfParams {qs : List (Param Mark)} (nodes : ∀ q ∈ qs, .param q ∈ cx.program.nodes)
    (orderly : cx.Orderly c) :
    TameAt cx o (fun o => qs.mapM (cx.asking o).typeOfParam) c fun ts c' =>
      cx.ParamsPromised c' qs ts := by
  induction qs generalizing c with
  | nil =>
    simp only [List.mapM_nil]
    exact .pure orderly .nil
  | cons q qs ih =>
    simp only [List.mapM_cons]
    refine (faithful.typeOfParam ground (nodes q List.mem_cons_self) orderly).bind ?_
    intro t c₁ _ follows own
    refine (ih (fun r member => nodes r (List.mem_cons_of_mem q member)) follows.orderly).bind ?_
    intro ts c₂ _ follows' rest
    obtain ⟨x, target, promised⟩ := own
    exact .pure follows'.orderly (.cons ⟨x, target, follows'.type promised⟩ rest)

/-- No function gets a signature while the types of parameters are found. -/
theorem typeOfParams_unsigned {d : FnDecl Mark} {qs : List (Param Mark)} {ts : List Ty}
    {c₁ : Checker} (nodes : ∀ q ∈ qs, .param q ∈ cx.program.nodes)
    (new : c.signatures.find? d.mark.id = none)
    (run : qs.mapM (cx.asking o).typeOfParam c = .ok (ts, c₁)) :
    c₁.signatures.find? d.mark.id = none := by
  rw [Spares.mapM (fun q member => faithful.spares.typeOfParam (ground.param q (nodes q member)))
    c ts c₁ run]
  exact new

theorem signatureOf {d : FnDecl Mark} (node : .stmt (.fn d) ∈ cx.program.nodes)
    (orderly : cx.Orderly c) :
    TameAt cx o (fun o => (cx.asking o).signatureOf d) c fun sig c' =>
      cx.SignaturePromised c' d sig := by
  have thorough := faithful.thorough ground
  cases found : c.signatures.find? d.mark.id with
  | some sig =>
    exact (TameAt.pure orderly (.inl found)).congr fun o' => (cx.asking o').signatureOf_known found
  | none =>
    have nodes : ∀ q ∈ d.params, .param q ∈ cx.program.nodes := fun q => Program.param_of_fn node
    refine TameAt.congr ?_ fun o' => (cx.asking o').signatureOf_new found
    refine (faithful.typeOfParams ground nodes orderly).bind fun ts c₁ run follows promised => ?_
    have new := faithful.typeOfParams_unsigned ground nodes found run
    simp only [Resolver.signatureAfter, cx.asking_toContext]
    cases result : d.result with
    | some node' =>
      refine (thorough.typeOfNode node' c₁ follows.orderly).bind fun t c₂ run' follows' _ => ?_
      refine .const (fun _ => rfl) fun sig c' kept => ?_
      cases kept
      have new' : c₂.signatures.find? d.mark.id = none := by
        rw [faithful.spares.typeOfNode node' c₁ t c₂ run']
        exact new
      exact ⟨follows'.orderly.follows_keepDeclared ground node (by simp [result]) _, .refl _,
        .inl (Table.find?_insertNew_self new')⟩
    | none =>
      refine .search follows.orderly (Table.contains_eq_false.mpr new) (fun i same => ?_)
        (fun c₂ follows' => thorough.typeOfExpr ground d.body none (Program.body_of_fn node) c₂
          follows'.orderly)
        (fun c₂ follows' loops => .inr ⟨loops, rfl, rfl, follows'.params promised, rfl⟩)
        fun t c₂ p outer follows' _ pursuits goal sig c' run' => ?_
      · cases same
        exact ⟨d, node, rfl, result⟩
      · exact follows'.orderly.settleResult ground pursuits node goal (follows'.params promised) run'

/-- An oracle for the demands on the way to demands. -/
theorem meet {q : Demand} (posed : cx.Poses q) (orderly : cx.Orderly c) :
    TameAt cx o (cx.meet q) c fun a c' => cx.Promised c' q a := by
  cases q with
  | typeOf x => exact faithful.typeOfSymbol ground x orderly
  | aliasTarget x span => exact faithful.targetOfAlias ground x span orderly
  | signature d => exact faithful.signatureOf ground posed orderly

omit faithful in
theorem oracle (n : Nat) : Faithful cx (cx.oracle n) := by
  induction n with
  | zero => exact ⟨fun _ _ _ _ _ _ => nofun, ⟨fun _ _ => .throw _, fun _ _ _ => .throw _⟩⟩
  | succ n ih =>
    refine ⟨fun q posed c orderly => (ih.meet ground posed orderly).run, ?_⟩
    rw [← Resolver.ofDepth_eq]
    exact .ofDepth cx (n + 1)

end Faithful

end Solo

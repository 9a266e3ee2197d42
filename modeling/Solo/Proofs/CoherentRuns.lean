import Solo.Proofs.Upkeep

/-!
# Checkers stay coherent

Whatever a checker is asked, it stays coherent. Trees are typed so, by induction on the tree, given
an oracle that meets demands so; and by induction on the depth all demands are met so.
-/

namespace Solo

namespace Keeper

open Context (Upholds)
open Context.Upholds (get ite)

variable {cx : Context} {o : Oracle} {c : Checker} (keeper : Keeper cx o) (ground : cx.Grounded)
  (spelled : cx.Spelled)
include keeper ground spelled

/-! ### Trees -/

set_option linter.unusedSectionVars false

mutual
theorem typeOfExpr : ∀ (e : Expr Mark) (expected : Option Ty) {c : Checker}, cx.Coherent c →
    e.nodes ⊆ cx.program.nodes → (∀ t, expected = some t → t.Filed c) →
    cx.Upholds c ((cx.asking o).typeOfExpr e expected) Ty.Filed
  | .lit l, _, _, coherent, inside, _ =>
    .onceExpr ground coherent (e := .lit l) inside nofun
      (.enterType ground coherent
        ((spelled _ (inside (Expr.mem_nodes (.lit l))) _ rfl).mono coherent.names))
  | .name x, expected, _, coherent, inside, wanted =>
    .onceExpr ground coherent (e := .name x) inside nofun
      (keeper.typeOfName ground x coherent wanted)
  | .paren m e, expected, _, coherent, inside, wanted =>
    .onceExpr ground coherent (e := .paren m e) inside nofun
      (typeOfExpr e expected coherent (Answers.below_left inside) wanted)
  | .unary m op e, _, _, coherent, inside, _ => by
    refine .onceExpr ground coherent (e := .unary m op e) inside nofun ?_
    exact (typeOfExpr e none coherent (Answers.below_left inside) nofun).bind
      fun t _ coherent₁ _ _ => keeper.typeOfUnary ground m.span op t coherent₁
  | .bin m op a b, _, _, coherent, inside, _ => by
    refine .onceExpr ground coherent (e := .bin m op a b) inside nofun ?_
    refine (typeOfExpr a none coherent (Answers.below_left (Answers.below_left inside)) nofun).bind
      fun s c₁ coherent₁ _ _ => ?_
    refine (typeOfExpr b none coherent₁ (Answers.below_right (Answers.below_left inside))
      nofun).bind fun t c₂ coherent₂ _ _ => ?_
    exact keeper.typeOfBinary ground m.span op s t coherent₂
  | .call m f args, _, c, coherent, inside, _ => by
    have node := inside (Expr.mem_nodes (.call m f args))
    have within := (List.cons_subset.mp (Answers.below_left inside)).2
    simp only [Resolver.typeOfExpr, cx.asking_toContext]
    refine .onceExpr ground coherent (e := .call m f args) inside nofun ?_
    have ofArgs := typeOfArgs args [] coherent within nofun
    cases cx.symbolAt? f.mark.id with
    | none =>
      exact ofArgs.bind fun _ _ coherent₁ _ _ => .pure coherent₁ (coherent₁.filed.kinds _)
    | some x =>
      dsimp only
      split
      · refine ofArgs.bind fun _ _ coherent₁ _ _ => ?_
        exact ite (fun _ => .reject ground coherent₁ _ _ fun _ coherent' => coherent'.filed.kinds _)
          fun _ => .pure coherent₁ (coherent₁.filed.kinds _)
      · refine (keeper.signaturesOf ground x coherent).bind fun sigs c₁ coherent₁ _ filed => ?_
        refine (typeOfArgs args _ coherent₁ within (expectedArgs_filed filed)).bind
          fun types c₂ coherent₂ onward₂ _ => ?_
        refine (keeper.selectOverload ground _ sigs types coherent₂).bind
          fun found c₃ coherent₃ onward₃ chosen => ?_
        cases found with
        | none => exact .pure coherent₃ (coherent₃.filed.kinds _)
        | some sig =>
          have own := (filed sig (chosen sig rfl)).mono (onward₂.trans onward₃).toExtends
          exact (Upholds.recordSignature ground coherent₃ node own).bind
            fun _ _ coherent₄ onward₄ _ => .pure coherent₄ (own.result.mono onward₄.toExtends)
      · exact ofArgs.bind fun _ _ coherent₁ _ _ =>
          .reject ground coherent₁ _ _ fun _ coherent' => coherent'.filed.kinds _
  | .block m ss tail, expected, c, coherent, inside, wanted => by
    refine .once ground coherent (n := .expr (.block m ss tail)) (inside (Expr.mem_nodes _)) ?_
    refine (checkStmts ss coherent (Answers.below_left (Answers.below_left inside))).bind
      fun _ c₁ coherent₁ onward₁ sought => ?_
    refine (typeOfTail tail expected coherent₁ (Answers.below_right (Answers.below_left inside))
      fun t same => (wanted t same).mono onward₁.toExtends).weaken
        fun t c₂ coherent₂ onward₂ own => ⟨own, fun m' ss' tail' same s member => ?_⟩
    cases same
    exact (sought s member).mono fun x => onward₂.handled coherent₁.orderly
  | .assign m x e, _, c, coherent, inside, _ => by
    have inner : e.nodes ⊆ cx.program.nodes := (List.cons_subset.mp (Answers.below_left inside)).2
    simp only [Resolver.typeOfExpr, cx.asking_toContext]
    refine .onceExpr ground coherent (e := .assign m x e) inside nofun ?_
    cases cx.symbolAt? x.mark.id with
    | none =>
      exact (typeOfExpr e none coherent inner nofun).bind fun _ _ coherent₁ _ _ =>
        .pure coherent₁ (coherent₁.filed.kinds _)
    | some s =>
      refine ite (fun _ => ?_) fun _ => ?_
      · refine (keeper.typeOf s coherent).bind fun declared c₁ coherent₁ _ ⟨own, _⟩ => ?_
        refine (typeOfExpr e (some declared) coherent₁ inner fun t same => ?_).bind
          fun t c₂ coherent₂ _ _ => ?_
        · cases same
          exact own
        · exact (keeper.checkAssignable ground t declared e.span coherent₂).bind
            fun _ _ coherent₃ _ _ => .pure coherent₃ (coherent₃.filed.kinds _)
      · refine (Upholds.report ground coherent _ _).bind fun _ c₁ coherent₁ _ _ => ?_
        exact (typeOfExpr e none coherent₁ inner nofun).bind fun _ _ coherent₂ _ _ =>
          .pure coherent₂ (coherent₂.filed.kinds _)
  | .cases m e arms, expected, c, coherent, inside, wanted => by
    refine .onceExpr ground coherent (e := .cases m e arms) inside nofun ?_
    refine (typeOfExpr e none coherent (Answers.below_left (Answers.below_left inside)) nofun).bind
      fun t c₁ coherent₁ onward₁ _ => ?_
    exact typeOfArms arms t.widenLiteral expected false none coherent₁
      (Answers.below_right (Answers.below_left inside))
      (fun t same => (wanted t same).mono onward₁.toExtends) nofun
  | .inhabitant m node, _, _, coherent, inside, _ =>
    .onceExpr ground coherent (e := .inhabitant m node) inside nofun
      (keeper.typeOfInhabitant ground spelled m coherent (Answers.below_left inside node.mem_nodes))
  | .host m desc, _, _, coherent, inside, _ =>
    .onceExpr ground coherent (e := .host m desc) inside nofun
      (.pure coherent (coherent.filed.kinds _))
termination_by structural e => e

theorem typeOfArgs : ∀ (es : List (Expr Mark)) (expected : List Ty) {c : Checker}, cx.Coherent c →
    exprsNodes es ⊆ cx.program.nodes → (∀ t ∈ expected, t.Filed c) →
    cx.Upholds c ((cx.asking o).typeOfArgs es expected) fun ts c' => ∀ t ∈ ts, t.Filed c'
  | [], _, _, coherent, _, _ => .pure coherent nofun
  | e :: es, expected, _, coherent, inside, wanted => by
    refine (typeOfExpr e expected.head? coherent (Answers.below_left inside) fun t same =>
      wanted t (List.mem_of_mem_head? same)).bind fun t c₁ coherent₁ onward₁ own => ?_
    refine (typeOfArgs es expected.tail coherent₁ (Answers.below_right inside) fun t member =>
      (wanted t (List.mem_of_mem_tail member)).mono onward₁.toExtends).bind
        fun ts c₂ coherent₂ onward₂ rest => .pure coherent₂ ?_
    exact List.forall_mem_cons.mpr ⟨own.mono onward₂.toExtends, rest⟩
termination_by structural es => es

theorem typeOfTail : ∀ (tail : Option (Expr Mark)) (expected : Option Ty) {c : Checker},
    cx.Coherent c → tailNodes tail ⊆ cx.program.nodes → (∀ t, expected = some t → t.Filed c) →
    cx.Upholds c ((cx.asking o).typeOfTail tail expected) Ty.Filed
  | none, _, _, coherent, _, _ => .pure coherent (coherent.filed.kinds _)
  | some e, expected, _, coherent, inside, wanted => typeOfExpr e expected coherent inside wanted
termination_by structural tail => tail

theorem typeOfArms : ∀ (arms : List (Arm Mark)) (scrutinee : Ty) (expected : Option Ty)
    (closed : Bool) (above : Option Ty) {c : Checker}, cx.Coherent c →
    armsNodes arms ⊆ cx.program.nodes → (∀ t, expected = some t → t.Filed c) →
    (∀ t, above = some t → t.Filed c) →
    cx.Upholds c ((cx.asking o).typeOfArms scrutinee expected closed above arms) Ty.Filed
  | [], _, _, _, above, _, coherent, _, _, upper => by
    cases above with
    | none => exact .pure coherent (coherent.filed.kinds _)
    | some t => exact .pure coherent (upper t rfl)
  | ⟨m, q, e⟩ :: arms, scrutinee, expected, closed, above, c, coherent, inside, wanted, upper => by
    have pattern := Answers.below_left (Answers.below_left (Answers.below_left inside))
      q.mem_nodes
    have rest : ∀ {c₁ : Checker}, cx.Coherent c₁ → cx.Onward c c₁ → cx.Upholds c₁ (do
        (cx.asking o).checkPat scrutinee q
        let t ← (cx.asking o).typeOfExpr e expected
        let above ← match above with
          | some prev => (cx.asking o).lub prev t
          | none => Pure.pure t
        (cx.asking o).typeOfArms scrutinee expected (closed || q.isWildcard) (some above) arms)
        Ty.Filed := by
      intro c₁ coherent₁ onward₁
      refine (keeper.checkPat ground spelled scrutinee coherent₁ pattern).bind
        fun _ c₂ coherent₂ onward₂ _ => ?_
      have onward := onward₁.trans onward₂
      refine (typeOfExpr e expected coherent₂
        (Answers.below_right (Answers.below_left (Answers.below_left inside)))
        fun t same => (wanted t same).mono onward.toExtends).bind
          fun t c₃ coherent₃ onward₃ own => ?_
      have further : ∀ (u : Ty) (c₄ : Checker), cx.Coherent c₄ → cx.Onward c₃ c₄ → u.Filed c₄ →
          cx.Upholds c₄ ((cx.asking o).typeOfArms scrutinee expected (closed || q.isWildcard)
            (some u) arms) Ty.Filed := by
        intro u c₄ coherent₄ onward₄ up
        refine typeOfArms arms scrutinee expected _ (some u) coherent₄ (Answers.below_right inside)
          (fun t same => ?_) fun _ same => ?_
        · exact (wanted t same).mono ((onward.trans onward₃).trans onward₄).toExtends
        · cases same
          exact up
      cases above with
      | none => exact Upholds.bind (.pure coherent₃ own) further
      | some prev =>
        exact (keeper.lub ground coherent₃
          ((upper prev rfl).mono (onward.trans onward₃).toExtends) own).bind further
    simp only [Resolver.typeOfArms]
    cases closed with
    | true =>
      exact (Upholds.report ground coherent _ _).bind fun _ _ coherent₁ onward₁ _ =>
        rest coherent₁ onward₁
    | false => exact rest coherent (.refl coherent.orderly)
termination_by structural arms => arms

theorem checkStmt : ∀ (s : Stmt Mark) {c : Checker}, cx.Coherent c →
    s.nodes ⊆ cx.program.nodes →
    cx.Upholds c ((cx.asking o).checkStmt s) fun _ c' => cx.SoughtBy c' s
  | .val ⟨m, kind, name, ty, e⟩, _, coherent, inside => by
    have inner : e.nodes ⊆ cx.program.nodes := Answers.below_right (Answers.below_left inside)
    simp only [Resolver.checkStmt, cx.asking_toContext]
    cases target : cx.symbolAt? m.id with
    | none =>
      refine .pure coherent fun x wrong => ?_
      rw [target] at wrong
      cases wrong
    | some x =>
      have sought : ∀ {c' : Checker}, cx.Sought c' x →
          cx.SoughtBy c' (.val ⟨m, kind, name, ty, e⟩) := by
        intro c' own y target'
        cases target.symm.trans target'
        exact own
      refine (keeper.typeOf x coherent).bind
        fun declared c₁ coherent₁ _ ⟨own, promised⟩ => ite (fun _ => ?_) fun _ => ?_
      · refine (typeOfExpr e (some declared) coherent₁ inner fun t same => ?_).bind
          fun t c₂ coherent₂ onward₂ _ => ?_
        · cases same
          exact own
        · exact (keeper.checkAssignable ground t declared e.span coherent₂).weaken
            fun _ _ _ onward₃ _ => sought ((onward₂.trans onward₃).follows.type promised).sought
      · exact (typeOfExpr e none coherent₁ inner nofun).bind fun _ _ coherent₂ onward₂ _ =>
          .pure coherent₂ (sought (onward₂.follows.type promised).sought)
  | .typeAlias ⟨m, name, ty⟩, _, coherent, _ => by
    simp only [Resolver.checkStmt, cx.asking_toContext]
    cases cx.symbolAt? m.id with
    | none => exact .pure coherent trivial
    | some x =>
      exact (keeper.meets (.aliasTarget x name.mark.span) trivial _ coherent).bind
        fun _ _ coherent₁ _ _ => .pure coherent₁ trivial
  | .fn ⟨m, name, params, result, e⟩, _, coherent, inside => by
    have inner : e.nodes ⊆ cx.program.nodes := Answers.below_right (Answers.below_left inside)
    simp only [Resolver.checkStmt]
    refine (keeper.meets (.signature ⟨m, name, params, result, e⟩) (inside (Stmt.mem_nodes _)) _
      coherent).bind fun sig c₁ coherent₁ _ ⟨filed, sought⟩ => ite (fun _ => ?_) fun _ => ?_
    · refine (typeOfExpr e (some sig.result) coherent₁ inner fun t same => ?_).bind
        fun t c₂ coherent₂ onward₂ _ => ?_
      · cases same
        exact filed.result
      · exact (keeper.checkAssignable ground t sig.result e.span coherent₂).weaken
          fun _ _ _ onward₃ _ => sought.mono fun x =>
            (onward₂.trans onward₃).handled coherent₁.orderly
    · exact (typeOfExpr e none coherent₁ inner nofun).bind fun _ _ coherent₂ onward₂ _ =>
        .pure coherent₂ (sought.mono fun x => onward₂.handled coherent₁.orderly)
  | .expr m e, _, coherent, inside =>
    (typeOfExpr e none coherent (Answers.below_left inside) nofun).bind fun _ _ coherent₁ _ _ =>
      .pure coherent₁ trivial
termination_by structural s => s

/-- Once a list of statements is checked, the bindings that it declares are sought. -/
theorem checkStmts : ∀ (ss : List (Stmt Mark)) {c : Checker}, cx.Coherent c →
    stmtsNodes ss ⊆ cx.program.nodes →
    cx.Upholds c ((cx.asking o).checkStmts ss) fun _ c' => ∀ s ∈ ss, cx.SoughtBy c' s
  | [], _, coherent, _ => .pure coherent nofun
  | s :: ss, _, coherent, inside => by
    refine (checkStmt s coherent (Answers.below_left inside)).bind
      fun _ c₁ coherent₁ onward₁ own => ?_
    refine (checkStmts ss coherent₁ (Answers.below_right inside)).weaken
      fun _ c₂ _ onward₂ rest => List.forall_mem_cons.mpr ⟨?_, rest⟩
    exact own.mono fun x => onward₂.handled coherent₁.orderly
termination_by structural ss => ss
end

theorem typeOfVal {d : ValDecl Mark} (coherent : cx.Coherent c)
    (node : .stmt (.val d) ∈ cx.program.nodes) :
    cx.Upholds c ((cx.asking o).typeOfVal d) Ty.Filed := by
  obtain ⟨m, kind, name, ty, e⟩ := d
  have inside : Stmt.nodes (.val ⟨m, kind, name, ty, e⟩) ⊆ cx.program.nodes :=
    fun n below => Program.mem_below node below
  cases ty with
  | some ty =>
    exact keeper.typeOfNode ground spelled coherent (Answers.below_left inside
      (List.mem_append_left _ (List.mem_cons_of_mem _ ty.mem_nodes)))
  | none =>
    refine (keeper.typeOfExpr ground spelled e none coherent
      (Answers.below_right (Answers.below_left inside)) nofun).bind fun t c₁ coherent₁ _ own => ?_
    exact ite (fun _ => .pure coherent₁ own)
      fun _ => .pure coherent₁ (own.widenLiteral coherent₁.filed)

end Keeper

/-! ### Goals -/

namespace Context

variable {cx : Context} {c c₁ : Checker} {α β : Type} {p : Pursuit} {outer : List Pursuit}

/-- A goal that is not settled is pursued. -/
theorem Upholds.search {g : Goal} {body : Check α} {blocked : β} {finish : α → Bool → Check β}
    {R : α → Checker → Prop} {Q : β → Checker → Prop} (coherent : cx.Coherent c)
    (unsettled : c.isSettled g = false)
    (inferring : ∀ i, g = .resultOf i →
      ∃ d, .stmt (.fn d) ∈ cx.program.nodes ∧ d.mark.id = i ∧ d.result = none)
    (finds : ∀ c₁, cx.Coherent c₁ → cx.Upholds c₁ body R)
    (waits : ∀ c₁, cx.Coherent c₁ → cx.Onward c c₁ → Q blocked c₁)
    (ends : ∀ x c₂ p outer, cx.Coherent c₂ → c.Extends c₂ → cx.Follows c c₂ →
      (∀ y, c.Handled (.typeOf y) → c₂.Handled (.typeOf y)) → R x c₂ → c₂.pursuits = p :: outer →
      p.goal = g → ∀ y c', finish x p.looped { c₂ with pursuits := outer } = .ok (y, c') →
        cx.Concluded outer c₂ c' ∧ Q y c') :
    cx.Upholds c (Solo.search g body blocked finish) Q := by
  cases marked : markLoop? c.isSettled g c.pursuits with
  | some ps =>
    intro y c' run
    cases (search_blocked marked).symm.trans run
    obtain ⟨marks, _⟩ := markLoop?_some marked
    obtain ⟨coherent₁, onward⟩ := coherent.marked marks
    exact ⟨coherent₁, onward, waits _ coherent₁ onward⟩
  | none =>
    have begins := coherent.orderly.follows_begun unsettled
      (markLoop?_none coherent.orderly.unsettled marked) inferring
    have begun := coherent.begun begins
    intro y c' run
    rw [search_begun marked] at run
    cases found : body { c with pursuits := ⟨g, false⟩ :: c.pursuits } with
    | error e =>
      rw [found] at run
      cases run
    | ok r =>
      obtain ⟨x, c₂⟩ := r
      rw [found] at run
      obtain ⟨coherent₂, onward₂, holds⟩ := finds _ begun x c₂ found
      obtain ⟨p, outer, ⟨goal, _⟩, outside, pursuits⟩ := List.forall₂_cons_left_iff.mp onward₂.marks
      obtain ⟨looped, c₃, concluded, ended⟩ := Check.bind_ok run
      rw [Check.conclude_apply, pursuits] at concluded
      cases concluded
      have grown : c.Grown c₂ := ⟨⟨onward₂.names, onward₂.interns⟩,
        onward₂.nodeTypes, onward₂.paths⟩
      have follows := begins.trans onward₂.follows
      have handled : ∀ y, c.Handled (.typeOf y) → c₂.Handled (.typeOf y) := fun y before =>
        onward₂.handled begun.orderly (before.imp id (List.mem_cons_of_mem _))
      obtain ⟨ends, answer⟩ :=
        ends x c₂ p outer coherent₂ grown.toExtends follows handled holds pursuits goal y c' ended
      refine ⟨ends.coherent, ⟨grown.trans ends.grown, follows.trans ends.follows, ?_⟩, answer⟩
      rw [ends.pursuits]
      exact outside

theorem Concluded.report (ground : cx.Grounded) (concluded : cx.Concluded outer c c₁)
    (ds : Array Diagnostic) : cx.Concluded outer c { c₁ with diagnostics := ds } := by
  have grown := concluded.grown
  exact ⟨concluded.coherent.entered ground (.refl _) concluded.coherent.filed.aside,
    concluded.follows.trans (.report ground concluded.coherent.orderly ds), concluded.pursuits,
    ⟨⟨grown.names, grown.interns⟩, grown.nodeTypes, grown.paths⟩⟩

namespace Coherent

variable {x : SymbolId} {span : Span} {name : String} {t u : Ty} {c' : Checker}

/-- The type that is written is the error type if the goal needed itself, which is reported. -/
theorem settle (ground : cx.Grounded) (coherent : cx.Coherent c) (write : Ty → Checker)
    (settled : ∀ u, u.Filed c → (p.looped = true → u = .error) → cx.Concluded outer c (write u))
    (own : t.Filed c)
    (ends : (u = .error ∧ ∃ ds, c' = { write .error with diagnostics := ds }) ∨
      p.looped = false ∧ u = t ∧ c' = write t) : cx.Concluded outer c c' ∧ u.Filed c' := by
  have filed : u.Filed c := by
    rcases ends with ⟨rfl, _⟩ | ⟨_, rfl, _⟩
    · exact coherent.filed.kinds .error
    · exact own
  have concluded : cx.Concluded outer c c' := by
    rcases ends with ⟨rfl, ds, rfl⟩ | ⟨straight, rfl, rfl⟩
    · exact (settled _ filed fun _ => rfl).report ground ds
    · refine settled _ filed fun looped => ?_
      rw [straight] at looped
      cases looped
  exact ⟨concluded, filed.mono concluded.grown.toExtends⟩

theorem settleType (ground : cx.Grounded) (coherent : cx.Coherent c)
    (pursuits : c.pursuits = p :: outer) (goal : p.goal = .typeOf x) (typable : cx.Typable x)
    (own : t.Filed c)
    (run : Check.settleType x span name t p.looped { c with pursuits := outer } = .ok (u, c')) :
    cx.Concluded outer c c' ∧ u.Filed c' := by
  refine coherent.settle (p := p) ground
    (fun u => { c with pursuits := outer, symbolTypes := c.symbolTypes.insertNew x u })
    (fun u filed error => ?_) own ?_
  · obtain ⟨follows, _⟩ := coherent.orderly.follows_settleType pursuits goal typable error
    refine coherent.conclude pursuits follows rfl (fun g before => ?_) ?_
      ⟨⟨.refl _, .refl _⟩, .refl _, fun _ => .inl⟩ ?_ rfl rfl fun _ _ => .inl
    · cases g with
      | typeOf y => exact Table.contains_insertNew.mpr (.inl before)
      | _ => exact before
    · exact goal ▸ Table.contains_insertNew.mpr (.inr rfl)
    · refine coherent.filed.grow ⟨.refl _, .refl _⟩ coherent.filed.interns (fun _ => .inl)
        (fun y v found => ?_) (fun _ _ => .inl) (fun _ _ => .inl) (fun _ _ => .inl) fun _ _ => .inl
      rcases Table.find?_insertNew_cases found with old | rfl
      · exact .inl old
      · exact .inr filed
  · cases looped : p.looped <;> rw [looped] at run <;> cases run
    · exact .inr ⟨rfl, rfl, rfl⟩
    · exact .inl ⟨rfl, _, rfl⟩

theorem settleTarget (ground : cx.Grounded) (coherent : cx.Coherent c)
    (pursuits : c.pursuits = p :: outer) (goal : p.goal = .targetOf x) (own : t.Filed c)
    (run : Check.settleTarget x span name t p.looped { c with pursuits := outer } = .ok (u, c')) :
    cx.Concluded outer c c' ∧ u.Filed c' := by
  refine coherent.settle (p := p) ground
    (fun u => { c with pursuits := outer, aliasTargets := c.aliasTargets.insertNew x u })
    (fun u filed error => ?_) own ?_
  · obtain ⟨follows, _⟩ := coherent.orderly.follows_settleTarget pursuits goal error
    refine coherent.conclude pursuits follows rfl (fun g before => ?_) ?_
      ⟨⟨.refl _, .refl _⟩, .refl _, fun _ => .inl⟩ ?_ rfl rfl fun _ _ => .inl
    · cases g with
      | targetOf y => exact Table.contains_insertNew.mpr (.inl before)
      | _ => exact before
    · exact goal ▸ Table.contains_insertNew.mpr (.inr rfl)
    · refine coherent.filed.grow ⟨.refl _, .refl _⟩ coherent.filed.interns (fun _ => .inl)
        (fun _ _ => .inl) (fun y v found => ?_) (fun _ _ => .inl) (fun _ _ => .inl) fun _ _ => .inl
      rcases Table.find?_insertNew_cases found with old | rfl
      · exact .inl old
      · exact .inr filed
  · cases looped : p.looped <;> rw [looped] at run <;> cases run
    · exact .inr ⟨rfl, rfl, rfl⟩
    · exact .inl ⟨rfl, _, rfl⟩

variable {d : FnDecl Mark} {sig : Signature} {ps : List Pursuit}

theorem filed_keep (filed : c.Filed) (own : sig.Filed c) (i : NodeId) :
    Checker.Filed { c with pursuits := ps, signatures := c.signatures.insertNew i sig } := by
  refine filed.grow ⟨.refl _, .refl _⟩ filed.interns (fun _ => .inl) (fun _ _ => .inl)
    (fun _ _ => .inl) (fun _ _ => .inl) (fun j sig' found => ?_) fun _ _ => .inl
  rcases Table.find?_insertNew_cases found with old | rfl
  · exact .inl old
  · exact .inr { own with }

/-- Only a function whose parameters are sought gets a signature. -/
theorem signed_keep (ground : cx.Grounded) (node : .stmt (.fn d) ∈ cx.program.nodes)
    (sought : cx.SoughtParams c₁ d.params) (d' : FnDecl Mark)
    (node' : .stmt (.fn d') ∈ cx.program.nodes)
    (known : (c.signatures.insertNew d.mark.id sig).contains d'.mark.id = true) :
    c.signatures.contains d'.mark.id = true ∨ cx.SoughtParams c₁ d'.params := by
  rcases Table.contains_insertNew.mp known with old | same
  · exact .inl old
  · cases ground.node_unique node' node same
    exact .inr sought

theorem keepDeclared (ground : cx.Grounded) (coherent : cx.Coherent c)
    (node : .stmt (.fn d) ∈ cx.program.nodes) (declared : d.result ≠ none) (is : sig.decl = d)
    (own : sig.Filed c) (sought : cx.SoughtParams c d.params) :
    cx.Upholds c (Resolver.signatureOf.keep sig) fun sig c' =>
      sig.Filed c' ∧ cx.SoughtParams c' d.params := by
  subst is
  have follows := coherent.orderly.follows_keepDeclared ground node declared sig
  have kept := coherent.step follows (.refl _) (fun _ => id)
    (filed_keep coherent.filed own sig.decl.mark.id) (fun _ _ _ => .inl) (fun _ _ _ _ => .inl)
    fun d' => signed_keep ground node (sought.mono fun _ => id) d'
  intro sig' c' run
  cases run
  exact ⟨kept, ⟨⟨⟨.refl _, .refl _⟩, .refl _, fun _ => .inl⟩, follows, .refl _⟩,
    { own with }, sought.mono fun _ => id⟩

theorem settleResult (ground : cx.Grounded) (coherent : cx.Coherent c) {params : List Ty}
    (pursuits : c.pursuits = p :: outer) (goal : p.goal = .resultOf d.mark.id)
    (node : .stmt (.fn d) ∈ cx.program.nodes) (promised : cx.ParamsPromised c d.params params)
    (filed : ∀ u ∈ params, u.Filed c) (own : t.Filed c) (sought : cx.SoughtParams c d.params)
    (run : Check.settleResult d ((cx.targets.find? d.mark.id).getD Symbol.unresolvedId) params t
      p.looped { c with pursuits := outer } = .ok (sig, c')) :
    cx.Concluded outer c c' ∧ sig.Filed c' ∧ cx.SoughtParams c' d.params := by
  have settled : ∀ {u : Ty}, u.Filed c → (p.looped = true → u = .error) →
      let sig : Signature := ⟨d, (cx.targets.find? d.mark.id).getD Symbol.unresolvedId, params, u⟩
      cx.Concluded outer c
          { c with pursuits := outer, signatures := c.signatures.insertNew d.mark.id sig } ∧
        cx.SoughtParams
          { c with pursuits := outer, signatures := c.signatures.insertNew d.mark.id sig }
          d.params := by
    intro u filed' error sig
    obtain ⟨follows, _⟩ := coherent.orderly.follows_settleResult ground pursuits node goal promised
      error rfl
    have before : ∀ g, c.isSettled g = true → Checker.isSettled { c with
        pursuits := outer, signatures := c.signatures.insertNew d.mark.id sig } g = true := by
      intro g before
      cases g with
      | resultOf i => exact Table.contains_insertNew.mpr (.inl before)
      | _ => exact before
    have self : Checker.isSettled { c with
        pursuits := outer, signatures := c.signatures.insertNew d.mark.id sig } p.goal = true :=
      goal ▸ Table.contains_insertNew.mpr (.inr rfl)
    have later := sought.mono fun x handled => handled.concluded pursuits rfl before self
    exact ⟨coherent.conclude pursuits follows rfl before self
      ⟨⟨.refl _, .refl _⟩, .refl _, fun _ => .inl⟩
      (filed_keep coherent.filed ⟨filed, filed'⟩ _) rfl rfl
      fun d' => signed_keep ground node later d', later⟩
  cases looped : p.looped with
  | true =>
    rw [looped] at run
    cases run
    obtain ⟨concluded, later⟩ := settled (coherent.filed.kinds .error) fun _ => rfl
    exact ⟨concluded.report ground _, ⟨filed, coherent.filed.kinds .error⟩, later.mono fun _ => id⟩
  | false =>
    rw [looped] at run
    cases run
    have widened := own.widenLiteral coherent.filed
    obtain ⟨concluded, later⟩ := settled widened fun loops => by
      rw [looped] at loops
      cases loops
    exact ⟨concluded, ⟨filed, widened⟩, later⟩

end Coherent

end Context

/-! ### Demands -/

theorem Program.result_of_fn {q : Program Mark} {d : FnDecl Mark} {ty : TyNode Mark}
    (node : .stmt (.fn d) ∈ q.nodes) (result : d.result = some ty) : .ty ty ∈ q.nodes := by
  obtain ⟨m, x, qs, _, e⟩ := d
  cases result
  exact mem_below node (List.mem_append_left _ (List.mem_append_left _
    (List.mem_append_right _ ty.mem_nodes)))

theorem Context.ParamsPromised.sought {cx : Context} {c : Checker} {qs : List (Param Mark)}
    {ts : List Ty} (promised : cx.ParamsPromised c qs ts) : cx.SoughtParams c qs := by
  induction promised with
  | nil => nofun
  | cons head _ ih =>
    refine List.forall_mem_cons.mpr ⟨fun x target => ?_, ih⟩
    obtain ⟨y, target', own⟩ := head
    cases target.symm.trans target'
    exact own.sought

namespace Keeper

open Context (Upholds)

variable {cx : Context} {o : Oracle} {c : Checker} (keeper : Keeper cx o) (ground : cx.Grounded)
  (spelled : cx.Spelled)
include keeper ground spelled

theorem typeOfDecl {x : SymbolId} {d : Decl} (coherent : cx.Coherent c)
    (member : d ∈ (cx.symbol x).decls) :
    cx.Upholds c ((cx.asking o).typeOfDecl d) Ty.Filed := by
  have node := ground.decl x d member
  cases d with
  | param q =>
    exact keeper.typeOfNode ground spelled coherent (Program.mem_below node q.mem_nodes_ty)
  | val v => exact keeper.typeOfVal ground spelled coherent node
  | _ => exact .pure coherent (coherent.filed.kinds _)

theorem typeOfSymbol (x : SymbolId) (coherent : cx.Coherent c) :
    cx.Upholds c ((cx.asking o).typeOfSymbol x) Ty.Filed := by
  cases found : c.symbolTypes.find? x with
  | some t =>
    exact (Upholds.pure coherent (coherent.filed.symbolTypes x t found)).congr
      ((cx.asking o).typeOfSymbol_known found)
  | none =>
    by_cases typable : cx.Typable x
    · obtain ⟨binding, declared⟩ := typable
      obtain ⟨d, ds, decls⟩ := List.exists_cons_of_ne_nil declared
      have head : (cx.symbol x).decls.head? = some d := by rw [decls]; rfl
      refine Upholds.congr ?_ ((cx.asking o).typeOfSymbol_search found binding head)
      refine .search coherent (Table.contains_eq_false.mpr found) (fun _ => nofun)
        (fun c₁ coherent₁ =>
          keeper.typeOfDecl ground spelled coherent₁ (List.mem_of_mem_head? head))
        (fun c₁ coherent₁ _ => coherent₁.filed.kinds _)
        fun t c₂ p outer coherent₂ _ _ _ own pursuits goal u c' run => ?_
      exact coherent₂.settleType ground pursuits goal ⟨binding, declared⟩ own run
    · exact (Upholds.pure coherent (coherent.filed.kinds .error)).congr
        ((cx.asking o).typeOfSymbol_untypable found typable)

theorem typeOfTarget (x : SymbolId) (coherent : cx.Coherent c) :
    cx.Upholds c ((cx.asking o).typeOfTarget (cx.symbol x).decls.head?) Ty.Filed := by
  rcases head : (cx.symbol x).decls.head? with _ | _ | _ | d | _
  case some.typeAlias =>
    obtain ⟨m, name, ty⟩ := d
    have node := ground.decl x _ (List.mem_of_mem_head? head)
    exact keeper.typeOfNode ground spelled coherent (Program.mem_below node
      (List.mem_append_left _ (List.mem_cons_of_mem _ ty.mem_nodes)))
  all_goals exact .pure coherent (coherent.filed.kinds _)

theorem targetOfAlias (x : SymbolId) (span : Span) (coherent : cx.Coherent c) :
    cx.Upholds c ((cx.asking o).targetOfAlias x span) Ty.Filed := by
  cases found : c.aliasTargets.find? x with
  | some t =>
    exact (Upholds.pure coherent (coherent.filed.aliasTargets x t found)).congr
      ((cx.asking o).targetOfAlias_known found)
  | none =>
    refine Upholds.congr ?_ ((cx.asking o).targetOfAlias_search found)
    exact .search coherent (Table.contains_eq_false.mpr found) (fun _ => nofun)
      (fun c₁ coherent₁ => keeper.typeOfTarget ground spelled x coherent₁)
      (fun c₁ coherent₁ _ => coherent₁.filed.kinds _)
      fun t c₂ p outer coherent₂ _ _ _ own pursuits goal u c' run =>
        coherent₂.settleTarget ground pursuits goal own run

omit spelled in
theorem typeOfParams : ∀ (qs : List (Param Mark)) {c : Checker}, cx.Coherent c →
    (∀ q ∈ qs, .param q ∈ cx.program.nodes) →
    cx.Upholds c (qs.mapM (cx.asking o).typeOfParam) fun ts c' =>
      (∀ t ∈ ts, t.Filed c') ∧ cx.ParamsPromised c' qs ts
  | [], _, coherent, _ => by
    rw [List.mapM_nil]
    exact .pure coherent ⟨nofun, .nil⟩
  | q :: qs, c, coherent, nodes => by
    rw [List.mapM_cons]
    obtain ⟨x, declares⟩ := ground.param q (nodes q List.mem_cons_self)
    have target : cx.targets.find? q.mark.id = some x := declares.find?
    have own : cx.Upholds c ((cx.asking o).typeOfParam q) fun t c' =>
        t.Filed c' ∧ cx.TypePromised c' x t := by
      simp only [Resolver.typeOfParam, cx.asking_toContext, target]
      exact keeper.typeOf x coherent
    refine own.bind fun t c₁ coherent₁ _ first => ?_
    refine (typeOfParams qs coherent₁ fun r member => nodes r (List.mem_cons_of_mem q member)).bind
      fun ts c₂ coherent₂ onward₂ rest => .pure coherent₂ ⟨?_, ?_⟩
    · exact List.forall_mem_cons.mpr ⟨first.1.mono onward₂.toExtends, rest.1⟩
    · exact .cons ⟨x, target, onward₂.follows.type first.2⟩ rest.2

theorem signatureOf {d : FnDecl Mark} (coherent : cx.Coherent c)
    (node : .stmt (.fn d) ∈ cx.program.nodes) :
    cx.Upholds c ((cx.asking o).signatureOf d) fun sig c' =>
      sig.Filed c' ∧ cx.SoughtParams c' d.params := by
  cases found : c.signatures.find? d.mark.id with
  | some sig =>
    have known : c.signatures.contains d.mark.id = true := by simp [Table.contains, found]
    exact (Upholds.pure coherent ⟨coherent.filed.signatures _ sig found,
      coherent.signed d node known⟩).congr ((cx.asking o).signatureOf_known found)
  | none =>
    have nodes : ∀ q ∈ d.params, .param q ∈ cx.program.nodes := fun q => Program.param_of_fn node
    refine Upholds.congr ?_ ((cx.asking o).signatureOf_new found)
    refine (keeper.typeOfParams ground d.params coherent nodes).run.bind
      fun ts c₁ coherent₁ _ params => ?_
    obtain ⟨⟨filed, promised⟩, run⟩ := params
    have new : c₁.signatures.find? d.mark.id = none := by
      rw [Spares.mapM (fun q member =>
        keeper.faithful.spares.typeOfParam (ground.param q (nodes q member))) c ts c₁ run]
      exact found
    simp only [Resolver.signatureAfter, cx.asking_toContext]
    cases result : d.result with
    | some ty =>
      have inside : .ty ty ∈ cx.program.nodes := Program.result_of_fn node result
      refine (keeper.typeOfNode ground spelled coherent₁ inside).bind
        fun t c₂ coherent₂ onward₂ own => ?_
      exact coherent₂.keepDeclared ground node (by simp [result]) rfl
        ⟨fun u member => (filed u member).mono onward₂.toExtends, own⟩
        (onward₂.follows.params promised).sought
    | none =>
      refine .search coherent₁ (Table.contains_eq_false.mpr new) (fun i same => ?_)
        (fun c₂ coherent₂ => keeper.typeOfExpr ground spelled d.body none coherent₂
          (Program.body_of_fn node) (by rintro _ ⟨⟩))
        (fun c₂ coherent₂ onward₂ => ⟨⟨fun u member => (filed u member).mono onward₂.toExtends,
          coherent₂.filed.kinds _⟩, (onward₂.follows.params promised).sought⟩)
        fun t c₂ p outer coherent₂ grown follows handled own pursuits goal sig c' run => ?_
      · cases same
        exact ⟨d, node, rfl, result⟩
      · exact coherent₂.settleResult ground pursuits goal node (follows.params promised)
          (fun u member => (filed u member).mono grown) own (promised.sought.mono handled) run

/-- An oracle for the demands on the way to demands. -/
theorem meet {q : Demand} (posed : cx.Poses q) (coherent : cx.Coherent c) :
    cx.Upholds c (cx.meet q o) (cx.Fits q) := by
  cases q with
  | typeOf x => exact keeper.typeOfSymbol ground spelled x coherent
  | aliasTarget x span => exact keeper.targetOfAlias ground spelled x span coherent
  | signature d => exact keeper.signatureOf ground spelled coherent posed

omit keeper in
/-- To every depth, demands keep a checker coherent. -/
theorem oracle (n : Nat) : Keeper cx (cx.oracle n) := by
  induction n with
  | zero => exact ⟨.oracle ground 0, fun _ _ _ _ => .throw _⟩
  | succ n ih => exact ⟨.oracle ground (n + 1), fun _ posed _ => ih.meet ground spelled posed⟩

end Keeper

end Solo

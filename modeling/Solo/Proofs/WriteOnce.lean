import Solo.Proofs.Visits
import Solo.Proofs.Assertions
import Solo.Proofs.Moments

/-!
# Binding and checking write once

No node is bound twice, and a check of a program never comes upon an entry that it has written
before, in whatever order demands lead through the program. Trees are visited safely, by induction
on the tree; a demand leads to the expression of a declaration only while its goal is not handled,
so never to one under way; and so, by induction on the depth, all demands are met safely.
-/

namespace Solo

namespace Context

variable (cx : Context)

/-- No expression inside a place is under way. -/
def Clear (A : List (Expr Mark)) (L : List (Node Mark)) : Prop :=
  ∀ K e, cx.At K (.expr e) → L <:+ K → e ∉ A

variable {cx} {A : List (Expr Mark)} {W : List Entry} {c : Checker} {L : List (Node Mark)}
  {e : Expr Mark} {n k : Node Mark}

theorem Clear.cons (clear : cx.Clear A L) (n : Node Mark) : cx.Clear A (n :: L) :=
  fun K e place inside => clear K e place ((List.suffix_cons n L).trans inside)

theorem Clear.not_mem (clear : cx.Clear A L) (place : cx.At L (.expr e)) : e ∉ A :=
  clear L e place (List.suffix_refl L)

/-- Inside the innermost expression nothing else is under way. -/
theorem Tidy.clear (tidy : cx.Tidy (e :: A) W c) (ground : cx.Grounded)
    (L : List (Node Mark)) : cx.Clear (e :: A) (.expr e :: L) :=
  fun _ _ place inside => tidy.trail.clear ground place (inside.subset List.mem_cons_self)

theorem Open.wider (opened : cx.Open A c L n) (e : Expr Mark) : cx.Open (e :: A) c L n :=
  ⟨opened.place, fun k inside f same =>
    (opened.around k inside f same).imp (List.mem_cons_of_mem e) id⟩

/-- The parts of an expression that is begun. -/
theorem Open.inner (opened : cx.Open A c L (.expr e)) (part : k ∈ (Node.expr e).parts) :
    cx.Open (e :: A) c (.expr e :: L) k := by
  refine (opened.wider e).part (fun f same => ?_) part
  cases same
  exact .inl List.mem_cons_self

end Context

namespace Careful

open Context (Safe)
open Context.Safe (get ite silent after reject enterLiteral onceExpr)

variable {cx : Context} {o : Oracle} (careful : Careful cx o) (nested : cx.WellNested)
include careful nested

/-! ### Trees -/

set_option linter.unusedSectionVars false

mutual
theorem typeOfExpr : ∀ (e : Expr Mark) (expected : Option Ty) {A : List (Expr Mark)}
    {W : List Entry} {c : Checker} {L : List (Node Mark)}, cx.Tidy A W c →
    cx.Open A c L (.expr e) → e ∉ A → (∀ g, L.head?.bind cx.inferred? = some g → c.Handled g) →
    cx.Safe A W c ((cx.asking o).typeOfExpr e expected) (cx.Lives A)
  | .lit l, _, _, _, _, _, tidy, opened, new, owned =>
    onceExpr nested.toGrounded tidy opened new owned fun inner => enterLiteral l.value inner
  | .name x, expected, _, _, _, _, tidy, opened, new, owned =>
    onceExpr nested.toGrounded tidy opened new owned fun inner =>
      careful.typeOfName nested expected inner (opened.wider _)
  | .paren m e, expected, _, _, _, _, tidy, opened, new, owned =>
    onceExpr nested.toGrounded tidy opened new owned fun inner =>
      have below := opened.inner List.mem_cons_self
      typeOfExpr e expected inner below ((inner.clear nested.toGrounded _).not_mem below.place) nofun
  | .unary m op e, _, _, _, _, _, tidy, opened, new, owned => by
    refine onceExpr nested.toGrounded tidy opened new owned fun inner => ?_
    have below := opened.inner (k := .expr e) List.mem_cons_self
    refine (typeOfExpr e none inner below ((inner.clear nested.toGrounded _).not_mem below.place)
      nofun).bind fun t c₁ tidy₁ _ live => ?_
    exact careful.typeOfUnary m.span op tidy₁ live
  | .bin m op a b, _, A, W, c, L, tidy, opened, new, owned => by
    refine onceExpr nested.toGrounded tidy opened new owned fun inner => ?_
    have clear := inner.clear nested.toGrounded L
    have left := opened.inner (k := .expr a) List.mem_cons_self
    have right := opened.inner (k := .expr b) (List.mem_cons_of_mem _ List.mem_cons_self)
    refine (typeOfExpr a none inner left (clear.not_mem left.place) nofun).bind
      fun s c₁ tidy₁ later₁ live => ?_
    refine (typeOfExpr b none tidy₁ (right.later later₁) (clear.not_mem right.place) nofun).bind
      fun t c₂ tidy₂ later₂ live' => ?_
    exact careful.typeOfBinary m.span op tidy₂ (live.later later₂) live'
  | .call m f args, _, A, W, c, L, tidy, opened, new, owned => by
    simp only [Resolver.typeOfExpr, cx.asking_toContext]
    refine onceExpr nested.toGrounded (e := .call m f args) tidy opened new owned fun inner => ?_
    have below : ∀ e ∈ args, cx.Open (.call m f args :: A) c (.expr (.call m f args) :: L) (.expr e) :=
      fun e member => opened.inner (List.mem_map_of_mem member)
    have unwritten := List.sublist_cons_self (.signature m.id) W
    have ofArgs := typeOfArgs args [] (inner.drop unwritten) (inner.clear nested.toGrounded _) rfl below
    cases target : cx.symbolAt? f.mark.id with
    | none => exact ofArgs.bind fun _ _ tidy₁ _ _ => .pure tidy₁ (.intrinsic _)
    | some x =>
      dsimp only
      split
      · refine ofArgs.bind fun _ _ tidy₁ _ _ => ?_
        exact ite (fun _ => reject tidy₁ _ _ fun _ => .intrinsic _) fun _ => .pure tidy₁ (.intrinsic _)
      · have live := (opened.wider (.call m f args)).live (nested.resolved L _ opened.place) target
        refine (careful.signaturesOf inner live).bind fun sigs c₁ tidy₁ later₁ signed => ?_
        refine (typeOfArgs args (Resolver.expectedArgs args.length sigs) tidy₁
          (inner.clear nested.toGrounded _) rfl fun e member => (below e member).later later₁).bind
            fun types c₂ tidy₂ later₂ lives => ?_
        refine (careful.selectOverload _ tidy₂ (fun sig member => (signed sig member).mono
          fun n entered => entered.later later₂) lives).bind fun found c₃ tidy₃ later₃ chosen => ?_
        cases found with
        | none => exact .pure (tidy₃.drop unwritten) (.intrinsic _)
        | some sig =>
          refine (Safe.recordSignature nested.toGrounded tidy₃ opened.place (chosen sig rfl)).bind
            fun _ c₄ tidy₄ later₄ _ => .pure tidy₄ ?_
          exact Context.Lives.later (chosen sig rfl).result later₄
      · exact ofArgs.bind fun _ _ tidy₁ _ _ => reject tidy₁ _ _ fun _ => .intrinsic _
  | .block m ss tail, expected, A, W, c, L, tidy, opened, new, owned => by
    refine onceExpr nested.toGrounded tidy opened new owned fun inner => ?_
    have clear := inner.clear nested.toGrounded L
    refine (checkStmts ss inner clear fun s member => opened.inner
      (List.mem_append_left _ (List.mem_map_of_mem member))).bind fun _ c₁ tidy₁ later₁ _ => ?_
    refine typeOfTail tail expected tidy₁ clear rfl fun e last => Context.Open.later ?_ later₁
    exact opened.inner (List.mem_append_right _ (List.mem_map_of_mem (by simp [last])))
  | .assign m x e, _, A, W, c, L, tidy, opened, new, owned => by
    simp only [Resolver.typeOfExpr, cx.asking_toContext]
    refine onceExpr nested.toGrounded (e := .assign m x e) tidy opened new owned fun inner => ?_
    have below := opened.inner (k := .expr e) List.mem_cons_self
    have clear := (inner.clear nested.toGrounded _).not_mem below.place
    cases target : cx.symbolAt? x.mark.id with
    | none =>
      exact (typeOfExpr e none inner below clear nofun).bind fun _ _ tidy₁ _ _ =>
        .pure tidy₁ (.intrinsic _)
    | some s =>
      refine ite (fun _ => ?_) fun _ => ?_
      · have live := (opened.wider (.assign m x e)).live (nested.resolved L _ opened.place) target
        refine (careful.typeOf inner live).bind fun declared c₁ tidy₁ later₁ ⟨found, _⟩ => ?_
        refine (typeOfExpr e (some declared) tidy₁ (below.later later₁) clear nofun).bind
          fun t c₂ tidy₂ later₂ live => ?_
        exact (careful.checkAssignable declared e.span tidy₂ live).bind fun _ _ tidy₃ _ _ =>
          .pure tidy₃ (.intrinsic _)
      · refine after inner (.report _ _) fun _ c₁ tidy₁ later₁ _ => ?_
        exact (typeOfExpr e none tidy₁ (below.later later₁) clear nofun).bind fun _ _ tidy₂ _ _ =>
          .pure tidy₂ (.intrinsic _)
  | .cases m e arms, expected, A, W, c, L, tidy, opened, new, owned => by
    refine onceExpr nested.toGrounded tidy opened new owned fun inner => ?_
    have clear := inner.clear nested.toGrounded L
    have below := opened.inner (k := .expr e) List.mem_cons_self
    refine (typeOfExpr e none inner below (clear.not_mem below.place) nofun).bind
      fun t c₁ tidy₁ later₁ live => ?_
    refine typeOfArms arms t.widenLiteral expected false none tidy₁ clear rfl live.widenLiteral
      nofun fun a member => ?_
    have among : ∀ k ∈ [Node.pat a.pat, .expr a.body], k ∈ (Node.expr (.cases m e arms)).parts :=
      fun k inside => List.mem_cons_of_mem _ (List.mem_flatMap.mpr ⟨a, member, inside⟩)
    exact ⟨(opened.inner (among _ List.mem_cons_self)).later later₁,
      (opened.inner (among _ (List.mem_cons_of_mem _ List.mem_cons_self))).later later₁⟩
  | .inhabitant m node, _, _, _, _, _, tidy, opened, new, owned =>
    onceExpr nested.toGrounded tidy opened new owned fun inner =>
      careful.typeOfInhabitant nested inner (opened.inner List.mem_cons_self)
  | .host m desc, _, _, _, _, _, tidy, opened, new, owned =>
    onceExpr nested.toGrounded tidy opened new owned fun inner => .pure inner (.intrinsic _)
termination_by structural e => e

theorem typeOfArgs : ∀ (es : List (Expr Mark)) (expected : List Ty) {A : List (Expr Mark)}
    {W : List Entry} {c : Checker} {L : List (Node Mark)}, cx.Tidy A W c → cx.Clear A L →
    L.head?.bind cx.inferred? = none → (∀ e ∈ es, cx.Open A c L (.expr e)) →
    cx.Safe A W c ((cx.asking o).typeOfArgs es expected) fun ts c' => ∀ t ∈ ts, cx.Lives A t c'
  | [], _, _, _, _, _, tidy, _, _, _ => .pure tidy nofun
  | e :: es, expected, _, _, _, _, tidy, clear, plain, opened => by
    obtain ⟨own, others⟩ := List.forall_mem_cons.mp opened
    refine (typeOfExpr e expected.head? tidy own (clear.not_mem own.place) (by simp [plain])).bind
      fun t c₁ tidy₁ later₁ live => ?_
    refine (typeOfArgs es expected.tail tidy₁ clear plain fun f member =>
      (others f member).later later₁).bind fun ts c₂ tidy₂ later₂ lives => .pure tidy₂ ?_
    exact List.forall_mem_cons.mpr ⟨live.later later₂, lives⟩
termination_by structural es => es

theorem typeOfTail : ∀ (tail : Option (Expr Mark)) (expected : Option Ty) {A : List (Expr Mark)}
    {W : List Entry} {c : Checker} {L : List (Node Mark)}, cx.Tidy A W c → cx.Clear A L →
    L.head?.bind cx.inferred? = none → (∀ e, tail = some e → cx.Open A c L (.expr e)) →
    cx.Safe A W c ((cx.asking o).typeOfTail tail expected) (cx.Lives A)
  | none, _, _, _, _, _, tidy, _, _, _ => .pure tidy (.intrinsic _)
  | some e, expected, _, _, _, _, tidy, clear, plain, opened =>
    have own := opened e rfl
    typeOfExpr e expected tidy own (clear.not_mem own.place) (by simp [plain])
termination_by structural tail => tail

theorem typeOfArms : ∀ (arms : List (Arm Mark)) (scrutinee : Ty) (expected : Option Ty)
    (closed : Bool) (above : Option Ty) {A : List (Expr Mark)} {W : List Entry} {c : Checker}
    {L : List (Node Mark)},
    cx.Tidy A ((arms.map fun a => .pattern a.pat.mark.id) ++ W) c → cx.Clear A L →
    L.head?.bind cx.inferred? = none → cx.Lives A scrutinee c →
    (∀ t, above = some t → cx.Lives A t c) →
    (∀ a ∈ arms, cx.Open A c L (.pat a.pat) ∧ cx.Open A c L (.expr a.body)) →
    cx.Safe A W c ((cx.asking o).typeOfArms scrutinee expected closed above arms) (cx.Lives A)
  | [], _, _, _, above, _, _, _, _, tidy, _, _, _, live, _ => by
    cases above with
    | none => exact .pure tidy (.intrinsic _)
    | some t => exact .pure tidy (live t rfl)
  | ⟨m, q, e⟩ :: arms, scrutinee, expected, closed, above, A, W, c, L, tidy, clear, plain,
      matched, live, opened => by
    obtain ⟨⟨pat, body⟩, others⟩ := List.forall_mem_cons.mp opened
    have rest : ∀ {c₁ : Checker}, c.Later c₁ →
        cx.Tidy A (.pattern q.mark.id :: ((arms.map fun a => .pattern a.pat.mark.id) ++ W)) c₁ →
        cx.Safe A W c₁ (do
          (cx.asking o).checkPat scrutinee q
          let t ← (cx.asking o).typeOfExpr e expected
          let above ← match above with
            | some prev => (cx.asking o).lub prev t
            | none => Pure.pure t
          (cx.asking o).typeOfArms scrutinee expected (closed || q.isWildcard) (some above) arms)
          (cx.Lives A) := by
      intro c₁ later₁ tidy₁
      refine (careful.checkPat nested tidy₁ (pat.later later₁) (matched.later later₁)).bind
        fun _ c₂ tidy₂ later₂ _ => ?_
      have later := later₁.trans later₂
      refine (typeOfExpr e expected tidy₂ (body.later later) (clear.not_mem body.place)
        (by simp [plain])).bind fun t c₃ tidy₃ later₃ own => ?_
      have onward : ∀ (u : Ty) (c₄ : Checker),
          cx.Tidy A ((arms.map fun a => .pattern a.pat.mark.id) ++ W) c₄ → c₃.Later c₄ →
          cx.Lives A u c₄ → cx.Safe A W c₄ ((cx.asking o).typeOfArms scrutinee expected
            (closed || q.isWildcard) (some u) arms) (cx.Lives A) := by
        intro u c₄ tidy₄ later₄ up
        have later' := (later.trans later₃).trans later₄
        refine typeOfArms arms scrutinee expected _ (some u) tidy₄ clear plain (matched.later later')
          (fun _ same => ?_) fun a member => ?_
        · cases same
          exact up
        · exact ⟨(others a member).1.later later', (others a member).2.later later'⟩
      cases above with
      | none => exact Safe.bind (.pure tidy₃ own) onward
      | some prev =>
        exact (careful.lub tidy₃ ((live prev rfl).later (later.trans later₃)) own).bind onward
    simp only [Resolver.typeOfArms]
    cases closed with
    | true => exact after tidy (.report _ _) fun _ c₁ tidy₁ later₁ _ => rest later₁ tidy₁
    | false => exact rest (.refl c) tidy
termination_by structural arms => arms

theorem checkStmt : ∀ (s : Stmt Mark) {A : List (Expr Mark)} {W : List Entry} {c : Checker}
    {L : List (Node Mark)}, cx.Tidy A W c → cx.Clear A L → cx.Open A c L (.stmt s) →
    cx.Safe A W c ((cx.asking o).checkStmt s) fun _ _ => True
  | .val ⟨m, kind, name, ty, e⟩, _, _, _, L, tidy, clear, opened => by
    have own := opened.part (k := .expr e) .stmt (by simp [Node.parts])
    have new := (clear.cons _).not_mem own.place
    obtain ⟨x, declares, sees⟩ := nested.introduced L _ opened.place _ rfl
    have target : cx.symbolAt? m.id = some x := declares.target
    have typable : cx.Typable x := ⟨declares.isBinding (Decl.val_isBinding _),
      List.ne_nil_of_mem declares.decl⟩
    simp only [Resolver.checkStmt, cx.asking_toContext, target]
    refine (careful.typeOf tidy (sees.live opened.around)).bind
      fun declared c₁ tidy₁ later₁ ⟨_, handled⟩ => ite (fun annotated => ?_) fun _ => ?_
    · refine (typeOfExpr e (some declared) tidy₁ (own.later later₁) new fun g inferred => ?_).bind
        fun t c₂ tidy₂ _ live => careful.checkAssignable declared e.span tidy₂ live
      simp_all [BoundProgram.inferred?]
    · refine (typeOfExpr e none tidy₁ (own.later later₁) new fun g inferred => ?_).bind
        fun _ _ tidy₂ _ _ => .pure tidy₂ trivial
      simp_all [BoundProgram.inferred?]
  | .typeAlias ⟨m, name, ty⟩, _, _, _, L, tidy, clear, opened => by
    obtain ⟨x, declares, sees⟩ := nested.introduced L _ opened.place _ rfl
    have target : cx.symbolAt? m.id = some x := declares.target
    simp only [Resolver.checkStmt, cx.asking_toContext, target]
    exact (careful.meets (.aliasTarget x name.mark.span) tidy (sees.live opened.around)).bind
      fun _ _ tidy₁ _ _ => .pure tidy₁ trivial
  | .fn ⟨m, name, params, result, e⟩, _, _, _, L, tidy, clear, opened => by
    have own := opened.part (k := .expr e) .stmt (by simp [Node.parts])
    have new := (clear.cons _).not_mem own.place
    simp only [Resolver.checkStmt]
    refine (careful.meets (.signature ⟨m, name, params, result, e⟩) tidy ⟨L, opened⟩).bind
      fun sig c₁ tidy₁ later₁ ⟨_, handled⟩ => ite (fun declared => ?_) fun _ => ?_
    · refine (typeOfExpr e (some sig.result) tidy₁ (own.later later₁) new
        fun g inferred => ?_).bind fun t c₂ tidy₂ _ live =>
          careful.checkAssignable sig.result e.span tidy₂ live
      simp_all [BoundProgram.inferred?]
    · refine (typeOfExpr e none tidy₁ (own.later later₁) new fun g inferred => ?_).bind
        fun _ _ tidy₂ _ _ => .pure tidy₂ trivial
      simp_all [BoundProgram.inferred?]
  | .expr m e, _, _, _, _, tidy, clear, opened => by
    have own := opened.part (k := .expr e) .stmt List.mem_cons_self
    exact (typeOfExpr e none tidy own ((clear.cons _).not_mem own.place) nofun).bind
      fun _ _ tidy₁ _ _ => .pure tidy₁ trivial
termination_by structural s => s

theorem checkStmts : ∀ (ss : List (Stmt Mark)) {A : List (Expr Mark)} {W : List Entry}
    {c : Checker} {L : List (Node Mark)}, cx.Tidy A W c → cx.Clear A L →
    (∀ s ∈ ss, cx.Open A c L (.stmt s)) →
    cx.Safe A W c ((cx.asking o).checkStmts ss) fun _ _ => True
  | [], _, _, _, _, tidy, _, _ => .pure tidy trivial
  | s :: ss, _, _, _, _, tidy, clear, opened => by
    obtain ⟨own, others⟩ := List.forall_mem_cons.mp opened
    refine (checkStmt s tidy clear own).bind fun _ c₁ tidy₁ later₁ _ => ?_
    exact checkStmts ss tidy₁ clear fun f member => (others f member).later later₁
termination_by structural ss => ss
end

end Careful

/-! ### Goals -/

namespace Context

variable {cx : Context} {A : List (Expr Mark)} {W : List Entry} {c c₁ : Checker} {α β : Type}
  {a : Check α} {Q : α → Checker → Prop} {p : Pursuit} {outer : List Pursuit}

/-- The innermost goal is settled and given up. -/
theorem Tidy.concluded (tidy : cx.Tidy A W c) (c₁ : Checker)
    (pursuits : c.pursuits = p :: outer) (left : c₁.pursuits = outer) (own : c₁.isSettled p.goal = true)
    (others : ∀ g, g ≠ p.goal → c₁.isSettled g = c.isSettled g)
    (typable : ∀ x t, c₁.symbolTypes.find? x = some t → cx.Typable x)
    (nodeTypes : c₁.nodeTypes = c.nodeTypes) (witnesses : c₁.witnesses = c.witnesses)
    (signatures : ∀ L e, cx.At L (.expr e) →
      c₁.signatures.contains e.id = c.signatures.contains e.id)
    (live : cx.LiveTables (Entered A c) c₁) :
    cx.Tidy A W c₁ ∧ Checker.Later { c with pursuits := outer } c₁ ∧ c₁.Handled p.goal := by
  obtain ⟨orderly, alone, unsettled⟩ := tidy.orderly.innermost pursuits
  have settled : ∀ g, c.isSettled g = true → c₁.isSettled g = true := by
    intro g before
    by_cases same : g = p.goal
    · exact same ▸ own
    · exact (others g same).trans before
  refine ⟨?_, ⟨fun i before => ?_, settled, by rw [left]⟩, .inl own⟩
  · exact tidy.settle (orderly.settled left alone others typable)
      (fun g handled => handled.concluded pursuits left settled own) nodeTypes witnesses signatures
      live
  · rwa [Checker.noted, nodeTypes]

namespace Safe

theorem assertUnsettled {g : Goal} (unsettled : c.isSettled g = false) (safe : cx.Safe A W c a Q) :
    cx.Safe A W c (do cx.assertUnsettled g; a) Q := by
  refine safe.congr ?_
  change (if c.isSettled g = true then _ else _ : Check Unit) c >>= _ = _
  rw [unsettled]
  rfl

/-- A goal that is not settled is pursued, and it is still not settled when its answer is
written. -/
theorem search {g : Goal} {body : Check β} {blocked : α} {finish : β → Bool → Check α}
    {R : β → Checker → Prop} (tidy : cx.Tidy A W c) (unsettled : c.isSettled g = false)
    (inferring : ∀ i, g = .resultOf i →
      ∃ d, .stmt (.fn d) ∈ cx.program.nodes ∧ d.mark.id = i ∧ d.result = none)
    (finds : ∀ c₁, ¬c.Handled g → cx.Tidy A W c₁ → (∀ n, Entered A c n → Entered A c₁ n) →
      c₁.Handled g → cx.Safe A W c₁ body R)
    (waits : ∀ c₁, c.Later c₁ → c₁.Handled g → Q blocked c₁)
    (ends : ∀ x c₂ p outer, cx.Tidy A W c₂ → R x c₂ → c₂.pursuits = p :: outer → p.goal = g →
      c.Later { c₂ with pursuits := outer } →
      cx.Safe A W { c₂ with pursuits := outer } (finish x p.looped) Q) :
    cx.Safe A W c (Solo.search g body blocked fun x looped => do
      cx.assertUnsettled g
      finish x looped) Q := by
  cases marked : markLoop? c.isSettled g c.pursuits with
  | some ps =>
    obtain ⟨marks, _⟩ := markLoop?_some marked
    have later : c.Later { c with pursuits := ps } := ⟨fun _ => id, fun _ => id, marks.goals⟩
    rw [Safe, search_blocked marked]
    exact ⟨tidy.marked marks, later, waits _ later
      (.inr (List.mem_map_of_mem (f := (·.goal)) (markLoop?_goal marked)))⟩
  | none =>
    have alone := markLoop?_none tidy.orderly.unsettled marked
    have fresh : ¬c.Handled g := by
      rintro (settled | member)
      · rw [unsettled] at settled
        cases settled
      · obtain ⟨q, inside, same⟩ := List.mem_map.mp member
        exact alone q inside same
    have begun := tidy.begun (tidy.orderly.follows_begun unsettled alone inferring).orderly
    rcases (finds _ fresh begun (fun _ => id) (.inr List.mem_cons_self)).cases with
      ⟨x, c₂, found, tidy₂, later, holds⟩ | fault
    · obtain ⟨p, outer, pursuits, goal, outside⟩ :
          ∃ p outer, c₂.pursuits = p :: outer ∧ p.goal = g ∧
            outer.map (·.goal) = c.pursuits.map (·.goal) := by
        have goals := later.goals
        cases pursuits : c₂.pursuits with
        | nil =>
          rw [pursuits] at goals
          cases goals
        | cons p outer =>
          rw [pursuits] at goals
          exact ⟨p, outer, rfl, List.head_eq_of_cons_eq goals, List.tail_eq_of_cons_eq goals⟩
      have later' : c.Later { c₂ with pursuits := outer } := ⟨later.noted, later.settled, outside⟩
      have open₂ : c₂.isSettled g = false := goal ▸ (tidy₂.orderly.innermost pursuits).2.2
      have ended := assertUnsettled (c := { c₂ with pursuits := outer }) open₂
        (ends x c₂ p outer tidy₂ holds pursuits goal later')
      have whole : Solo.search g body blocked (fun x looped => do
          cx.assertUnsettled g
          finish x looped) c = (do
            cx.assertUnsettled g
            finish x p.looped : Check α) { c₂ with pursuits := outer } := by
        rw [search_begun marked, found]
        change (Check.conclude c₂).bind _ = _
        rw [Check.conclude_apply, pursuits]
        rfl
      rcases ended.cases with ⟨y, c₃, run, tidy₃, later₃, holds₃⟩ | fault
      · exact .of_run (whole.trans run) tidy₃ (later'.trans later₃) holds₃
      · exact .of_fault (whole.trans fault)
    · refine .of_fault ?_
      rw [search_begun marked, fault]
      rfl

theorem of_reported {x : α} {ds : Array Diagnostic}
    (run : a c = .ok (x, { c₁ with diagnostics := ds })) (tidy : cx.Tidy A W c₁)
    (later : c.Later c₁) (holds : ∀ c₂, c₁.Later c₂ → Q x c₂) : cx.Safe A W c a Q := by
  have same : c₁.SameAnswers { c₁ with diagnostics := ds } := ⟨rfl, rfl, rfl, rfl, rfl, rfl, fun _ => id⟩
  exact of_run run (tidy.alike same) (later.trans same.later) (holds _ same.later)

variable {x : SymbolId} {span : Span} {name : String} {t : Ty}

theorem settleType (tidy : cx.Tidy A W c) (pursuits : c.pursuits = p :: outer)
    (goal : p.goal = .typeOf x) (typable : cx.Typable x) (live : cx.Lives A t c) :
    cx.Safe A W { c with pursuits := outer } (Check.settleType x span name t p.looped)
      fun u c' => cx.Lives A u c' ∧ c'.Handled p.goal := by
  have settled := fun u (alive : cx.Lives A u c) =>
    tidy.concluded { c with pursuits := outer, symbolTypes := c.symbolTypes.insertNew x u }
      pursuits rfl
      (goal ▸ Table.contains_insertNew.mpr (.inr rfl))
      (fun g other => isSettled_of_settleType (goal ▸ other))
      (fun y s found => by
        by_cases same : y = x
        · exact same ▸ typable
        · exact tidy.orderly.typable y s (Table.find?_insertNew_other same ▸ found))
      rfl rfl (fun _ _ _ => rfl)
      { tidy.live with
        symbolTypes := fun y s found =>
          (Table.find?_insertNew_cases found).elim (tidy.live.symbolTypes y s) (· ▸ alive) }
  cases p.looped with
  | true =>
    obtain ⟨tidy₁, later, handled⟩ := settled .error (.intrinsic _)
    exact of_reported rfl tidy₁ later fun c₂ later₂ => ⟨.intrinsic _, later₂.handled handled⟩
  | false =>
    obtain ⟨tidy₁, later, handled⟩ := settled t live
    exact .of_run rfl tidy₁ later ⟨live, handled⟩

theorem settleTarget (tidy : cx.Tidy A W c) (pursuits : c.pursuits = p :: outer)
    (goal : p.goal = .targetOf x) (live : cx.Lives A t c) :
    cx.Safe A W { c with pursuits := outer } (Check.settleTarget x span name t p.looped)
      (cx.Lives A) := by
  have settled := fun u (alive : cx.Lives A u c) =>
    tidy.concluded { c with pursuits := outer, aliasTargets := c.aliasTargets.insertNew x u }
      pursuits rfl
      (goal ▸ Table.contains_insertNew.mpr (.inr rfl))
      (fun g other => isSettled_of_settleTarget (goal ▸ other)) tidy.orderly.typable rfl rfl
      (fun _ _ _ => rfl)
      { tidy.live with
        aliasTargets := fun y s found =>
          (Table.find?_insertNew_cases found).elim (tidy.live.aliasTargets y s) (· ▸ alive) }
  cases p.looped with
  | true =>
    obtain ⟨tidy₁, later, _⟩ := settled .error (.intrinsic _)
    exact of_reported rfl tidy₁ later fun _ _ => .intrinsic _
  | false =>
    obtain ⟨tidy₁, later, _⟩ := settled t live
    exact .of_run rfl tidy₁ later live

variable {d : FnDecl Mark} {L : List (Node Mark)} {params : List Ty}

theorem keepDeclared (ground : cx.Grounded) (tidy : cx.Tidy A W c)
    (place : cx.At L (.stmt (.fn d))) (declared : d.result ≠ none)
    (live : ∀ u ∈ params, cx.Lives A u c) (result : cx.Lives A t c) :
    cx.Safe A W c (Resolver.signatureOf.keep ⟨d, x, params, t⟩) fun sig c' =>
      cx.LiveSignature (Entered A c') sig := by
  have settled : ∀ g, c.isSettled g = true → Checker.isSettled
      { c with signatures := c.signatures.insertNew d.mark.id ⟨d, x, params, t⟩ } g = true := by
    intro g before
    cases g with
    | resultOf i => exact Table.contains_insertNew.mpr (.inl before)
    | _ => exact before
  have signed : cx.LiveSignature (Entered A c) ⟨d, x, params, t⟩ := ⟨live, result⟩
  have tidy₁ := tidy.settle
    (tidy.orderly.follows_keepDeclared ground place.node declared ⟨d, x, params, t⟩).orderly
    (fun g handled => handled.imp (settled g) id) rfl rfl
    (fun _ _ place' => ground.signature_apart place place')
    (tidy.live.keep signed)
  exact .of_run rfl tidy₁ ⟨fun _ => id, settled, rfl⟩ signed

theorem settleResult (ground : cx.Grounded) (tidy : cx.Tidy A W c)
    (pursuits : c.pursuits = p :: outer) (goal : p.goal = .resultOf d.mark.id)
    (place : cx.At L (.stmt (.fn d))) (live : ∀ u ∈ params, cx.Lives A u c) (result : cx.Lives A t c) :
    cx.Safe A W { c with pursuits := outer } (Check.settleResult d x params t p.looped)
      fun sig c' => cx.LiveSignature (Entered A c') sig ∧ c'.Handled p.goal := by
  have settled := fun sig (alive : cx.LiveSignature (Entered A c) sig) =>
    tidy.concluded { c with
      pursuits := outer, signatures := c.signatures.insertNew d.mark.id sig } pursuits rfl
      (goal ▸ Table.contains_insertNew.mpr (.inr rfl))
      (fun g other => isSettled_of_settleSignature outer (goal ▸ other)) tidy.orderly.typable rfl rfl
      (fun _ _ place' => ground.signature_apart place place')
      { tidy.live.keep alive with }
  cases p.looped with
  | true =>
    obtain ⟨tidy₁, later, handled⟩ := settled ⟨d, x, params, .error⟩ ⟨live, .intrinsic _⟩
    exact of_reported rfl tidy₁ later fun c₂ later₂ =>
      ⟨⟨fun u member => BoundProgram.LiveTy.mono (live u member) fun n entered =>
        entered.mono (later.trans later₂).noted, .intrinsic _⟩, later₂.handled handled⟩
  | false =>
    obtain ⟨tidy₁, later, handled⟩ := settled ⟨d, x, params, t.widenLiteral⟩
      ⟨live, BoundProgram.LiveTy.widenLiteral result⟩
    exact .of_run rfl tidy₁ later ⟨⟨live, BoundProgram.LiveTy.widenLiteral result⟩, handled⟩

end Safe

end Context

/-! ### Demands -/

namespace Careful

open Context (Safe)

variable {cx : Context} {o : Oracle} {A : List (Expr Mark)} {W : List Entry} {c : Checker}
  {L : List (Node Mark)} (careful : Careful cx o) (nested : cx.WellNested)
include careful nested

theorem typeOfDecl {d : Decl} {x : SymbolId} {c₁ : Checker} (tidy : cx.Tidy A W c)
    (fresh : ¬c.Handled (.typeOf x)) (member : d ∈ (cx.symbol x).decls)
    (place : cx.At L d.node) (around : ∀ n ∈ L, Entered A c₁ n) (tidy₁ : cx.Tidy A W c₁)
    (handled : c₁.Handled (.typeOf x)) :
    cx.Safe A W c₁ ((cx.asking o).typeOfDecl d) (cx.Lives A) := by
  have opened : cx.Open A c₁ L d.node := ⟨place, around⟩
  cases d with
  | param q => exact careful.typeOfNode nested tidy₁ (opened.part .param List.mem_cons_self)
  | val v =>
    obtain ⟨m, kind, name, ty, e⟩ := v
    cases ty with
    | some node =>
      exact careful.typeOfNode nested tidy₁ (opened.part .stmt (by simp [Decl.node, Node.parts]))
    | none =>
      have own := opened.part (k := .expr e) .stmt (by simp [Decl.node, Node.parts])
      obtain ⟨y, declares, _⟩ := nested.introduced L _ place _ rfl
      cases declares.find?.symm.trans (nested.target x _ member)
      have target : cx.symbolAt? m.id = some x := declares.target
      have inferred : cx.inferred? (.stmt (.val ⟨m, kind, name, none, e⟩)) = some (.typeOf x) := by
        simp [BoundProgram.inferred?, target]
      -- An initializer under way has its goal handled, and this goal was not.
      refine (careful.typeOfExpr nested e none tidy₁ own (fun under => fresh ?_)
        fun g same => ?_).bind fun t c₂ tidy₂ _ live => ?_
      · exact tidy.trail.handled nested.toGrounded under own.place inferred
      · cases inferred.symm.trans same
        exact handled
      · exact Context.Safe.ite (fun _ => .pure tidy₂ live) fun _ => .pure tidy₂ live.widenLiteral
  | _ => exact .pure tidy₁ (.intrinsic _)

/-- The type of a binding is found in a declaration around which everything is begun. -/
theorem typeOfSymbol {x : SymbolId} (tidy : cx.Tidy A W c) (live : cx.Live (Entered A c) x) :
    cx.Safe A W c (cx.meetOnce (.typeOf x) o) fun t c' =>
      cx.Lives A t c' ∧ (cx.Typable x → c'.Handled (.typeOf x)) := by
  cases found : c.symbolTypes.find? x with
  | some t =>
    refine .of_run (cx.meetOnce_type_known o found) tidy (.refl c)
      ⟨tidy.live.symbolTypes x t found, fun _ => .inl ?_⟩
    simp [Checker.isSettled, Table.contains, found]
  | none =>
    by_cases typable : cx.Typable x
    · obtain ⟨binding, declared⟩ := typable
      obtain ⟨d, ds, decls⟩ := List.exists_cons_of_ne_nil declared
      have head : (cx.symbol x).decls.head? = some d := by rw [decls]; rfl
      have member := List.mem_of_mem_head? head
      obtain ⟨L, place, around⟩ := live d member
      refine Safe.congr ?_ (cx.meetOnce_type_search o found binding head)
      refine .search (R := cx.Lives A) tidy (Table.contains_eq_false.mpr found) (fun _ same => ?_)
        (fun c₁ fresh tidy₁ begun handled => ?_)
        (fun c₁ _ handled => ⟨.intrinsic _, fun _ => handled⟩)
        fun t c₂ p outer tidy₂ live₂ pursuits goal _ => ?_
      · cases same
      · exact careful.typeOfDecl nested tidy fresh member place
          (fun n inside => begun n (around n inside)) tidy₁ handled
      · rw [← goal]
        exact (Safe.settleType tidy₂ pursuits goal ⟨binding, declared⟩ live₂).weaken
          fun u c₃ _ _ answer => ⟨answer.1, fun _ => answer.2⟩
    · exact .of_run (cx.meetOnce_type_untypable o found typable) tidy (.refl c)
        ⟨.intrinsic _, fun holds => absurd holds typable⟩

theorem targetOfAlias {x : SymbolId} {span : Span} (tidy : cx.Tidy A W c)
    (live : cx.Live (Entered A c) x) :
    cx.Safe A W c (cx.meetOnce (.aliasTarget x span) o) (cx.Lives A) := by
  cases found : c.aliasTargets.find? x with
  | some t =>
    exact .of_run (cx.meetOnce_target_known o found) tidy (.refl c)
      (tidy.live.aliasTargets x t found)
  | none =>
    refine Safe.congr ?_ (cx.meetOnce_target_search o found)
    refine .search tidy (Table.contains_eq_false.mpr found) (fun _ => nofun)
      (fun c₁ _ tidy₁ begun _ => ?_) (fun _ _ _ => .intrinsic _)
      fun t c₂ p outer tidy₂ live₂ pursuits goal _ => Safe.settleTarget tidy₂ pursuits goal live₂
    cases head : (cx.symbol x).decls.head? with
    | none => exact .pure tidy₁ (.intrinsic _)
    | some d =>
      obtain ⟨L, place, around⟩ := live d (List.mem_of_mem_head? head)
      have opened : cx.Open A c₁ L d.node := ⟨place, fun n inside => begun n (around n inside)⟩
      cases d with
      | typeAlias d => exact careful.typeOfNode nested tidy₁ (opened.part .stmt List.mem_cons_self)
      | _ => exact .pure tidy₁ (.intrinsic _)

theorem typeOfParam {q : Param Mark} (tidy : cx.Tidy A W c) (opened : cx.Open A c L (.param q)) :
    cx.Safe A W c ((cx.asking o).typeOfParam q) (cx.Lives A) := by
  obtain ⟨x, declares, sees⟩ := nested.introduced L _ opened.place
  have target : cx.targets.find? q.mark.id = some x := declares.find?
  simp only [Resolver.typeOfParam, cx.asking_toContext, target]
  exact (careful.typeOf tidy (sees.live opened.around)).weaken fun _ _ _ _ holds => holds.1

/-- The signature of a function is written to an empty place too. -/
theorem signatureOf {d : FnDecl Mark} (tidy : cx.Tidy A W c)
    (opened : cx.Open A c L (.stmt (.fn d))) :
    cx.Safe A W c (cx.meetOnce (.signature d) o) fun sig c' =>
      cx.LiveSignature (Entered A c') sig ∧ (d.result = none → c'.Handled (.resultOf d.mark.id)) := by
  have ground := nested.toGrounded
  have node := opened.place.node
  cases found : c.signatures.find? d.mark.id with
  | some sig =>
    refine .of_run (cx.meetOnce_signature_known o found) tidy (.refl c)
      ⟨tidy.live.signatures _ sig found, fun _ => .inl ?_⟩
    simp [Checker.isSettled, Table.contains, found]
  | none =>
    refine Safe.congr ?_ (cx.meetOnce_signature_new o found)
    have params : cx.Safe A W c (d.params.mapM (cx.asking o).typeOfParam) fun ts c' =>
        ∀ t ∈ ts, cx.Lives A t c' := by
      refine .mapM (P := cx.Lives A) (fun _ _ _ later live => live.later later) tidy
        fun q member c₁ tidy₁ later => careful.typeOfParam nested tidy₁
          ((opened.part .stmt (List.mem_append_left _ (List.mem_map_of_mem member))).later later)
    refine params.run.bind fun ts c₁ tidy₁ later₁ answer => ?_
    obtain ⟨live, run⟩ := answer
    have new : c₁.signatures.find? d.mark.id = none := by
      rw [Spares.mapM (fun q member => careful.spares.typeOfParam
        (ground.param q (Program.param_of_fn node member))) c ts c₁ run]
      exact found
    simp only [Context.signatureAfterOnce]
    cases result : d.result with
    | some t =>
      have ty := opened.part (k := .ty t) .stmt (by simp [Node.parts, result])
      refine (careful.typeOfNode nested tidy₁ (ty.later later₁)).run.bind
        fun t' c₂ tidy₂ later₂ answer => ?_
      obtain ⟨live', run'⟩ := answer
      have new' : c₂.signatures.find? d.mark.id = none := by
        rw [careful.spares.typeOfNode t c₁ t' c₂ run']
        exact new
      refine .assertUnsettled (Table.contains_eq_false.mpr new') ?_
      exact (Safe.keepDeclared ground tidy₂ opened.place (by simp [result])
        (fun u member => Context.Lives.later (live u member) later₂) live').weaken
          fun _ _ _ _ signed => ⟨signed, fun none => absurd none (Option.some_ne_none t)⟩
    | none =>
      have body := opened.part (k := .expr d.body) .stmt (by simp [Node.parts])
      have inferred : cx.inferred? (.stmt (.fn d)) = some (.resultOf d.mark.id) := by
        simp [BoundProgram.inferred?, result]
      refine .search (R := fun t c' => (∀ u ∈ ts, cx.Lives A u c') ∧ cx.Lives A t c') tidy₁
        (Table.contains_eq_false.mpr new) (fun i same => ?_)
        (fun c₂ fresh tidy₂ begun handled => ?_)
        (fun c₂ later₂ handled => ⟨⟨fun u member => Context.Lives.later (live u member) later₂,
          .intrinsic _⟩, fun _ => handled⟩)
        fun t c₂ p outer tidy₂ lives pursuits goal later₂ => ?_
      · cases same
        exact ⟨d, node, rfl, result⟩
      · have own : cx.Open A c₂ (.stmt (.fn d) :: L) (.expr d.body) :=
          ⟨body.place, fun n inside => begun n ((body.later later₁).around n inside)⟩
        refine (careful.typeOfExpr nested d.body none tidy₂ own (fun under => fresh ?_)
          fun g same => ?_).weaken fun t c₃ tidy₃ later₃ live₃ => ⟨fun u member => ?_, live₃⟩
        · exact tidy₁.trail.handled ground under body.place inferred
        · cases inferred.symm.trans same
          exact handled
        · exact Context.Lives.later (BoundProgram.LiveTy.mono (live u member) begun) later₃
      · rw [← goal]
        exact (Safe.settleResult ground tidy₂ pursuits goal opened.place lives.1 lives.2).weaken
          fun sig c₃ _ _ answer => ⟨answer.1, fun _ => answer.2⟩

/-- An oracle for the demands on the way to demands. -/
theorem meetOnce (q : Demand) (tidy : cx.Tidy A W c) (fair : cx.Fair A c q) :
    cx.Safe A W c (cx.meetOnce q o) fun a c' => cx.Fit A c' q a := by
  cases q with
  | typeOf x => exact careful.typeOfSymbol nested tidy fair
  | aliasTarget x span => exact careful.targetOfAlias nested tidy fair
  | signature d =>
    obtain ⟨L, opened⟩ := fair
    exact careful.signatureOf nested tidy opened

omit careful in
/-- To every depth, answers are written to empty places. -/
theorem oracleOnce (n : Nat) : Careful cx (cx.oracleOnce n) := by
  induction n with
  | zero => exact ⟨fun _ _ _ _ _ _ => .endless, Context.sparesTypes_oracleOnce nested.toGrounded 0⟩
  | succ n ih =>
    exact ⟨fun q _ _ _ => ih.meetOnce nested q,
      Context.sparesTypes_oracleOnce nested.toGrounded (n + 1)⟩

end Careful

/-! ### Whole programs -/

theorem Context.Tidy.start (cx : Context) (names : Roster String) :
    cx.Tidy [] [] (.start names) where
  orderly := .start cx names
  trail := .nil
  distinct := .nil
  awaited := nofun
  awaiting := nofun
  written _ _ _ w _ present := by cases w <;> cases present
  live := ⟨nofun, nofun, nofun, nofun, fun x entered => by
    obtain ⟨e, member, own⟩ := Array.mem_map.mp entered
    obtain ⟨k, rfl⟩ := InternCache.mem_start.mp member
    cases own⟩
  patterns := nofun

theorem Context.checkOnce_safe {cx : Context} (nested : cx.WellNested) :
    cx.Safe [] [] (.start cx.names) cx.checkOnce fun _ _ => True := by
  refine (Careful.oracleOnce nested cx.questionBound).checkStmts nested cx.program.stmts
    (L := [.program cx.program]) (.start cx cx.names) nofun fun s member => ⟨?_, ?_⟩
  · exact Under.here.part (List.mem_map_of_mem member)
  · rintro n inside e rfl
    cases inside with
    | tail _ rest => cases rest

theorem Context.checkOnce_eq {cx : Context} (nested : cx.WellNested) :
    cx.checkOnce (.start cx.names) = cx.check (.start cx.names) := by
  rcases checkOnce_asserts nested.toGrounded (.start cx.names) with same | ⟨i, fault⟩
  · exact same
  · rcases (checkOnce_safe nested).cases with ⟨_, _, run, _⟩ | endless
    · rw [fault] at run
      cases run
    · rw [fault] at endless
      cases endless

theorem Context.check_safe {cx : Context} (nested : cx.WellNested) :
    cx.Safe [] [] (.start cx.names) cx.check fun _ _ => True :=
  (checkOnce_safe nested).congr (checkOnce_eq nested).symm

/-- Binding gives no node two symbols. A check never comes upon an entry that it has written
before, also if it does not look first whether the type of a binding, the target of an alias or the
signature of a function is there. -/
theorem Draft.writes_once (d : Draft) (o : Options) :
    let cx := d.context o
    cx.targets.keys.Nodup ∧ cx.checkOnce (.start cx.names) = cx.check (.start cx.names) ∧
      ∀ i, cx.check (.start cx.names) ≠ .error (.rewritten i) := by
  intro cx
  have nested := d.wellNested o
  refine ⟨nested.once, Context.checkOnce_eq nested, fun i fault => ?_⟩
  rcases (Context.check_safe nested).cases with ⟨_, _, run, _⟩ | endless
  · rw [fault] at run
    cases run
  · rw [fault] at endless
    cases endless

end Solo

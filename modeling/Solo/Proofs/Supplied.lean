import Solo.Proofs.ChartedGoals
import Solo.Proofs.Moments

/-!
# Demands again

The demands for what an accepted check found are met again in another check, each after the
findings before it, if the depth allows for them. Or they lead astray: inside one of them a
singleton `x.type` is looked at while the type of `x` is looked for.
-/

namespace Solo

/-- A goal that is not in progress is taken up. -/
theorem markLoop?_of_apart {settled : Goal → Bool} {g : Goal} {ps : List Pursuit}
    (apart : ∀ p ∈ ps, p.goal ≠ g) : markLoop? settled g ps = none := by
  induction ps with
  | nil => rfl
  | cons p ps ih =>
    obtain ⟨other, apart⟩ := List.forall_mem_cons.mp apart
    rw [markLoop?, if_neg other, ih apart]
    split <;> rfl

/-! ### Reports stay -/

namespace Check

theorem settleType_loud (x : SymbolId) (span : Span) (name : String) (t : Ty) (looped : Bool) :
    (settleType x span name t looped).Loud := by
  intro c u c' ended
  cases looped <;> cases ended
  · exact fun _ => id
  · exact fun _ => Array.mem_push_of_mem _

theorem settleTarget_loud (x : SymbolId) (span : Span) (name : String) (t : Ty) (looped : Bool) :
    (settleTarget x span name t looped).Loud := by
  intro c u c' ended
  cases looped <;> cases ended
  · exact fun _ => id
  · exact fun _ => Array.mem_push_of_mem _

theorem settleResult_loud (d : FnDecl Mark) (x : SymbolId) (ts : List Ty) (t : Ty) (looped : Bool) :
    (settleResult d x ts t looped).Loud := by
  intro c u c' ended
  cases looped <;> cases ended
  · exact fun _ => id
  · exact fun _ => Array.mem_push_of_mem _

/-- A goal is given up, and something is done that takes no report back. -/
theorem Loud.conclude {α : Type} {f : Bool → Check α} (rest : ∀ looped, (f looped).Loud) :
    (Check.conclude >>= f).Loud := by
  intro c y c' run
  obtain ⟨looped, c₁, concluded, ended⟩ := bind_ok run
  rw [conclude_apply] at concluded
  split at concluded <;> cases concluded <;> exact fun d => rest _ _ _ _ ended d

end Check

theorem search_loud {α β : Type} {g : Goal} {body : Check α} {blocked : β}
    {finish : α → Bool → Check β} (finds : body.Loud) (ends : ∀ x looped, (finish x looped).Loud) :
    (search g body blocked finish).Loud := by
  intro c y c' run
  cases marked : markLoop? c.isSettled g c.pursuits with
  | some ps =>
    cases (search_blocked marked).symm.trans run
    exact fun _ => id
  | none =>
    rw [search_begun marked] at run
    obtain ⟨r, found, ended⟩ := Except.bind_ok run
    exact fun d member => Check.Loud.conclude (ends r.1) r.2 y c' ended d
      (finds _ r.1 r.2 found d member)

section
variable {cx : Context} {F c c' : Checker} {gs ks : List Finding} {D W : List Entry}
  {N : List (Node Mark)} {o : Oracle} {T : SymbolId → Demand → Checker → Prop} {α β : Type}
  {x : α} {y : β}
  {q : Demand} {n : Nat}

namespace Context

/-- A goal that is not in progress is looked for and found. -/
theorem Retraces.search {g : Goal} {body : Oracle → Check α} {blocked : β} {f : α → Bool → Check β}
    (new : ∀ p ∈ c.pursuits, p.goal ≠ g)
    (finds : cx.Retraces F o T [] N D W body { c with pursuits := ⟨g, false⟩ :: c.pursuits } x)
    (ends : ∀ c₁, cx.Concurs F D W c₁ → ∃ c', f x false c₁ = .ok (y, c') ∧
      cx.Concurs F D W c' ∧ c'.pursuits = c₁.pursuits ∧ c'.evaluating = c₁.evaluating)
    (loud : ∀ x looped, (f x looped).Loud) :
    cx.Retraces F o T [.goal g] N D W (fun o => Solo.search g (body o) blocked f) c y := by
  have begun : ∀ o', Solo.search g (body o') blocked f c = _ :=
    fun o' => search_begun (markLoop?_of_apart new)
  rcases finds with ⟨c₁, run, concurs, goals, evaluating⟩ | ⟨s, detours⟩
  · obtain ⟨c', ended, concurs', goals', evaluating'⟩ :=
      ends { c₁ with pursuits := c.pursuits } (concurs.alike _ _ _ _)
    refine .inl ⟨c', ?_, concurs', goals', evaluating'.trans evaluating⟩
    refine (begun o).trans ?_
    rw [run]
    change (Check.conclude >>= _) c₁ = _
    rw [Check.bind_apply, Check.conclude_apply, goals]
    exact ended
  · refine .inr ⟨s, detours.around begun (fun z => Check.Loud.conclude (loud z))
      fun g' pursued => ?_⟩
    rcases pursued with pursued | none
    · rcases List.mem_cons.mp pursued with rfl | outer
      · exact .inr List.mem_cons_self
      · exact .inl outer
    · cases none

/-! ### Answers that are kept -/

end Context

theorem Table.Within.keep {κ ν : Type} [DecidableEq κ] {t u : Table κ ν} {k : κ} {v : ν}
    (within : t.Within u) (kept : u.find? k = some v) : (t.insertNew k v).Within u := by
  intro i w found
  by_cases same : i = k
  · subst same
    rcases Table.find?_insertNew_cases found with before | rfl
    · exact within i w before
    · exact kept
  · exact within i w (Table.find?_insertNew_other same ▸ found)

theorem Expr.signature_entry (e : Expr Mark) {i : NodeId}
    (entry : .signature i ∈ e.entries) : i = e.id := by
  cases e with
  | call m f args =>
    cases List.mem_singleton.mp entry
    rfl
  | cases m e arms =>
    obtain ⟨_, _, same⟩ := List.mem_map.mp entry
    cases same
  | inhabitant m t => cases List.mem_singleton.mp entry
  | _ => cases entry

namespace Context

theorem Concurs.keepType {x : SymbolId} {t : Ty} (concurs : cx.Concurs F D W c)
    (kept : F.symbolTypes.find? x = some t) :
    cx.Concurs F D W { c with symbolTypes := c.symbolTypes.insertNew x t } :=
  concurs.step (concurs.symbolTypes.keep kept) concurs.aliasTargets concurs.nodeTypes
    concurs.signatures rfl concurs.compared (.refl W) (fun _ => id) (fun w _ => by cases w <;> rfl)
    fun _ _ _ w _ present => .inl (by cases w <;> exact present)

theorem Concurs.keepTarget {x : SymbolId} {t : Ty} (concurs : cx.Concurs F D W c)
    (kept : F.aliasTargets.find? x = some t) :
    cx.Concurs F D W { c with aliasTargets := c.aliasTargets.insertNew x t } :=
  concurs.step concurs.symbolTypes (concurs.aliasTargets.keep kept) concurs.nodeTypes
    concurs.signatures rfl concurs.compared (.refl W) (fun _ => id) (fun w _ => by cases w <;> rfl)
    fun _ _ _ w _ present => .inl (by cases w <;> exact present)

/-- What is looked for after the parameters of a function. -/
theorem signatureAfter_loud (ground : cx.Grounded) {d : FnDecl Mark}
    (node : .stmt (.fn d) ∈ cx.program.nodes) (loud : Loud o) (ts : List Ty) :
    ((cx.asking o).signatureAfter d ts).Loud := by
  have lawful := Lawful.thorough cx
  simp only [Resolver.signatureAfter, cx.asking_toContext]
  cases d.result with
  | some node' =>
    intro c sig c' run
    obtain ⟨t, c₁, found, kept⟩ := Check.bind_ok run
    cases kept
    exact (lawful.typeOfNode node').loud loud c t c₁ found
  | none =>
    exact search_loud ((lawful.typeOfExpr ground d.body none (Program.body_of_fn node)).loud loud)
      (Check.settleResult_loud d _ ts)

theorem Concurs.keepSignature (ground : cx.Grounded) {d : FnDecl Mark} {sig : Signature}
    (node : .stmt (.fn d) ∈ cx.program.nodes) (concurs : cx.Concurs F D W c)
    (kept : F.signatures.find? d.mark.id = some sig) :
    cx.Concurs F D W { c with signatures := c.signatures.insertNew d.mark.id sig } := by
  have free : ∀ {L e w}, cx.At L (.expr e) → w ∈ e.entries →
      ({ c with signatures := c.signatures.insertNew d.mark.id sig } : Checker).has w =
        c.has w := by
    intro L e w place entry
    cases w with
    | signature i =>
      have apart : i ≠ d.mark.id := by
        rintro rfl
        cases ground.node_unique node place.node (e.signature_entry entry)
      simp only [Checker.has, Table.contains, Table.find?_insertNew_other apart]
    | _ => rfl
  refine concurs.step concurs.symbolTypes concurs.aliasTargets concurs.nodeTypes
    (concurs.signatures.keep kept) rfl concurs.compared (.refl W) (fun _ => id)
    (fun w member => ?_) fun L e place w entry present => .inl (free place entry ▸ present)
  obtain ⟨L, e, place, entry⟩ := concurs.placed w (concurs.owned member)
  exact free place entry

/-! ### Demands that are met again -/

/-- A goal is taken up of which nothing is found. -/
theorem Unreached.begin {g : Goal} (unreached : cx.Unreached F ks [.goal g] D c)
    (new : .goal g ∉ ks) :
    cx.Unreached F ks [] D { c with pursuits := ⟨g, false⟩ :: c.pursuits } where
  goals := by
    rw [List.append_nil]
    exact List.forall_mem_cons.mpr
      ⟨new, fun p member inside => unreached.goals p member (List.mem_append_left _ inside)⟩
  under w member n inside := unreached.under w member n
    (List.mem_append_left _ (List.append_nil ks ▸ inside))
  evaluating := unreached.evaluating

theorem Unreached.apart {g : Goal} (unreached : cx.Unreached F ks [.goal g] D c) :
    ∀ p ∈ c.pursuits, p.goal ≠ g := by
  rintro p member rfl
  exact unreached.goals p member (by simp)

section
variable (supplies : cx.Supplies F ks o T) (concurs : cx.Concurs F D W c)
include supplies concurs

theorem Seeks.typeOfSymbol {x : SymbolId} {t : Ty} (seeks : cx.Seeks F ks (.typeOf x) t)
    (kept : F.symbolTypes.find? x = some t) (new : .goal (.typeOf x) ∉ ks)
    (unreached : cx.Unreached F ks [.goal (.typeOf x)] D c) :
    cx.Retraces F o T [.goal (.typeOf x)] (cx.seen (.typeOf x)) D W
      (fun o => (cx.asking o).typeOfSymbol x) c t := by
  cases found : c.symbolTypes.find? x with
  | some u =>
    cases (concurs.symbolTypes x u found).symm.trans kept
    exact (Retraces.pure concurs).congr fun o' => (cx.asking o').typeOfSymbol_known found
  | none =>
    obtain ⟨⟨binding, _⟩, d, head, again⟩ := seeks
    exact (Retraces.search (f := Check.settleType x d.name.mark.span (cx.symbol x).name)
      unreached.apart (again o T supplies D W _ (concurs.alike _ _ _ _) (unreached.begin new))
      (fun c₁ concurs₁ => ⟨_, rfl, concurs₁.keepType kept, rfl, rfl⟩)
      (Check.settleType_loud x _ _)).congr fun o' =>
        (cx.asking o').typeOfSymbol_search found binding head

theorem Seeks.targetOfAlias {x : SymbolId} {span : Span} {t : Ty}
    (seeks : cx.Seeks F ks (.aliasTarget x span) t) (kept : F.aliasTargets.find? x = some t)
    (new : .goal (.targetOf x) ∉ ks) (unreached : cx.Unreached F ks [.goal (.targetOf x)] D c) :
    cx.Retraces F o T [.goal (.targetOf x)] (cx.seen (.aliasTarget x span)) D W
      (fun o => (cx.asking o).targetOfAlias x span) c t := by
  cases found : c.aliasTargets.find? x with
  | some u =>
    cases (concurs.aliasTargets x u found).symm.trans kept
    exact (Retraces.pure concurs).congr fun o' => (cx.asking o').targetOfAlias_known found
  | none =>
    exact (Retraces.search (f := Check.settleTarget x span (cx.symbol x).name)
      unreached.apart (seeks o T supplies D W _ (concurs.alike _ _ _ _) (unreached.begin new))
      (fun c₁ concurs₁ => ⟨_, rfl, concurs₁.keepTarget kept, rfl, rfl⟩)
      (Check.settleTarget_loud x _ _)).congr fun o' => (cx.asking o').targetOfAlias_search found

theorem Seeks.signatureOf (ground : cx.Grounded) {d : FnDecl Mark} {sig : Signature}
    (node : .stmt (.fn d) ∈ cx.program.nodes) (seeks : cx.Seeks F ks (.signature d) sig)
    (kept : F.signatures.find? d.mark.id = some sig) (new : .goal (.resultOf d.mark.id) ∉ ks)
    (unreached : cx.Unreached F ks [.goal (.resultOf d.mark.id)] D c) :
    cx.Retraces F o T [.goal (.resultOf d.mark.id)] (cx.seen (.signature d)) D W
      (fun o => (cx.asking o).signatureOf d) c sig := by
  cases found : c.signatures.find? d.mark.id with
  | some u =>
    cases (concurs.signatures _ u found).symm.trans kept
    exact (Retraces.pure concurs).congr fun o' => (cx.asking o').signatureOf_known found
  | none =>
    obtain ⟨ts, t, params, body, rfl⟩ := seeks
    have lawful := Lawful.thorough cx
    have before : cx.Unreached F ks [] D c := unreached.mono (by simp) (List.Subset.refl ks)
    have paramsLawful : Lawful cx fun o => d.params.mapM (cx.asking o).typeOfParam :=
      lawful.composed.mapM fun q _ => lawful.typeOfParam q
    have first := (params o T supplies D W c concurs before).mono (M := cx.seen (.signature d))
      (List.nil_subset _) (List.nil_subset [.goal (.resultOf d.mark.id)])
    refine (first.bind (f := fun ts o => (cx.asking o).signatureAfter d ts) (paramsLawful.candid o)
      (signatureAfter_loud ground node supplies.loud)
      fun c₁ concurs₁ goals evaluating => ?_).congr fun o' => (cx.asking o').signatureOf_new found
    have unreached₁ := unreached.moved goals evaluating
    unfold Resolver.typeOfBody at body
    simp only [Resolver.signatureAfter, cx.asking_toContext]
    cases result : d.result with
    | some node' =>
      simp only [result] at body kept
      refine ((body o T supplies D W c₁ concurs₁ (before.moved goals evaluating)).mono
        (List.Subset.refl _) (List.nil_subset _)).bind
          (f := fun t _ => Resolver.signatureOf.keep ⟨d, _, ts, t⟩)
          ((lawful.typeOfNode node').candid o)
          (fun t c sig c' kept => by cases kept; exact fun _ => id)
          fun c₂ concurs₂ _ _ => .inl ⟨_, rfl, concurs₂.keepSignature ground node kept, rfl, rfl⟩
    | none =>
      simp only [result] at body kept
      have inside := body o T supplies D W _ (concurs₁.alike _ _ _ _) (unreached₁.begin new)
      exact .search (f := Check.settleResult d _ ts) unreached₁.apart inside
        (fun c₂ concurs₂ => ⟨_, rfl, concurs₂.keepSignature ground node kept, rfl, rfl⟩)
        (Check.settleResult_loud d _ ts)

theorem Seeks.meet (ground : cx.Grounded) {a : q.Answer} (posed : cx.Poses q)
    (seeks : cx.Seeks F ks q a) (kept : q.Kept F a) (new : .goal q.goal ∉ ks)
    (unreached : cx.Unreached F ks [.goal q.goal] D c) :
    cx.Retraces F o T [.goal q.goal] (cx.seen q) D W (cx.meet q) c a := by
  cases q with
  | typeOf x => exact seeks.typeOfSymbol supplies concurs kept new unreached
  | aliasTarget x span => exact seeks.targetOfAlias supplies concurs kept new unreached
  | signature d => exact seeks.signatureOf supplies concurs ground posed kept new unreached

end

/-! ### Demands that lead astray -/

/-- Inside a demand, or in the demand itself, a singleton `x.type` is looked at while the type of
`x` is looked for. If the demand is met, that is reported. -/
structure Astray (cx : Context) (n : Nat) (x : SymbolId) (q : Demand) (c : Checker) : Prop where
  cause : ∃ m p s, cx.Moment (fun o => o q) n c m p s ∧
    .typeOf x ∈ p.goal :: s.pursuits.map (·.goal) ∧ cx.Writes (cx.seen p) x
  effect : ∀ a c', cx.oracle n q c = .ok (a, c') → cx.Tripped x c'

/-- The demands on the way to a demand that an action makes. -/
theorem Moment.through {act : Oracle → Check α} {m : Nat} {p : Demand} {s t : Checker}
    (asks : Asks act (cx.oracle n) c q s) (moment : cx.Moment (fun o => o q) n s m p t) :
    cx.Moment act n c m p t := by
  rcases moment.of_ask with ⟨rfl, rfl, rfl⟩ | ⟨k, rfl, inner⟩
  · exact .made asks
  · exact .inside asks inner

theorem Astray.of_detours {x : SymbolId}
    (detours : cx.Detours (cx.oracle n) (cx.Astray n) [.goal q.goal] (cx.seen q) (cx.meet q) c x) :
    cx.Astray (n + 1) x q c where
  cause := by
    rcases detours.cause with ⟨written, pursued⟩ | ⟨p, s, heeds, astray⟩
    · refine ⟨n + 1, q, c, .made (.self _ q c), ?_, written⟩
      rcases pursued with outer | own
      · exact List.mem_cons_of_mem _ outer
      · exact List.mem_cons.mpr (.inl (Finding.goal.inj (List.mem_singleton.mp own)))
    · obtain ⟨m, p', t, moment, rest⟩ := astray.cause
      exact ⟨m, p', t, .inside (.self _ q c) (moment.through heeds.asks), rest⟩
  effect := detours.effect

/-- To a depth beyond their number, all findings are supplied. -/
theorem Proper.supplies (proper : cx.Proper F) (bound : cx.WellBound) (distinct : gs.Nodup)
    (repeated : ∀ ks i, ks ++ [i] <+: gs → cx.Repeated F ks i) (deep : gs.length < n) :
    cx.Supplies F gs (cx.oracle n) (cx.Astray n) := by
  induction n generalizing gs with
  | zero => exact absurd deep (Nat.not_lt_zero _)
  | succ n ih =>
    have guides := Guides.oracle proper bound (n + 1)
    refine ⟨fun q c a c' run => (guides.grows q c a c' run).diagnostics,
      fun x q c astray => astray.effect, fun x untyped c none => ?_, ?_⟩
    · exact (cx.asking (cx.oracle n)).typeOfSymbol_untypable none untyped
    · rintro ks g before q posed rfl a kept D W c concurs unreached
      obtain ⟨b, kept', seeks⟩ := repeated ks _ before q posed rfl
      cases kept.unique kept'
      have earlier : ks <+: gs := (List.prefix_append ks _).trans before
      have shorter := before.length_le
      rw [List.length_append, List.length_singleton] at shorter
      have supplies : cx.Supplies F ks (cx.oracle n) (cx.Astray n) :=
        ih (distinct.sublist earlier.sublist)
          (fun js i inside => repeated js i (inside.trans earlier)) (by omega)
      have new : .goal q.goal ∉ ks := by
        have both := distinct.sublist before.sublist
        exact fun early => List.disjoint_of_nodup_append both early List.mem_cons_self
      have ground := proper.nested.toGrounded
      exact (seeks.meet supplies concurs ground posed kept new unreached).imp_right
        (Exists.imp fun _ => Astray.of_detours)

end Context

end

end Solo

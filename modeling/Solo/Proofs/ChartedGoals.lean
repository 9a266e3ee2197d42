import Solo.Proofs.ChartedTrees

/-!
# Demands are charted

What is looked for to meet a demand is found, is kept, and can be found again after what was found
before it. So to every depth the demands of an accepted run go on with the course.
-/

namespace Solo

/-- Tables without problems, of a program in which every declaration has a place. -/
structure Context.Proper (cx : Context) (F : Checker) : Prop where
  nested : cx.WellNested
  typed : ∀ x u, F.symbolTypes.find? x = some u → cx.Typable x
  spotless : cx.Spotless F
  stands : ∀ d : Decl, d.node ∈ cx.program.nodes → ∃ L, cx.At L d.node

/-- The answer to a demand is kept, unless there is one already. -/
structure Demand.Settles (q : Demand) (a : q.Answer) (s s' : Checker) : Prop where
  kept : s.isSettled q.goal = false → q.Kept s' a
  within : s.Within s'
  settled : ∀ g, s'.isSettled g = true → s.isSettled g = true ∨ g = q.goal
  nodeTypes : s'.nodeTypes = s.nodeTypes
  subtypes : s'.subtypes = s.subtypes

namespace Demand.Settles

theorem typeOf (x : SymbolId) (t : Ty) (s : Checker) (outer : List Pursuit) :
    Demand.Settles (.typeOf x) t s
      { s with pursuits := outer, symbolTypes := s.symbolTypes.insertNew x t } where
  kept new := Table.find?_insertNew_self (Table.contains_eq_false.mp new)
  within := { (Checker.Grows.refl s).toWithin with symbolTypes := .insertNew _ x t }
  settled g found := by
    cases g with
    | typeOf y => exact (Table.contains_insertNew.mp found).imp_right (congrArg Goal.typeOf)
    | _ => exact .inl found
  nodeTypes := rfl
  subtypes := rfl

theorem aliasTarget (x : SymbolId) (span : Span) (t : Ty) (s : Checker) (outer : List Pursuit) :
    Demand.Settles (.aliasTarget x span) t s
      { s with pursuits := outer, aliasTargets := s.aliasTargets.insertNew x t } where
  kept new := Table.find?_insertNew_self (Table.contains_eq_false.mp new)
  within := { (Checker.Grows.refl s).toWithin with aliasTargets := .insertNew _ x t }
  settled g found := by
    cases g with
    | targetOf y => exact (Table.contains_insertNew.mp found).imp_right (congrArg Goal.targetOf)
    | _ => exact .inl found
  nodeTypes := rfl
  subtypes := rfl

theorem signature (d : FnDecl Mark) (sig : Signature) (s : Checker) (outer : List Pursuit) :
    Demand.Settles (.signature d) sig s
      { s with pursuits := outer, signatures := s.signatures.insertNew d.mark.id sig } where
  kept new := Table.find?_insertNew_self (Table.contains_eq_false.mp new)
  within := { (Checker.Grows.refl s).toWithin with signatures := .insertNew _ d.mark.id sig }
  settled g found := by
    cases g with
    | resultOf i => exact (Table.contains_insertNew.mp found).imp_right (congrArg Goal.resultOf)
    | _ => exact .inl found
  nodeTypes := rfl
  subtypes := rfl

end Demand.Settles

section
variable {cx : Context} {F c c' s s' : Checker} {gs hs : List Finding} {o : Oracle} {q : Demand}
  {a b : q.Answer}

/-- A search in an accepted run is begun and ended, and did not need itself. -/
theorem search_accepted {α β : Type} {g : Goal} {body : Check α} {blocked : β}
    {finish : α → Bool → Check β} {y : β} (grows : ∀ c x c', body c = .ok (x, c') → c.Grows c')
    (reports : ∀ x s y s', finish x true s = .ok (y, s') →
      ∃ d ∈ s'.diagnostics, d.isError = true)
    (run : search g body blocked finish c = .ok (y, c')) (accepted : F.Accepted c') :
    ∃ x c₂ outer, body { c with pursuits := ⟨g, false⟩ :: c.pursuits } = .ok (x, c₂) ∧
      c₂.pursuits = ⟨g, false⟩ :: outer ∧ Checker.Marks c.pursuits outer ∧
        finish x false { c₂ with pursuits := outer } = .ok (y, c') := by
  cases marked : markLoop? c.isSettled g c.pursuits with
  | some ps =>
    cases (search_blocked marked).symm.trans run
    cases accepted.straight _ (markLoop?_goal marked)
  | none =>
    rw [search_begun marked] at run
    cases found : body { c with pursuits := ⟨g, false⟩ :: c.pursuits } with
    | error e =>
      rw [found] at run
      cases run
    | ok r =>
      obtain ⟨x, c₂⟩ := r
      rw [found] at run
      obtain ⟨looped, c₃, concluded, ended⟩ := Check.bind_ok (a := Check.conclude) run
      obtain ⟨⟨g', marked⟩, outer, ⟨same, _⟩, outside, pursuits⟩ :=
        List.forall₂_cons_left_iff.mp (grows _ x c₂ found).pursuits
      cases same
      rw [Check.conclude_apply, pursuits] at concluded
      cases concluded
      cases marked with
      | true =>
        obtain ⟨d, reported, error⟩ := reports x _ y c' ended
        exact (accepted.not_error error reported).elim
      | false => exact ⟨x, c₂, outer, rfl, pursuits, outside, ended⟩

theorem Demand.Kept.mono (kept : q.Kept c a) (within : c.Within F) : q.Kept F a := by
  cases q with
  | typeOf x => exact within.symbolTypes _ _ kept
  | aliasTarget x span => exact within.aliasTargets _ _ kept
  | signature d => exact within.signatures _ _ kept

namespace Context

/-- What is looked for to meet a demand is one thing. -/
theorem Seeks.unique (typed : ∀ x u, F.symbolTypes.find? x = some u → cx.Typable x)
    (first : cx.Seeks F gs q a) (second : cx.Seeks F hs q b) : a = b := by
  cases q with
  | typeOf x =>
    obtain ⟨_, d, head, first⟩ := first
    obtain ⟨_, d', head', second⟩ := second
    cases head.symm.trans head'
    exact first.unique typed second
  | aliasTarget x span => exact Replays.unique typed first second
  | signature d =>
    obtain ⟨params, t, first, first', rfl⟩ := first
    obtain ⟨params', t', second, second', rfl⟩ := second
    cases first.unique typed second
    cases first'.unique typed second'
    rfl

/-- It is found again by every demand for the same goal. -/
theorem Seeks.repeated (ground : cx.Grounded) (posed : cx.Poses q) (seeks : cx.Seeks F gs q a)
    (kept : q.Kept F a) : cx.Repeated F gs (.goal q.goal) := by
  intro p posed' same
  cases q with
  | typeOf x =>
    cases p with
    | typeOf y =>
      cases same
      exact ⟨a, kept, seeks⟩
    | _ => cases same
  | aliasTarget x span =>
    cases p with
    | aliasTarget y span' =>
      cases same
      exact ⟨a, kept, seeks⟩
    | _ => cases same
  | signature d =>
    cases p with
    | signature d' =>
      cases ground.node_unique posed posed' (Goal.resultOf.inj same).symm
      exact ⟨a, kept, seeks⟩
    | _ => cases same

theorem Seeks.placed (concerns : cx.Concerns q) (seeks : cx.Seeks F gs q a) :
    cx.Placed (.goal q.goal) := by
  cases q with
  | typeOf x => exact cx.typable_lt seeks.1
  | aliasTarget x span => exact concerns
  | signature d => exact ⟨_, concerns, rfl⟩

/-- The answer is the one that is found, and it is listed from then on. -/
theorem Course.settle (proper : cx.Proper F) (course : cx.Course F gs s) (concerns : cx.Concerns q)
    (settles : q.Settles a s s') (within : s'.Within F) (seeks : cx.Seeks F gs q a) :
    ∃ ls, cx.Advances F [] gs ls s s' ∧ .goal q.goal ∈ gs ++ ls ∧ q.Kept F a := by
  by_cases listed : .goal q.goal ∈ gs
  · obtain ⟨ks, before, repeated⟩ := course.again listed
    obtain ⟨b, kept, again⟩ := repeated q concerns.poses rfl
    cases seeks.unique proper.typed again
    refine ⟨[], .still ?_ settles.within, by simpa using listed, kept⟩
    refine { course with
      settled := fun p concerns' found => ?_
      noted := ?_
      compared := settles.subtypes ▸ course.compared }
    · rcases settles.settled p.goal found with before | same
      · exact course.settled p concerns' before
      · exact same ▸ listed
    · exact fun L n place typed => by
        rw [Checker.noted, settles.nodeTypes]
        exact course.noted L n place typed
  · have new : s.isSettled q.goal = false := by
      rw [← Bool.not_eq_true]
      exact fun found => listed (course.settled q concerns found)
    have kept : q.Kept F a := (settles.kept new).mono within
    have repeated := seeks.repeated proper.nested.toGrounded concerns.poses kept
    refine ⟨[.goal q.goal], ⟨?_, .nothing s s', settles.within⟩, by simp, kept⟩
    refine course.snoc repeated listed (seeks.placed concerns) (fun p _ found => ?_)
      (fun L n _ _ => ?_) settles.subtypes
    · exact (settles.settled p.goal found).imp_right (congrArg Finding.goal)
    · rw [Checker.noted, settles.nodeTypes]
      exact ⟨.inl, fun either => either.resolve_right fun same => by cases same⟩

/-- What a demand looks for is charted: then its answer is kept. -/
theorem Charts.settle {α : Type} {N : List (Node Mark)} {act : Oracle → Check α} {x : α}
    (proper : cx.Proper F) (charts : cx.Charts F o True [] N act fun _ => True)
    (run : act o c = .ok (x, s)) (accepted : F.Accepted s) (course : cx.Course F gs c)
    (concerns : cx.Concerns q) (settles : q.Settles a s s') (within : s'.Within F)
    (seeks : ∀ ls, cx.Replays F (gs ++ ls) [] N [] act x → cx.Seeks F (gs ++ ls) q a) :
    ∃ ls, cx.Advances F [] gs ls c s' ∧ .goal q.goal ∈ gs ++ ls ∧ q.Kept F a := by
  obtain ⟨ls, searched, replays, _⟩ := charts.leads trivial c x s run accepted gs course
  obtain ⟨ks, settled, listed, kept⟩ :=
    searched.course.settle proper concerns settles within (seeks ls replays)
  exact ⟨ls ++ ks, searched.trans settled, List.append_assoc gs ls ks ▸ listed, kept⟩

theorem Advances.aside {ls : List Finding} {ps : List Pursuit}
    (advances : cx.Advances F [] gs ls { c with pursuits := ps } c') :
    cx.Advances F [] gs ls c c' where
  course := advances.course
  wrote := { advances.wrote with }
  within := { advances.within with }

end Context

/-- A goal was given up, and nothing else has changed. -/
theorem Checker.Accepted.inner {g : Goal} {outer : List Pursuit} (accepted : F.Accepted c')
    (within : c.Within c') (same : c'.diagnostics = c.diagnostics)
    (pursuits : c.pursuits = ⟨g, false⟩ :: outer) (left : c'.pursuits = outer) : F.Accepted c where
  within := within.trans accepted.within
  told := same ▸ accepted.told
  mild := accepted.mild
  straight := by
    rw [pursuits]
    exact List.forall_mem_cons.mpr ⟨rfl, left ▸ accepted.straight⟩

theorem signatureAfter_accepted {d : FnDecl Mark} {ts : List Ty} {sig : Signature}
    (grows : ∀ c t c', (cx.asking o).typeOfBody d c = .ok (t, c') → c.Grows c')
    (run : (cx.asking o).signatureAfter d ts c = .ok (sig, c')) (accepted : F.Accepted c') :
    ∃ goals t s, (cx.asking o).typeOfBody d { c with pursuits := goals } = .ok (t, s) ∧
      F.Accepted s ∧ c.Grows c' ∧
      sig = ⟨d, (cx.targets.find? d.mark.id).getD Symbol.unresolvedId, ts,
        if d.result.isSome then t else t.widenLiteral⟩ ∧
      Demand.Settles (.signature d) sig s c' := by
  unfold Resolver.typeOfBody at grows ⊢
  simp only [Resolver.signatureAfter, cx.asking_toContext] at run
  cases result : d.result with
  | some node =>
    simp only [result] at run grows
    obtain ⟨t, s, run₁, kept⟩ := Check.bind_ok run
    cases kept
    refine ⟨c.pursuits, t, s, run₁, ?_, (grows c t s run₁).trans ?_, rfl, .signature d _ s _⟩
    · exact accepted.before { Checker.Grows.refl s with signatures := .insertNew _ d.mark.id _ }
    · exact { Checker.Grows.refl s with signatures := .insertNew _ d.mark.id _ }
  | none =>
    simp only [result] at run grows
    obtain ⟨t, s, outer, run₁, pursuits, marks, ended⟩ := search_accepted grows
      (fun u s y s' ended => by cases ended; exact ⟨_, Array.mem_push_self, rfl⟩) run accepted
    cases ended
    refine ⟨_, t, s, run₁, accepted.inner ?_ rfl pursuits rfl, ?_, rfl, .signature d _ s outer⟩
    · exact (Demand.Settles.signature d _ s outer).within
    · exact { grows _ t s run₁ with
        signatures := (grows _ t s run₁).signatures.trans (.insertNew _ d.mark.id _)
        pursuits := marks }

namespace Context.Guides

variable (guides : cx.Guides F o) (proper : cx.Proper F)
include guides proper

theorem typeOfSymbol {x : SymbolId} {t : Ty} (run : (cx.asking o).typeOfSymbol x c = .ok (t, c'))
    (accepted : F.Accepted c') (course : cx.Course F gs c) :
    ∃ ls, cx.Advances F [] gs ls c c' ∧ cx.Met F (gs ++ ls) (.typeOf x) t := by
  have still := Advances.refl course
  cases found : c.symbolTypes.find? x with
  | some u =>
    cases ((cx.asking o).typeOfSymbol_known found).symm.trans run
    have listed := still.course.settled (.typeOf x) trivial (Option.isSome_of_eq_some found)
    exact ⟨[], still, .path (accepted.within.symbolTypes x _ found) listed⟩
  | none =>
    by_cases typable : cx.Typable x
    · obtain ⟨binding, declared⟩ := typable
      obtain ⟨d, ds, decls⟩ := List.exists_cons_of_ne_nil declared
      have head : (cx.symbol x).decls.head? = some d := by rw [decls]; rfl
      obtain ⟨L, place⟩ := proper.stands d
        (proper.nested.decl x d (List.mem_of_mem_head? head))
      have charts : cx.Charts F o True [] d.seen (fun o => (cx.asking o).typeOfDecl d)
          fun _ => True := .typeOfDecl guides proper.nested proper.typed proper.spotless place
      rw [(cx.asking o).typeOfSymbol_search found binding head] at run
      obtain ⟨u, c₂, outer, run₁, pursuits, _, ended⟩ := search_accepted charts.grows
        (fun u s y s' ended => by cases ended; exact ⟨_, Array.mem_push_self, rfl⟩) run accepted
      cases ended
      have settles := Demand.Settles.typeOf x u c₂ outer
      have accepted₂ := accepted.inner settles.within rfl pursuits rfl
      obtain ⟨ls, advances, listed, kept⟩ := charts.settle (q := .typeOf x) proper run₁ accepted₂
        { course with } trivial settles accepted.within
        fun ls replays => ⟨⟨binding, declared⟩, d, head, by rwa [seen, head]⟩
      exact ⟨ls, advances.aside, .path kept listed⟩
    · cases ((cx.asking o).typeOfSymbol_untypable found typable).symm.trans run
      refine ⟨[], still, .untyped typable ?_⟩
      by_contra some
      obtain ⟨u, known⟩ := Option.ne_none_iff_exists'.mp some
      exact typable (proper.typed x u known)

theorem targetOfAlias {x : SymbolId} {span : Span} {t : Ty} (small : x < cx.symbols.size)
    (run : (cx.asking o).targetOfAlias x span c = .ok (t, c')) (accepted : F.Accepted c')
    (course : cx.Course F gs c) :
    ∃ ls, cx.Advances F [] gs ls c c' ∧ cx.Met F (gs ++ ls) (.aliasTarget x span) t := by
  cases found : c.aliasTargets.find? x with
  | some u =>
    cases ((cx.asking o).targetOfAlias_known found).symm.trans run
    have still := Advances.refl course
    have listed := still.course.settled (.aliasTarget x span) small (Option.isSome_of_eq_some found)
    exact ⟨[], still, listed, accepted.within.aliasTargets x _ found⟩
  | none =>
    have charts : cx.Charts F o True [] (cx.seen (.aliasTarget x span))
        (fun o => (cx.asking o).typeOfTarget (cx.symbol x).decls.head?) fun _ => True :=
      .typeOfTarget guides proper.nested proper.typed proper.spotless fun d head =>
        proper.stands d (proper.nested.decl x d (List.mem_of_mem_head? head))
    rw [(cx.asking o).targetOfAlias_search found] at run
    obtain ⟨u, c₂, outer, run₁, pursuits, _, ended⟩ := search_accepted charts.grows
      (fun u s y s' ended => by cases ended; exact ⟨_, Array.mem_push_self, rfl⟩) run accepted
    cases ended
    have settles := Demand.Settles.aliasTarget x span u c₂ outer
    have accepted₂ := accepted.inner settles.within rfl pursuits rfl
    obtain ⟨ls, advances, listed, kept⟩ := charts.settle (q := .aliasTarget x span) proper run₁
      accepted₂ { course with } small settles accepted.within fun ls replays => replays
    exact ⟨ls, advances.aside, listed, kept⟩

theorem signatureOf {d : FnDecl Mark} {sig : Signature} (node : .stmt (.fn d) ∈ cx.program.nodes)
    (run : (cx.asking o).signatureOf d c = .ok (sig, c')) (accepted : F.Accepted c')
    (course : cx.Course F gs c) :
    ∃ ls, cx.Advances F [] gs ls c c' ∧ cx.Met F (gs ++ ls) (.signature d) sig := by
  cases found : c.signatures.find? d.mark.id with
  | some known =>
    cases ((cx.asking o).signatureOf_known found).symm.trans run
    have still := Advances.refl course
    have listed := still.course.settled (.signature d) node (Option.isSome_of_eq_some found)
    exact ⟨[], still, listed, accepted.within.signatures _ _ found⟩
  | none =>
    obtain ⟨L, place⟩ := proper.stands (.fn d) node
    have params : cx.Charts F o True [] [] (fun o => d.params.mapM (cx.asking o).typeOfParam)
        fun _ => True := .params guides proper.nested node
    have body : cx.Charts F o True [] (cx.seen (.signature d))
        (fun o => (cx.asking o).typeOfBody d) fun _ => True :=
      .typeOfBody guides proper.nested proper.typed proper.spotless place
    rw [(cx.asking o).signatureOf_new found] at run
    obtain ⟨ts, c₁, run₁, rest⟩ := Check.bind_ok run
    obtain ⟨goals, t, s, run₂, accepted₂, grows, rfl, settles⟩ :=
      signatureAfter_accepted body.grows rest accepted
    obtain ⟨ls, typed, replays₁, _⟩ :=
      params.leads trivial c ts c₁ run₁ (accepted.before grows) gs course
    obtain ⟨ks, settled, listed, found'⟩ := body.settle (q := .signature d) proper run₂ accepted₂
      { typed.course with } node settles accepted.within fun js replays₂ =>
        ⟨ts, t, replays₁.mono (by simp) nofun (List.Subset.refl _), replays₂, rfl⟩
    rw [List.append_assoc] at listed
    exact ⟨ls ++ ks, typed.trans settled.aside, listed, found'⟩

omit guides in
/-- To every depth, accepted demands go on with the course. -/
theorem oracle (bound : cx.WellBound) (n : Nat) : cx.Guides F (cx.oracle n) := by
  have grows : ∀ n q c a c', cx.oracle n q c = .ok (a, c') → c.Grows c' := by
    intro n q c a c' run
    have answers := Answers.ofDepth bound F n
    rw [Resolver.ofDepth_eq] at answers
    cases q with
    | typeOf x => exact (answers.typeOf x c a c' run).1
    | aliasTarget x span => exact (answers.aliasTarget x span c a c' run).1
    | signature d => exact (answers.signature d c a c' run).1
  induction n with
  | zero => exact ⟨grows 0, fun _ _ _ _ _ => nofun⟩
  | succ n ih =>
    refine ⟨grows (n + 1), fun q concerns c a c' run accepted gs course => ?_⟩
    cases q with
    | typeOf x => exact ih.typeOfSymbol proper run accepted course
    | aliasTarget x span => exact ih.targetOfAlias proper concerns run accepted course
    | signature d => exact ih.signatureOf proper concerns run accepted course

end Context.Guides

end

end Solo

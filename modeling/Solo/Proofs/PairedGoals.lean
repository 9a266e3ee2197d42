import Solo.Proofs.PairedTrees

/-!
# Demands side by side

The oracle of the second check, to every depth, meets the demands for the first program with the
counterparts of what the tables have. A goal of the first program is never found to need itself,
since this would be reported, or, for an alias, since its target does not lead back to it.
-/

namespace Solo

namespace Graft

namespace Guided

variable {g : Graft} {o : Oracle} {skip : Option NodeId} {P : Prop} {L : List (Node Mark)}
  (guided : g.Guided o)
include guided

/-! ### Declarations -/

theorem typeOfVal {d d' : ValDecl Mark} (place : g.cx.At L (.stmt (.val d)))
    (gains : Stmt.Gains g.ν (.val d) (.val d')) (member : .stmt (.val d') ∈ g.cx'.program.nodes) :
    g.Pair none P ((g.cx.asking g.F.recall).typeOfVal d) ((g.cx'.asking o).typeOfVal d')
      fun t u => u = g.move t := by
  obtain ⟨m, kind, x, ty, e⟩ := d
  obtain ⟨m', x', ty', e', same, _, _, hint, init⟩ := gains
  cases same
  have inside := Answers.below_left (fun _ => Program.mem_below member)
  cases ty with
  | some node =>
    obtain ⟨node', rfl, gains⟩ := hint
    have inType : node'.nodes ⊆ _ := Answers.below_left (List.cons_subset.mp inside).2
    exact (guided.typeOfNode (place.part (by simp [Node.parts])) gains
      (inType (TyNode.mem_nodes node')) (Option.some_ne_none _)).weaken (P := P) id
        fun _ _ _ given => given.2
  | none =>
    obtain rfl := hint
    refine (guided.typeOfExpr (place.part (by simp [Node.parts])) init
      (Answers.below_right inside) (fun _ _ => Option.some_ne_none _) fun _ => ⟨rfl, rfl⟩).bind
        fun t u => ?_
    refine .branch (p := kind = .finalVal ∧ g.cx.options.inferFinalSingleton = true)
      (q := kind = .finalVal ∧ g.cx'.options.inferFinalSingleton = true)
      (fun _ => by rw [g.options]) (.pure fun given => given.1.2.2.1) (.pure fun given => ?_)
    rw [given.1.2.2.1, Ty.widenLiteral_move]

theorem typeOfDecl {d d' : Decl} (place : g.cx.At L d.node) (gains : d.Gains g.ν d')
    (member : d'.node ∈ g.cx'.program.nodes) :
    g.Pair none P ((g.cx.asking g.F.recall).typeOfDecl d) ((g.cx'.asking o).typeOfDecl d')
      fun t u => u = g.move t := by
  cases d with
  | param q =>
    obtain ⟨⟨m', x', ty'⟩, rfl, _, same, _, _, own⟩ := gains.param
    cases same
    exact (guided.typeOfNode (place.part List.mem_cons_self) own
      (Program.mem_below member (List.mem_cons_of_mem _ (List.mem_append_left _
        (TyNode.mem_nodes ty')))) (Option.some_ne_none _)).weaken (P := P) id
          fun _ _ _ given => given.2
  | val d =>
    obtain ⟨_, rfl, own⟩ := gains.val
    exact guided.typeOfVal place own member
  | typeAlias d =>
    obtain ⟨_, rfl, _⟩ := gains.typeAlias
    exact .pure fun _ => rfl
  | fn d =>
    obtain ⟨_, rfl, _⟩ := gains.fn
    exact .pure fun _ => rfl

theorem typeOfParam {q q' : Param Mark} (place : g.cx.At L (.param q))
    (gains : Node.Gains g.ν (.param q) (.param q')) :
    g.Pair none P ((g.cx.asking g.F.recall).typeOfParam q) ((g.cx'.asking o).typeOfParam q')
      fun t u => u = g.move t := by
  obtain ⟨_, same, id', _, gains⟩ := gains
  cases same
  obtain ⟨x, declares⟩ := g.recalled.proper.nested.param q place.node
  have target : g.cx.targets.find? q.mark.id = some x := declares.find?
  have target' : g.cx'.targets.find? q'.mark.id = some (g.ρ x) := by rw [id', g.targets, target]; rfl
  simp only [Resolver.typeOfParam, Context.asking_toContext, target, target']
  exact (guided.ofSymbol x).weaken (P := P) id fun _ _ _ given => given.2

theorem params : ∀ {qs qs' : List (Param Mark)}, (∀ q ∈ qs, g.cx.At L (.param q)) →
    paramsGain g.ν qs qs' → ∀ {P : Prop},
      g.Pair none P (qs.mapM (g.cx.asking g.F.recall).typeOfParam)
        (qs'.mapM (g.cx'.asking o).typeOfParam) fun ts us => us = ts.map g.move
  | [], _, _, rfl, _ => .pure fun _ => rfl
  | ⟨m, x, t⟩ :: qs, _, places, ⟨m', x', t', ks, rfl, same, name, ty, rest⟩, P => by
    obtain ⟨place, places⟩ := List.forall_mem_cons.mp places
    rw [List.mapM_cons, List.mapM_cons]
    refine (guided.typeOfParam place ⟨_, rfl, same, name, ty⟩).bind fun t u =>
      (params places rest).bind fun ts us => .pure fun given => ?_
    rw [given.1.2, given.2, List.map_cons]

theorem typeOfBody {d d' : FnDecl Mark} (place : g.cx.At L (.stmt (.fn d)))
    (gains : Stmt.Gains g.ν (.fn d) (.fn d')) (member : .stmt (.fn d') ∈ g.cx'.program.nodes) :
    g.Pair none P ((g.cx.asking g.F.recall).typeOfBody d) ((g.cx'.asking o).typeOfBody d')
      fun t u => u = g.move t := by
  obtain ⟨m, x, qs, ty, e⟩ := d
  obtain ⟨m', x', qs', ty', e', same, _, _, _, hint, body⟩ := gains
  cases same
  have inside := Answers.below_left (fun _ => Program.mem_below member)
  cases ty with
  | some node =>
    obtain ⟨node', rfl, gains⟩ := hint
    have inType : node'.nodes ⊆ _ :=
      Answers.below_right (Answers.below_left (List.cons_subset.mp inside).2)
    exact (guided.typeOfNode (place.part (by simp [Node.parts])) gains
      (inType (TyNode.mem_nodes node')) (Option.some_ne_none _)).weaken (P := P) id
        fun _ _ _ given => given.2
  | none =>
    obtain rfl := hint
    exact (guided.typeOfExpr (place.part (by simp [Node.parts])) body
      (Answers.below_right (List.cons_subset.mp inside).2) (fun _ _ => Option.some_ne_none _)
        fun _ => ⟨rfl, rfl⟩).weaken (P := P) id fun _ _ _ given => given.2.1

end Guided

/-! ### Goals -/

section
variable {g : Graft} {c c₁ : Checker} {A B : Set SymbolId} {goal : Goal} {α β : Type}
  {body : Check α} {blocked y : β} {finish : α → Bool → Check β} {R : α → Prop}

/-- A goal is taken up that is no alias of the first program in `B`. -/
theorem Tracks.begun (tracks : g.Tracks A c) (agrees : g.Agrees c)
    (unsettled : c.isSettled goal = false) (new : markLoop? c.isSettled goal c.pursuits = none)
    (inferring : ∀ i, goal = .resultOf i →
      ∃ d, .stmt (.fn d) ∈ g.cx'.program.nodes ∧ d.mark.id = i ∧ d.result = none)
    (fewer : B ⊆ A) (other : ∀ x ∈ B, goal ≠ .targetOf (g.ρ x)) :
    g.Tracks B { c with pursuits := ⟨goal, false⟩ :: c.pursuits } where
  upright := by
    have orderly := tracks.upright.orderly
    exact tracks.upright.later
      (orderly.follows_begun unsettled (markLoop?_none orderly.unsettled new) inferring) rfl
  agrees _ := agrees.step (fun _ _ _ _ => rfl) (fun _ _ => rfl) (fun _ => rfl) (fun _ => rfl)
    (fun _ loops => (List.mem_cons.mp loops).resolve_left nofun) fun _ => .inl
  clear x member p inside := by
    rcases List.mem_cons.mp inside with rfl | later
    · exact other x member
    · exact tracks.clear x (fewer member) p later

/-- A search is refused, since its goal is in progress, or what it looks for tends to what it should
be, and the goal is given up. -/
theorem Tracks.search (tracks : g.Tracks A c) (agrees : g.Agrees c)
    (unsettled : c.isSettled goal = false)
    (inferring : ∀ i, goal = .resultOf i →
      ∃ d, .stmt (.fn d) ∈ g.cx'.program.nodes ∧ d.mark.id = i ∧ d.result = none)
    (fewer : B ⊆ A) (other : ∀ x ∈ B, goal ≠ .targetOf (g.ρ x)) (finds : g.Tends B body R)
    (run : search goal body blocked finish c = .ok (y, c₁)) :
    (∃ ps, Checker.Marks c.pursuits ps ∧ ⟨goal, true⟩ ∈ ps ∧ y = blocked ∧
      c₁ = { c with pursuits := ps }) ∨
    ∃ x c₂ p outer, c₂.pursuits = p :: outer ∧ p.goal = goal ∧ g.cx'.Follows c c₂ ∧
      finish x p.looped { c₂ with pursuits := outer } = .ok (y, c₁) ∧
        (g.Ahead c₂ → g.Agrees c₂ ∧ R x) := by
  rcases search_ok run with ⟨ps, marked, same, equal⟩ | ⟨new, x, c₂, found, ended⟩
  · exact .inl ⟨ps, (markLoop?_some marked).1, markLoop?_goal marked, same, equal⟩
  · have begun := tracks.begun agrees unsettled new inferring fewer other
    have orderly := tracks.upright.orderly
    have begins := orderly.follows_begun unsettled (markLoop?_none orderly.unsettled new) inferring
    obtain ⟨tracks₂, strides, holds⟩ := finds _ begun x c₂ found
    obtain ⟨p, outer, ⟨goal, _⟩, _, pursuits⟩ := List.forall₂_cons_left_iff.mp strides.marks
    exact .inr ⟨x, c₂, p, outer, pursuits, goal, begins.trans strides.follows,
      ended p outer pursuits, fun ahead => ⟨tracks₂.agrees ahead, holds ahead⟩⟩

theorem Ahead.inner {c₂ : Checker} {p : Pursuit} {outer : List Pursuit} (ahead : g.Ahead c₁)
    (follows : g.cx'.Follows c₂ c₁)
    (touches : Checker.Touches (fun _ => True) { c₂ with pursuits := outer } c₁)
    (pursuits : c₂.pursuits = p :: outer) (left : c₁.pursuits = outer)
    (straight : p.looped = true → (∀ x, p.goal ≠ .typeOf (g.ρ x)) ∧
      ∀ i, p.goal ≠ .resultOf (g.ν i)) : g.Ahead c₂ := by
  refine ahead.touched follows touches fun q member looped => ?_
  rw [pursuits] at member
  rcases List.mem_cons.mp member with rfl | later
  · exact straight looped
  · exact ahead.straight q (left ▸ later) looped

/-! ### Answers that are kept -/

section
variable {p : Pursuit} {outer : List Pursuit} (agrees : g.Agrees c)
  (pursuits : c.pursuits = p :: outer)
include agrees pursuits

theorem Agrees.left : g.Agrees { c with pursuits := outer } :=
  agrees.step (fun _ _ _ _ => rfl) (fun _ _ => rfl) (fun _ => rfl) (fun _ => rfl)
    (fun x loops => by
      rw [Checker.Loops, pursuits]
      exact List.mem_cons_of_mem _ loops) fun _ => .inl

theorem Agrees.keepType {y : SymbolId} {u : Ty}
    (own : ∀ x, y = g.ρ x → u = g.move (g.F.bindingType x)) :
    g.Agrees { c with pursuits := outer, symbolTypes := c.symbolTypes.insertNew y u } :=
  { agrees.left pursuits with
    symbolTypes := fun x t found => by
      rcases Table.find?_insertNew_entry found with old | ⟨same, rfl⟩
      · exact agrees.symbolTypes x t old
      · exact own x same.symm }

theorem Agrees.keepTarget {y : SymbolId} {u : Ty}
    (own : ∀ x d, y = g.ρ x → (g.cx.symbol x).decls.head? = some (.typeAlias d) →
      ∀ t, g.F.aliasTargets.find? x = some t → u = g.move t) :
    g.Agrees { c with pursuits := outer, aliasTargets := c.aliasTargets.insertNew y u } :=
  { agrees.left pursuits with
    aliasTargets := fun x d head t found => by
      rcases Table.find?_insertNew_entry found with old | ⟨same, rfl⟩
      · exact agrees.aliasTargets x d head t old
      · exact own x d same.symm head }

end

theorem Agrees.reported (agrees : g.Agrees c) {m : Mark} (extra : g.Extra m) (problem : Problem) :
    g.Agrees { c with diagnostics := c.diagnostics.push ⟨m.span, problem⟩ } :=
  agrees.step (fun _ _ _ _ => rfl) (fun _ _ => rfl) (fun _ => rfl) (fun _ => rfl) (fun _ => id)
    fun _ member => (Array.mem_push.mp member).imp_right fun same =>
      .inr ⟨m, extra, congrArg Diagnostic.span same.symm⟩

/-- Other goals are marked while no alias of the first program is in progress. -/
theorem Tracks.marked (tracks : g.Tracks .univ c) (agrees : g.Agrees c) {ps : List Pursuit}
    (marks : Checker.Marks c.pursuits ps) : g.Agrees { c with pursuits := ps } :=
  agrees.step (fun _ _ _ _ => rfl) (fun _ _ => rfl) (fun _ => rfl) (fun _ => rfl)
    (fun x loops => by
      obtain ⟨p, member, same⟩ := marks.mem_goal loops
      exact absurd same (tracks.clear x trivial p member)) fun _ => .inl

theorem Agrees.keepSignature (agrees : g.Agrees c) {i : NodeId} {sig : Signature}
    (own : ∀ d, .stmt (.fn d) ∈ g.cx.program.nodes → i = g.ν d.mark.id →
      ∃ s, g.F.signatures.find? d.mark.id = some s ∧ s.Moves g.ν g.ρ sig) :
    g.Agrees { c with signatures := c.signatures.insertNew i sig } :=
  { agrees with
    functions := fun d node t found => by
      rcases Table.find?_insertNew_entry found with old | ⟨same, rfl⟩
      · exact agrees.functions d node t old
      · exact own d node same.symm }

end

namespace Guided

variable {g : Graft} {o : Oracle} (guided : g.Guided o)
include guided

theorem typeOfSymbol (x : SymbolId) :
    g.Tends .univ ((g.cx'.asking o).typeOfSymbol (g.ρ x)) (· = g.move (g.F.bindingType x)) := by
  refine .striding (guided.steadfast.typeOfSymbol g.ground (g.ρ x))
    fun c tracks agrees t c₁ run ahead => ?_
  cases found : c.symbolTypes.find? (g.ρ x) with
  | some u =>
    cases ((g.cx'.asking o).typeOfSymbol_known found).symm.trans run
    exact ⟨agrees, agrees.symbolTypes x _ found⟩
  | none =>
    by_cases typable : g.cx.Typable x
    · obtain ⟨binding', declared'⟩ := (g.typable_iff x).mpr typable
      obtain ⟨binding, declared⟩ := typable
      obtain ⟨d, ds, decls⟩ := List.exists_cons_of_ne_nil declared
      have head : (g.cx.symbol x).decls.head? = some d := by rw [decls]; rfl
      have other : (g.cx.symbol x).role ≠ .function := by
        intro same
        rw [same] at binding
        cases binding
      obtain ⟨d', head', gains⟩ := g.head other head
      have node' := g.ground.decl (g.ρ x) d' (List.mem_of_mem_head? head')
      obtain ⟨L, place⟩ := g.recalled.proper.stands d
        (g.recalled.proper.nested.decl x d (List.mem_of_mem_head? head))
      have body := (guided.typeOfDecl (P := True) place gains node').leads trivial _
        (g.recalled.yields_binding ⟨binding, declared⟩ head)
      rw [(g.cx'.asking o).typeOfSymbol_search found binding' head'] at run
      have unsettled : c.isSettled (.typeOf (g.ρ x)) = false := Table.contains_eq_false.mpr found
      rcases tracks.search agrees unsettled nofun (fun _ => id) (fun _ _ => nofun) body run with
        ⟨ps, _, loops, _, rfl⟩ | ⟨u, c₂, p, outer, pursuits, goal, follows, ended, holds⟩
      · exact absurd rfl ((ahead.straight _ loops rfl).1 x)
      · obtain ⟨later, left, _⟩ :=
          follows.orderly.settleType g.ground pursuits goal ⟨binding', declared'⟩ ended
        obtain ⟨_, touches⟩ := Check.settleType_touches ended
        cases looped : p.looped with
        | true =>
          rw [looped] at ended
          cases ended
          have named := Program.mem_below node' d'.name_below
          exact absurd Array.mem_push_self
            (ahead.not_circle named ⟨_, gains.name.1.symm⟩ rfl)
        | false =>
          rw [looped] at ended
          obtain ⟨agrees₂, rfl⟩ := holds (ahead.inner later touches pursuits left (by simp [looped]))
          cases ended
          exact ⟨agrees₂.keepType pursuits fun y same => by rw [g.apart same]; rfl, rfl⟩
    · have typable' := mt (g.typable_iff x).mp typable
      cases ((g.cx'.asking o).typeOfSymbol_untypable found typable').symm.trans run
      have same : Ty.error = g.F.bindingType x := g.recalled.rises (.inr ⟨rfl, .inl typable⟩)
      exact ⟨agrees, by rw [← same]; rfl⟩

theorem targetOfAlias {x : SymbolId} {d : AliasDecl Mark} {span : Span} {t : Ty}
    (head : (g.cx.symbol x).decls.head? = some (.typeAlias d))
    (found : g.F.aliasTargets.find? x = some t) :
    g.Tends (g.cx.chain x) ((g.cx'.asking o).targetOfAlias (g.ρ x) span) (· = g.move t) := by
  refine .striding (guided.steadfast.targetOfAlias g.ground (g.ρ x) span)
    fun c tracks agrees u c₁ run ahead => ?_
  cases known : c.aliasTargets.find? (g.ρ x) with
  | some u =>
    cases ((g.cx'.asking o).targetOfAlias_known known).symm.trans run
    exact ⟨agrees, agrees.aliasTargets x d head _ known t found⟩
  | none =>
    have member := List.mem_of_mem_head? head
    have node := g.recalled.proper.nested.decl x _ member
    obtain ⟨L, place⟩ := g.recalled.proper.stands _ node
    have other : (g.cx.symbol x).role ≠ .function := by
      intro same
      have role := g.recalled.proper.nested.role x _ member
      rw [same] at role
      cases role
    obtain ⟨_, head', gains⟩ := g.head other head
    obtain ⟨k, rfl, own⟩ := gains.typeAlias
    have node' := g.ground.decl (g.ρ x) _ (List.mem_of_mem_head? head')
    obtain ⟨t', found', typed⟩ := g.recalled.alias_settled head
    cases found.symm.trans found'
    have body := guided.tendsNode (place.part List.mem_cons_self) own
      (Program.mem_part node' List.mem_cons_self) typed
    have apart : ∀ y ∈ {y | g.cx.Mentions d.ty y}, Goal.targetOf (g.ρ x) ≠ .targetOf (g.ρ y) := by
      rintro y mentions same
      obtain rfl := g.apart (Goal.targetOf.inj same)
      obtain ⟨u, denotes⟩ := g.recalled.denoted _ (place.part List.mem_cons_self).node
      exact denotes.acyclic mentions head mentions
    have unsettled : c.isSettled (.targetOf (g.ρ x)) = false := Table.contains_eq_false.mpr known
    rw [(g.cx'.asking o).targetOfAlias_search known, Context.asking_toContext, head'] at run
    rcases tracks.search agrees unsettled nofun (fun y mentions => .inr ⟨d, head, mentions⟩) apart body
      run with ⟨ps, marks, loops, _, rfl⟩ | ⟨u, c₂, p, outer, pursuits, goal, follows, ended, holds⟩
    · obtain ⟨q, member, same⟩ := marks.mem_goal loops
      exact absurd same (tracks.clear x (.inl rfl) q member)
    · obtain ⟨later, left, _⟩ := follows.orderly.settleTarget g.ground pursuits goal ended
      obtain ⟨_, touches⟩ := Check.settleTarget_touches ended
      obtain ⟨agrees₂, rfl⟩ := holds (ahead.inner later touches pursuits left fun _ =>
        ⟨fun y => by rw [goal]; nofun, fun i => by rw [goal]; nofun⟩)
      have straight : p.looped = false := by
        obtain ⟨_, looped⟩ := p
        obtain rfl := goal
        cases looped with
        | false => rfl
        | true =>
          refine absurd ?_ (agrees₂.straight x)
          rw [Checker.Loops, pursuits]
          exact List.mem_cons_self
      rw [straight] at ended
      cases ended
      refine ⟨agrees₂.keepTarget pursuits fun y k same head' t' found' => ?_, rfl⟩
      obtain rfl := g.apart same
      cases found.symm.trans found'
      rfl

theorem signatureOf {d d' : FnDecl Mark} (node : .stmt (.fn d) ∈ g.cx.program.nodes)
    (node' : .stmt (.fn d') ∈ g.cx'.program.nodes) (gains : Stmt.Gains g.ν (.fn d) (.fn d')) :
    g.Tends .univ ((g.cx'.asking o).signatureOf d') fun sig' =>
      ∃ sig, g.F.signatures.find? d.mark.id = some sig ∧ sig.Moves g.ν g.ρ sig' := by
  refine .striding (guided.steadfast.signatureOf g.ground node')
    fun c tracks agrees sig' c₁ run ahead => ?_
  have id' : d'.mark.id = g.ν d.mark.id := gains.id
  cases known : c.signatures.find? d'.mark.id with
  | some sig =>
    cases ((g.cx'.asking o).signatureOf_known known).symm.trans run
    exact ⟨agrees, agrees.functions d node _ (id' ▸ known)⟩
  | none =>
    rw [(g.cx'.asking o).signatureOf_new known] at run
    obtain ⟨ts', c₂, ofParams, run⟩ := Check.bind_ok run
    obtain ⟨L, place⟩ := g.recalled.proper.stands (.fn d) node
    obtain ⟨ts, t, params, body, found⟩ := g.recalled.yields_function node
    have nodes : ∀ q ∈ d'.params, .param q ∈ g.cx'.program.nodes := fun q => Program.param_of_fn node'
    have places : ∀ q ∈ d.params, g.cx.At (.stmt (.fn d) :: L) (.param q) := fun q member =>
      place.part (List.mem_append_left _ (List.mem_map_of_mem member))
    obtain ⟨tracks₂, strides₂, same⟩ :=
      (guided.params (P := True) places gains.params).leads trivial _ params c tracks ts' c₂ ofParams
    obtain ⟨_, _, promised⟩ :=
      (guided.steadfast.faithful.typeOfParams g.ground nodes tracks.upright.orderly).run ts' c₂ ofParams
    have new := guided.steadfast.faithful.typeOfParams_unsigned g.ground nodes known ofParams
    have later := guided.steadfast.signatureAfter g.ground node' tracks₂.upright promised new run
    have agrees₂ := tracks₂.agrees (ahead.before later.2)
    obtain rfl := same (ahead.before later.2)
    have rest := (guided.typeOfBody (P := True) place gains node').leads trivial _ body
    have moves (u : Ty) (equal : u = g.move (if d.result.isSome then t else t.widenLiteral)) :
        ∃ sig, g.F.signatures.find? d.mark.id = some sig ∧ sig.Moves g.ν g.ρ
          ⟨d', (g.cx'.targets.find? d'.mark.id).getD Symbol.unresolvedId, ts.map g.move, u⟩ := by
      refine ⟨_, found, gains, ?_, rfl, equal⟩
      rw [id', g.targets]
      cases g.cx.targets.find? d.mark.id with
      | none => exact g.unresolved.symm
      | some x => rfl
    have own_only {sig' : Signature} (own : ∃ sig, g.F.signatures.find? d.mark.id = some sig ∧
        sig.Moves g.ν g.ρ sig') (k : FnDecl Mark) (member : .stmt (.fn k) ∈ g.cx.program.nodes)
        (same : d'.mark.id = g.ν k.mark.id) : ∃ sig, g.F.signatures.find? k.mark.id = some sig ∧
          sig.Moves g.ν g.ρ sig' := by
      cases g.recalled.proper.nested.node_unique member node (g.injective (same.symm.trans id'))
      exact own
    simp only [Resolver.signatureAfter, Context.asking_toContext] at run
    rw [Resolver.typeOfBody] at rest
    cases result : d'.result with
    | some ty =>
      rw [result] at run rest
      obtain ⟨u, c₃, written, kept⟩ := Check.bind_ok run
      obtain ⟨tracks₃, _, equal⟩ := rest c₂ tracks₂ u c₃ written
      have follows : g.cx'.Follows c₃ c₁ := by
        cases kept
        exact tracks₃.upright.orderly.follows_keepDeclared g.ground node' (by simp [result]) _
      have ahead₃ := ahead.touched (l := c₃.pursuits) follows (Check.keep_touches kept).2 (by
        cases kept
        exact ahead.straight)
      cases kept
      have annotated : d.result.isSome = true := by rw [← gains.hint.isSome, result]; rfl
      have own := moves u (by rw [equal ahead₃, if_pos annotated])
      exact ⟨(tracks₃.agrees ahead₃).keepSignature (own_only own), own⟩
    | none =>
      rw [result] at run rest
      have unsettled : c₂.isSettled (.resultOf d'.mark.id) = false := Table.contains_eq_false.mpr new
      rcases tracks₂.search agrees₂ unsettled
        (fun i same => ⟨d', node', Goal.resultOf.inj same, result⟩) (fun _ => id) (fun _ _ same => by cases same)
          rest run with
        ⟨ps, _, loops, _, rfl⟩ | ⟨u, c₃, p, outer, pursuits, goal, follows, ended, holds⟩
      · exact absurd (congrArg Goal.resultOf id') ((ahead.straight _ loops rfl).2 d.mark.id)
      · obtain ⟨later, left, _⟩ := follows.orderly.settleResult g.ground pursuits node' goal
          (follows.params promised) ended
        obtain ⟨_, touches⟩ := Check.settleResult_touches ended
        cases looped : p.looped with
        | true =>
          rw [looped] at ended
          cases ended
          have named := Program.mem_below node' (Decl.name_below (.fn d'))
          exact absurd Array.mem_push_self
            (ahead.not_circle named ⟨_, (Decl.Gains.name (d := .fn d) ⟨_, rfl, gains⟩).1.symm⟩ rfl)
        | false =>
          rw [looped] at ended
          obtain ⟨agrees₃, equal⟩ := holds (ahead.inner later touches pursuits left (by simp [looped]))
          cases ended
          have bare : ¬d.result.isSome = true := by
            rw [← gains.hint.isSome, result]
            exact Bool.false_ne_true
          have own := moves u.widenLiteral (by rw [equal, if_neg bare, Ty.widenLiteral_move])
          exact ⟨(agrees₃.left pursuits).keepSignature (own_only own), own⟩

/-! ### Goals of added functions -/

theorem extraSymbol {y : SymbolId} (new : y ∉ Set.range g.ρ) :
    g.Tends .univ ((g.cx'.asking o).typeOfSymbol y) fun _ => True := by
  refine .striding (guided.steadfast.typeOfSymbol g.ground y) fun c tracks agrees t c₁ run ahead =>
    ⟨?_, trivial⟩
  cases found : c.symbolTypes.find? y with
  | some u =>
    cases ((g.cx'.asking o).typeOfSymbol_known found).symm.trans run
    exact agrees
  | none =>
    by_cases typable : g.cx'.Typable y
    · obtain ⟨binding, declared⟩ := typable
      obtain ⟨d, ds, decls⟩ := List.exists_cons_of_ne_nil declared
      have head : (g.cx'.symbol y).decls.head? = some d := by rw [decls]; rfl
      have member := List.mem_of_mem_head? head
      have node := g.ground.decl y d member
      have extra : ∀ n ∈ d.node.below, g.Extra n.mark := fun n below =>
        ⟨g.inner y new d member n below, n, Program.mem_below node below, rfl⟩
      have body := Tends.of_proceeds (guided.extra.typeOfDecl g.ground node extra)
      have unsettled : c.isSettled (.typeOf y) = false := Table.contains_eq_false.mpr found
      rw [(g.cx'.asking o).typeOfSymbol_search found binding head] at run
      rcases tracks.search agrees unsettled nofun (fun _ => id) (fun _ _ => nofun) body run with
        ⟨ps, marks, _, _, rfl⟩ | ⟨u, c₂, p, outer, pursuits, goal, follows, ended, holds⟩
      · exact tracks.marked agrees marks
      · obtain ⟨later, left, _⟩ :=
          follows.orderly.settleType g.ground pursuits goal ⟨binding, declared⟩ ended
        obtain ⟨_, touches⟩ := Check.settleType_touches ended
        obtain ⟨agrees₂, _⟩ := holds (ahead.inner later touches pursuits left fun _ => ⟨fun x same =>
          new ⟨x, (Goal.typeOf.inj (goal.symm.trans same)).symm⟩, fun i => by rw [goal]; nofun⟩)
        have own (u : Ty) (x : SymbolId) (same : y = g.ρ x) : u = g.move (g.F.bindingType x) :=
          absurd ⟨x, same.symm⟩ new
        cases looped : p.looped with
        | true =>
          rw [looped] at ended
          cases ended
          exact (agrees₂.keepType pursuits (own _)).reported (extra _ d.name_below) _
        | false =>
          rw [looped] at ended
          cases ended
          exact agrees₂.keepType pursuits (own _)
    · cases ((g.cx'.asking o).typeOfSymbol_untypable found typable).symm.trans run
      exact agrees

theorem extraTarget {y : SymbolId} {span : Span} (extra : ∃ m, g.Extra m ∧ m.span = span)
    (other : ∀ x d, y = g.ρ x → (g.cx.symbol x).decls.head? ≠ some (.typeAlias d)) :
    g.Tends .univ ((g.cx'.asking o).targetOfAlias y span) fun _ => True := by
  obtain ⟨m, extra, rfl⟩ := extra
  refine .striding (guided.steadfast.targetOfAlias g.ground y m.span)
    fun c tracks agrees u c₁ run ahead => ⟨?_, trivial⟩
  cases known : c.aliasTargets.find? y with
  | some u =>
    cases ((g.cx'.asking o).targetOfAlias_known known).symm.trans run
    exact agrees
  | none =>
    -- Only an alias leads on, and one that is added leads to no goal of the first program.
    obtain ⟨B, apart, body⟩ : ∃ B, (∀ x ∈ B, Goal.targetOf y ≠ .targetOf (g.ρ x)) ∧
        g.Tends B ((g.cx'.asking o).typeOfTarget (g.cx'.symbol y).decls.head?) fun _ => True := by
      by_cases old : y ∈ Set.range g.ρ
      · obtain ⟨x, rfl⟩ := old
        refine ⟨∅, nofun, ?_⟩
        cases head : (g.cx'.symbol (g.ρ x)).decls.head? with
        | none => exact .pure trivial
        | some d' =>
          cases d' with
          | typeAlias d' =>
            obtain ⟨d, head⟩ := g.alias_old head
            exact absurd head (other x d rfl)
          | _ => exact .pure trivial
      · refine ⟨.univ, fun x _ same => old ⟨x, (Goal.targetOf.inj same).symm⟩, ?_⟩
        refine .of_proceeds (guided.extra.typeOfTarget fun d head n below => ?_)
        have member := List.mem_of_mem_head? head
        exact ⟨g.inner y old d member n below, n,
          Program.mem_below (g.ground.decl y d member) below, rfl⟩
    have unsettled : c.isSettled (.targetOf y) = false := Table.contains_eq_false.mpr known
    have own (u : Ty) (x : SymbolId) (d : AliasDecl Mark) (same : y = g.ρ x)
        (head : (g.cx.symbol x).decls.head? = some (.typeAlias d)) (t : Ty)
        (_ : g.F.aliasTargets.find? x = some t) : u = g.move t := absurd head (other x d same)
    rw [(g.cx'.asking o).targetOfAlias_search known] at run
    rcases tracks.search agrees unsettled nofun (fun _ _ => trivial) apart body run with
      ⟨ps, marks, _, _, rfl⟩ | ⟨u, c₂, p, outer, pursuits, goal, follows, ended, holds⟩
    · exact tracks.marked agrees marks
    · obtain ⟨later, left, _⟩ := follows.orderly.settleTarget g.ground pursuits goal ended
      obtain ⟨_, touches⟩ := Check.settleTarget_touches ended
      obtain ⟨agrees₂, _⟩ := holds (ahead.inner later touches pursuits left fun _ =>
        ⟨fun y => by rw [goal]; nofun, fun i => by rw [goal]; nofun⟩)
      cases looped : p.looped with
      | true =>
        rw [looped] at ended
        cases ended
        exact (agrees₂.keepTarget pursuits (own _)).reported extra _
      | false =>
        rw [looped] at ended
        cases ended
        exact agrees₂.keepTarget pursuits (own _)

theorem extraSignature {d : FnDecl Mark} (node : .stmt (.fn d) ∈ g.cx'.program.nodes)
    (new : Node.Fresh g.ν (.stmt (.fn d))) :
    g.Tends .univ ((g.cx'.asking o).signatureOf d) fun _ => True := by
  have extra : ∀ n ∈ (Node.stmt (.fn d)).below, g.Extra n.mark := fun n below =>
    ⟨new n below, n, Program.mem_below node below, rfl⟩
  refine .striding (guided.steadfast.signatureOf g.ground node)
    fun c tracks agrees sig c₁ run ahead => ⟨?_, trivial⟩
  cases known : c.signatures.find? d.mark.id with
  | some sig =>
    cases ((g.cx'.asking o).signatureOf_known known).symm.trans run
    exact agrees
  | none =>
    rw [(g.cx'.asking o).signatureOf_new known] at run
    obtain ⟨ts, c₂, ofParams, run⟩ := Check.bind_ok run
    have nodes : ∀ q ∈ d.params, .param q ∈ g.cx'.program.nodes := fun q => Program.param_of_fn node
    have ofTypes (q : Param Mark) (member : q ∈ d.params) : ∀ n ∈ q.ty.nodes, g.Extra n.mark := by
      intro n inside
      have inParam : n ∈ (Node.param q).below :=
        Node.part_below (k := .ty q.ty) List.mem_cons_self inside
      have part : Node.param q ∈ (Node.stmt (.fn d)).parts :=
        List.mem_append_left _ (List.mem_map_of_mem member)
      exact extra n (Node.part_below part inParam)
    have params := Tends.of_proceeds (A := .univ) (guided.extra.composed.mapM
      (f := fun q o => (g.cx'.asking o).typeOfParam q) fun q member =>
        guided.extra.typeOfParam q (ofTypes q member))
    obtain ⟨tracks₂, _, _⟩ := params c tracks ts c₂ ofParams
    obtain ⟨_, _, promised⟩ :=
      (guided.steadfast.faithful.typeOfParams g.ground nodes tracks.upright.orderly).run ts c₂ ofParams
    have fresh := guided.steadfast.faithful.typeOfParams_unsigned g.ground nodes known ofParams
    have later := guided.steadfast.signatureAfter g.ground node tracks₂.upright promised fresh run
    have agrees₂ := tracks₂.agrees (ahead.before later.2)
    have own (sig' : Signature) (k : FnDecl Mark) (_ : .stmt (.fn k) ∈ g.cx.program.nodes)
        (same : d.mark.id = g.ν k.mark.id) : ∃ sig, g.F.signatures.find? k.mark.id = some sig ∧
          sig.Moves g.ν g.ρ sig' :=
      absurd ⟨_, same.symm⟩ (extra _ (Stmt.mem_nodes (.fn d))).1
    simp only [Resolver.signatureAfter, Context.asking_toContext] at run
    cases result : d.result with
    | some ty =>
      rw [result] at run
      have body := Tends.of_proceeds (A := .univ) (guided.extra.typeOfNode ty fun n inside =>
        extra n (Node.part_below (k := .ty ty) (by simp [Node.parts, result]) inside))
      obtain ⟨t, c₃, written, kept⟩ := Check.bind_ok run
      obtain ⟨tracks₃, _, _⟩ := body c₂ tracks₂ t c₃ written
      have follows : g.cx'.Follows c₃ c₁ := by
        cases kept
        exact tracks₃.upright.orderly.follows_keepDeclared g.ground node (by simp [result]) _
      have ahead₃ := ahead.touched (l := c₃.pursuits) follows (Check.keep_touches kept).2 (by
        cases kept
        exact ahead.straight)
      cases kept
      exact (tracks₃.agrees ahead₃).keepSignature (own _)
    | none =>
      rw [result] at run
      have body := Tends.of_proceeds (guided.extra.typeOfExpr g.ground (N := d.body.nodes)
        (Program.body_of_fn node) (fun n inside =>
          extra n (Node.part_below (k := .expr d.body) (by simp [Node.parts]) inside)) d.body none (List.Subset.refl _))
      have unsettled : c₂.isSettled (.resultOf d.mark.id) = false := Table.contains_eq_false.mpr fresh
      rcases tracks₂.search agrees₂ unsettled
        (fun i same => ⟨d, node, Goal.resultOf.inj same, result⟩) (fun _ => id) (fun _ _ same => by cases same)
          body run with
        ⟨ps, marks, _, _, rfl⟩ | ⟨u, c₃, p, outer, pursuits, goal, follows, ended, holds⟩
      · exact tracks₂.marked agrees₂ marks
      · obtain ⟨later, left, _⟩ := follows.orderly.settleResult g.ground pursuits node goal
          (follows.params promised) ended
        obtain ⟨_, touches⟩ := Check.settleResult_touches ended
        obtain ⟨agrees₃, _⟩ := holds (ahead.inner later touches pursuits left fun _ =>
          ⟨fun x same => (by cases goal.symm.trans same), fun i same =>
            (extra _ (Stmt.mem_nodes (.fn d))).1 ⟨i, (Goal.resultOf.inj (goal.symm.trans same)).symm⟩⟩)
        cases looped : p.looped with
        | true =>
          rw [looped] at ended
          cases ended
          exact ((agrees₃.left pursuits).reported (extra _ (Decl.name_below (.fn d))) _).keepSignature
            (own _)
        | false =>
          rw [looped] at ended
          cases ended
          exact (agrees₃.left pursuits).keepSignature (own _)

theorem meet (q : Demand) (posed : g.cx'.Poses q) (own : q.At g.Extra) :
    g.Tends .univ (g.cx'.meet q o) fun _ => True := by
  cases q with
  | typeOf y =>
    by_cases old : y ∈ Set.range g.ρ
    · obtain ⟨x, rfl⟩ := old
      exact (guided.typeOfSymbol x).imp fun _ _ => trivial
    · exact guided.extraSymbol old
  | aliasTarget y span =>
    by_cases old : ∃ x d, y = g.ρ x ∧ (g.cx.symbol x).decls.head? = some (.typeAlias d)
    · obtain ⟨x, d, rfl, head⟩ := old
      obtain ⟨t, found, _⟩ := g.recalled.alias_settled head
      exact ((guided.targetOfAlias head found).mono fun _ _ => trivial).imp fun _ _ => trivial
    · exact guided.extraTarget own fun x d same head => old ⟨x, d, same, head⟩
  | signature d' =>
    rcases g.program.nodes.mem_right posed with new | ⟨n, node, gains⟩
    · exact guided.extraSignature posed new
    · obtain ⟨d, rfl, own⟩ := gains.of_fn
      exact (guided.signatureOf node posed own).imp fun _ _ => trivial

end Guided

variable (g : Graft)

/-- To every depth, demands for the first program are met as its tables have it. -/
theorem guided (n : ℕ) : g.Guided (g.cx'.oracle n) := by
  induction n with
  | zero =>
    have endless (A : Set SymbolId) (q : Demand) (Q : q.Answer → Prop) :
        g.Tends A (g.cx'.oracle 0 q) Q := fun _ _ _ _ => nofun
    exact ⟨.oracle g.ground 0, fun _ _ _ => endless _ _ _, fun _ => endless _ _ _,
      fun _ _ _ _ _ _ => endless _ _ _, fun _ _ _ _ _ => endless _ _ _⟩
  | succ n ih =>
    exact ⟨.oracle g.ground (n + 1), ih.meet, ih.typeOfSymbol,
      fun x d head span t found => ih.targetOfAlias head found,
      fun d d' node node' gains => ih.signatureOf node node' gains⟩

/-- What the second check ends with has everything of the first program as the tables have it. -/
theorem adopted (run : g.cx'.check (.start g.cx'.names) = .ok ((), g.F')) :
    g.Agrees g.F' ∧ g.Kept (.program g.cx.program) := by
  have blank {κ α : Type} [DecidableEq κ] (k : κ) (v : α) :
      (Table.empty : Table κ α).find? k ≠ some v := fun found => by cases found
  have start : g.Tracks .univ (.start g.cx'.names) := {
    upright := .start _ _
    agrees := fun _ => {
      noted := fun _ _ _ _ _ _ found => absurd found (blank _ _)
      functions := fun _ _ _ found => absurd found (blank _ _)
      symbolTypes := fun _ _ found => absurd found (blank _ _)
      aliasTargets := fun _ _ _ _ found => absurd found (blank _ _)
      straight := fun _ => List.not_mem_nil
      told := fun _ member => absurd member (Array.not_mem_empty _) }
    clear := fun _ _ _ member => absurd member List.not_mem_nil }
  have places : ∀ s ∈ g.cx.program.stmts, g.cx.At [.program g.cx.program] (.stmt s) := fun s member =>
    .down (List.mem_map_of_mem member) .here
  rw [Context.check, Context.resolver, Resolver.ofDepth_eq] at run
  have pair : g.Pair none True _ _ _ := (g.guided g.cx'.questionBound).checkStmts places
    g.program.2 (List.subset_append_left _ _) fun _ _ => Option.some_ne_none _
  obtain ⟨tracks, _, kept⟩ :=
    pair.leads trivial () (g.recalled.yields g.recalled.check none) _ start () g.F' run
  have ahead : g.Ahead g.F' := {
    follows := .refl g.upright.orderly
    nodeTypes := .refl _
    signatures := .refl _
    told := fun _ => id
    straight := by
      rw [g.idle]
      exact fun p member => absurd member List.not_mem_nil }
  have other (e : Expr Mark) : Node.program g.cx.program ≠ .expr e := fun same => by cases same
  refine ⟨tracks.agrees ahead, .intro (fun e same => absurd same (other e)) fun k part => ?_⟩
  obtain ⟨s, member, rfl⟩ := List.mem_map.mp part
  exact kept ahead s member

end Graft

end Solo

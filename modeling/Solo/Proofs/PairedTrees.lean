import Solo.Proofs.Charted
import Solo.Proofs.PairedSteps

/-!
# Trees side by side

The types of counterparts among type nodes, patterns, expressions and statements, by induction on
the trees of the first program.
-/

namespace Solo

/-- What a resolved name stands for as a type. -/
theorem Context.typeOfReference_eq {cx : Context} {m : Mark} {x : Ident Mark} {s : SymbolId}
    (target : cx.targets.find? x.mark.id = some s) (real : s ≠ Symbol.unresolvedId) (o : Oracle) :
    (cx.asking o).typeOfReference m x =
      if (cx.symbol s).role.isType then (cx.asking o).aliasTarget s x.mark.span
      else do
        Check.report m.span (.valueUsedAsType (cx.nameOf s))
        return .error := by
  simp only [Resolver.typeOfReference, cx.asking_toContext, target]
  exact if_neg real

theorem Resolver.checkStmts_append (r : Resolver) (ss rest : List (Stmt Mark)) :
    r.checkStmts (ss ++ rest) = (r.checkStmts ss >>= fun _ => r.checkStmts rest) := by
  induction ss with
  | nil => rfl
  | cons s ss ih =>
    rw [List.cons_append, checkStmts, checkStmts, ih]
    simp only [bind_assoc]

theorem getElem?_of_found {F : Checker} {es : List (Expr Mark)} {ts : List Ty}
    (found : List.Forall₂ (fun e t => F.nodeTypes.find? e.id = some t) es ts) {i : ℕ} {e : Expr Mark}
    {t : Ty} (member : es[i]? = some e) (typed : F.nodeTypes.find? e.id = some t) :
    ts[i]? = some t := by
  induction found generalizing i with
  | nil => cases member
  | cons first _ ih =>
    cases i with
    | zero =>
      cases member
      exact first.symm.trans typed
    | succ i => exact ih member

namespace Graft

variable (g : Graft)

/-- What is settled of a node before its own type is kept. -/
structure Inside (n : Node Mark) : Prop where
  parts : ∀ k ∈ n.parts, g.Kept k
  call : ∀ m f args x, n = .expr (.call m f args) → g.cx.symbolAt? f.mark.id = some x →
    (g.cx.symbol x).role = .function → ∃ sig sig', g.F.signatures.find? m.id = some sig ∧
      g.F'.signatures.find? (g.ν m.id) = some sig' ∧ sig.Moves g.ν g.ρ sig'

section
variable {g : Graft} {c : Checker} {A : Set SymbolId} {skip : Option NodeId} {P : Prop}
  {L : List (Node Mark)} {n : Node Mark} {t : Ty} {i' : NodeId} {find find' : Check Ty}

theorem inside_type (node : TyNode Mark) : g.Inside (.ty node) where
  parts k part := by
    cases node with
    | paren m inner =>
      obtain rfl := List.mem_singleton.mp part
      exact kept_type inner
    | _ => cases part
  call := nofun

theorem other_role {i : NodeId} {x : SymbolId} {r : Role} (target : g.cx.symbolAt? i = some x)
    (role : (g.cx.symbol x).role = r) (other : r ≠ .function) :
    ∀ y, g.cx.symbolAt? i = some y → (g.cx.symbol y).role ≠ .function := by
  intro y known
  cases target.symm.trans known
  exact role ▸ other

theorem inside_call {m : Mark} {f : Ident Mark} {args : List (Expr Mark)}
    (kept : ∀ k ∈ args, g.Kept (.expr k)) (call : ∀ x, g.cx.symbolAt? f.mark.id = some x →
      (g.cx.symbol x).role = .function → ∃ sig sig', g.F.signatures.find? m.id = some sig ∧
        g.F'.signatures.find? (g.ν m.id) = some sig' ∧ sig.Moves g.ν g.ρ sig') :
    g.Inside (.expr (.call m f args)) where
  parts k part := by
    obtain ⟨e, member, rfl⟩ := List.mem_map.mp part
    exact kept e member
  call := by
    rintro _ _ _ x ⟨⟩
    exact call x

/-! ### Types that are kept -/

theorem Agrees.note (agrees : g.Agrees c) (place : g.cx.At L n)
    (found : g.F.nodeTypes.find? n.mark.id = some t) (kept : g.Kept n) :
    g.Agrees (c.note (g.ν n.mark.id) (g.move t)) where
  noted K k place' typed u t' found' known := by
    by_cases same : n.mark.id = k.mark.id
    · obtain ⟨rfl, rfl⟩ := g.recalled.proper.nested.place_unique place place' same
      cases found.symm.trans known
      refine ⟨?_, kept⟩
      rcases Table.find?_insertNew_cases found' with old | new
      · exact (agrees.noted L n place typed u t old known).1
      · exact new
    · have other : g.ν k.mark.id ≠ g.ν n.mark.id := fun equal => same (g.injective equal).symm
      exact agrees.noted K k place' typed u t' ((Table.find?_insertNew_other other).symm.trans found')
        known
  functions := agrees.functions
  symbolTypes := agrees.symbolTypes
  aliasTargets := agrees.aliasTargets
  straight := agrees.straight
  told := agrees.told

theorem Tends.once (place : g.cx.At L n) (typed : n.isTyped = true)
    (found : g.F.nodeTypes.find? n.mark.id = some t) (same : i' = g.ν n.mark.id)
    (finds : g.Tends A find' fun u => u = g.move t ∧ g.Inside n) :
    g.Tends A (Check.once i' find') fun u => u = g.move t ∧ g.Kept n := by
  subst same
  intro c tracks u c₁ run
  rcases Check.once_ok run with ⟨known, rfl⟩ | ⟨_, c₂, finding, rfl⟩
  · exact ⟨tracks, .refl tracks.upright.orderly, fun ahead =>
      (tracks.agrees ahead).noted L n place typed u t known found⟩
  · obtain ⟨tracks₂, strides, holds⟩ := finds c tracks u c₂ finding
    have writes : g.cx'.Striding (modify fun c => c.note (g.ν n.mark.id) u) :=
      .still g.ground (.noteNew (m := ⟨g.ν n.mark.id, default, []⟩) trivial u)
    obtain ⟨upright, strides₂⟩ := writes c₂ tracks₂.upright () _ rfl
    have ends (ahead : g.Ahead (c₂.note (g.ν n.mark.id) u)) :
        g.Agrees (c₂.note (g.ν n.mark.id) u) ∧ u = g.move t ∧ g.Kept n := by
      have ahead₂ := ahead.before strides₂
      obtain ⟨rfl, inside⟩ := holds ahead₂
      have agrees := tracks₂.agrees ahead₂
      have kept : g.Kept n := by
        cases known : c₂.nodeTypes.find? (g.ν n.mark.id) with
        | some u => exact (agrees.noted L n place typed u t known found).2
        | none =>
          refine .intro (fun e same => ?_) inside.parts
          subst same
          exact
            { type := fun t' found' => by
                cases found.symm.trans found'
                exact ahead.nodeTypes _ _ (Table.find?_insertNew_self known)
              call := fun m f args x same => inside.call m f args x (congrArg Node.expr same) }
      exact ⟨agrees.note place found kept, rfl, kept⟩
    exact ⟨tracks₂.later upright (fun ahead => (ends ahead).1) strides₂.marks,
      strides.trans strides₂, fun ahead => (ends ahead).2⟩

end

namespace Guided

variable {g : Graft} {o : Oracle} {A : Set SymbolId} {skip : Option NodeId} {P : Prop}
  {L : List (Node Mark)} {n : Node Mark} {i' : NodeId} {find find' : Check Ty}
  (guided : g.Guided o)
include guided

theorem once (place : g.cx.At L n) (typed : n.isTyped = true) (other : some n.mark.id ≠ skip)
    (same : i' = g.ν n.mark.id)
    (finds : g.Pair (some n.mark.id) P find find' fun t u => u = g.move t ∧ g.Inside n)
    (whole : P → g.cx.visitAt g.F L n g.F.recall = Check.once n.mark.id find) :
    g.Pair skip P (Check.once n.mark.id find) (Check.once i' find') fun t u =>
      g.F.nodeTypes.find? n.mark.id = some t ∧ u = g.move t ∧ g.Kept n where
  own := g.recalled.located.once (m := n.mark) trivial (f := fun _ => find) finds.own
  progress := guided.strides.once (m := ⟨i', default, []⟩) trivial (f := fun _ => find')
    finds.progress
  leads holds t yields := by
    have found := Context.Recalled.yields_once place typed other yields
    have again := g.recalled.yields_node place typed found (whole holds)
    exact (Tends.once place typed found same (finds.leads holds t again)).imp
      fun u kept => ⟨found, kept⟩

/-! ### Type nodes -/

theorem tendsReference {m m' : Mark} {x x' : Ident Mark} {t : Ty}
    (place : g.cx.At L (.ty (.refer m x))) (moves : x.Moves g.ν x')
    (yields : g.cx.Yields g.F skip ((g.cx.asking g.F.recall).typeOfReference m x) t) :
    g.Tends {y | g.cx.Mentions (.refer m x) y} ((g.cx'.asking o).typeOfReference m' x')
      (· = g.move t) := by
  have target' := g.targets x.mark.id
  rw [← moves.1] at target'
  cases target : g.cx.targets.find? x.mark.id with
  | none =>
    rw [target] at target'
    simp only [Resolver.typeOfReference, Context.asking_toContext, target, target'] at yields ⊢
    rw [moves.2, yields.pure]
    exact .pure rfl
  | some s =>
    rw [target] at target'
    by_cases unresolved : s = Symbol.unresolvedId
    · subst unresolved
      rw [Option.map_some, g.unresolved] at target'
      simp only [Resolver.typeOfReference, Context.asking_toContext, target, target', if_pos]
        at yields ⊢
      rw [yields.pure]
      exact .pure rfl
    · have real : g.ρ s ≠ Symbol.unresolvedId := fun same =>
        unresolved (g.apart (same.trans g.unresolved.symm))
      rw [Context.typeOfReference_eq target unresolved] at yields
      rw [Context.typeOfReference_eq target' real, g.role]
      by_cases role : (g.cx.symbol s).role.isType = true
      · rw [if_pos role] at yields ⊢
        have symbol := Binding.symbolAt?_of_target target unresolved
        obtain ⟨_, _, _, run, _⟩ := yields
        have found := (Check.entry_ok run).1
        obtain ⟨u, denotes⟩ := g.recalled.denoted _ place.node
        cases denotes with
        | kind plain => cases target.symm.trans plain
        | typeAlias next head _ =>
          cases symbol.symm.trans next
          refine (guided.aliasTarget s _ head x'.mark.span t found).mono ?_
          rintro y (rfl | ⟨d, head', mentions⟩)
          · exact .here symbol
          · exact .through symbol head' mentions
      · rw [if_neg role] at yields
        exact (yields.not_reject rfl).elim

theorem tendsPath {m m' : Mark} {x x' : Ident Mark} {t : Ty} {node' : TyNode Mark}
    (moves : x.Moves g.ν x') (member : .ty node' ∈ g.cx'.program.nodes) (own : node'.mark = m')
    (old : m'.id ∈ Set.range g.ν)
    (yields : g.cx.Yields g.F skip ((g.cx.asking g.F.recall).typeOfPath x m.span) t) :
    g.Tends A ((g.cx'.asking o).typeOfPath x' m'.span) (· = g.move t) := by
  cases target : g.cx.symbolAt? x.mark.id with
  | none =>
    have target' : g.cx'.symbolAt? x'.mark.id = none := by rw [moves.1, g.symbolAt?, target]; rfl
    simp only [Resolver.typeOfPath, Context.asking_toContext, target, target'] at yields ⊢
    rw [yields.pure]
    exact .pure rfl
  | some s =>
    have target' : g.cx'.symbolAt? x'.mark.id = some (g.ρ s) := by
      rw [moves.1, g.symbolAt?, target]
      rfl
    have formed : (g.cx.symbol s).role.isStable = true ∧ t = .path s := by
      obtain ⟨c, c₁, _, run, mild⟩ := yields
      rw [Context.typeOfPath_eq m.span target] at run
      split at run
      · cases run
        exact (mild.not_error rfl Array.mem_push_self).elim
      · by_cases stable : (g.cx.symbol s).role.isStable = true
        · rw [Context.formPath, Context.stablePath, if_pos stable] at run
          obtain ⟨_, _, entered⟩ := Check.enterType_enters (.path s) c
          cases entered.symm.trans run
          exact ⟨stable, rfl⟩
        · rw [Context.formPath, Context.stablePath, if_neg stable] at run
          cases run
          exact (mild.not_error rfl Array.mem_push_self).elim
    obtain ⟨stable, rfl⟩ := formed
    refine .striding (guided.strides.typeOfPath x' (Mark.exists_span _))
      fun c tracks agrees u c₁ run ahead => ?_
    rw [Context.typeOfPath_eq m'.span target'] at run
    split at run
    · cases run
      subst own
      exact absurd Array.mem_push_self (ahead.not_circle member old rfl)
    · rw [Context.formPath, Context.stablePath, g.role, if_pos stable] at run
      obtain ⟨tracks₁, _, same⟩ :=
        Tends.enters (Check.enterType_enters (.path (g.ρ s))) (.enterType _) c tracks u c₁ run
      exact ⟨tracks₁.agrees ahead, same ahead⟩

theorem tendsNode : ∀ {node node' : TyNode Mark} {L : List (Node Mark)} {t : Ty},
    g.cx.At L (.ty node) → node.Gains g.ν node' → .ty node' ∈ g.cx'.program.nodes →
      g.F.nodeTypes.find? node.mark.id = some t →
        g.Tends {y | g.cx.Mentions node y} ((g.cx'.asking o).typeOfNode node') (· = g.move t)
  | .refer m x, _, L, t, place, ⟨m', x', rfl, same, moves⟩, member, found => by
    have yields := g.recalled.yields_node place rfl found rfl
    refine (Tends.once place rfl found same
      ((guided.tendsReference place moves yields).imp fun u same => ?_)).imp fun u kept => kept.1
    exact ⟨same, inside_type _⟩
  | .singleton m e, _, L, t, place, ⟨m', e', rfl, same, gains⟩, member, found => by
    have yields := g.recalled.yields_node place rfl found rfl
    have inside (u : Ty) (same : u = g.move t) : u = g.move t ∧ g.Inside (.ty (.singleton m e)) :=
      ⟨same, inside_type _⟩
    rw [Resolver.typeOfNode]
    refine (Tends.once place rfl found same (.imp ?_ inside)).imp fun u kept => kept.1
    cases e with
    | lit l =>
      obtain ⟨l', rfl, _, value⟩ := gains
      simp only [Resolver.typeOfOperand] at yields ⊢
      rw [value, yields.enters (Check.enterType_enters _)]
      exact .enters (Check.enterType_enters _) (.enterType _)
    | name x =>
      obtain ⟨x', rfl, moves⟩ := gains
      exact guided.tendsPath moves member rfl ⟨m.id, same.symm⟩ yields
    | _ => exact (yields.not_reject rfl).elim
  | .lit m l dot, _, L, t, place, ⟨m', l', rfl, same, moves⟩, member, found => by
    have yields := g.recalled.yields_node place rfl found rfl
    have bare : (!dot && !g.cx.options.bareLiteralTypes) = false := by
      by_contra refused
      rw [Bool.not_eq_false] at refused
      simp only [Resolver.typeOfLiteral, Context.asking_toContext, refused, if_true] at yields
      obtain ⟨_, reports, _⟩ := yields.bind (g.recalled.located.report (Mark.exists_span _) _)
        fun _ => g.recalled.located.still (.enterType _)
      exact reports.not_report rfl
    have plain (cx : Context) (o : Oracle) (same : cx.options = g.cx.options) (m : Mark) :
        (cx.asking o).typeOfLiteral m l.value dot = Check.enterType (.literal l.value) := by
      simp only [Resolver.typeOfLiteral, Context.asking_toContext, same, bare]
      rfl
    rw [plain g.cx _ rfl m] at yields
    obtain rfl := yields.enters (Check.enterType_enters _)
    rw [Resolver.typeOfNode]
    refine (Tends.once place rfl found same ?_).imp fun u kept => kept.1
    rw [moves.2, plain g.cx' o g.options m']
    exact (Tends.enters (Check.enterType_enters _) (.enterType _)).imp
      fun u same => ⟨same, inside_type _⟩
  | .paren m inner, _, L, t, place, ⟨m', inner', rfl, same, gains⟩, member, found => by
    have yields := g.recalled.yields_node place rfl found rfl
    have part := place.part (k := .ty inner) List.mem_cons_self
    have apart := g.recalled.proper.nested.below_part place List.mem_cons_self
      (TyNode.mem_nodes inner)
    have known := Context.Recalled.yields_type part (fun same => apart (Option.some.inj same)) yields
    have member' := Program.mem_below member (List.mem_append_left _ (TyNode.mem_nodes inner'))
    have wider : {y | g.cx.Mentions inner y} ⊆ {y | g.cx.Mentions (.paren m inner) y} :=
      fun _ mentions => .paren mentions
    have inner := ((tendsNode part gains member' known).mono wider).imp
      fun u (equal : u = g.move t) => And.intro equal (inside_type (g := g) (.paren m inner))
    exact (Tends.once place rfl found same inner).imp fun u kept => kept.1

theorem typeOfNode {node node' : TyNode Mark} (place : g.cx.At L (.ty node))
    (gains : node.Gains g.ν node') (member : .ty node' ∈ g.cx'.program.nodes)
    (other : some node.mark.id ≠ skip) :
    g.Pair skip P ((g.cx.asking g.F.recall).typeOfNode node) ((g.cx'.asking o).typeOfNode node')
      fun t u => g.F.nodeTypes.find? node.mark.id = some t ∧ u = g.move t where
  own := g.recalled.located.typeOfNode node fun _ _ => trivial
  progress := guided.strides.typeOfNode node' fun _ _ => trivial
  leads _ t yields := by
    have found := Context.Recalled.yields_type place other yields
    exact ((guided.tendsNode place gains member found).mono fun _ _ => trivial).imp
      fun u same => ⟨found, same⟩

/-! ### Inhabitants and patterns -/

theorem valueWithin {k k' : ℕ} (t : Ty) :
    g.Pair skip P ((g.cx.asking g.F.recall).valueWithin k t)
      ((g.cx'.asking o).valueWithin k' (g.move t))
      fun found found' => (∀ x, t ≠ .path x) → found' = found where
  own := g.recalled.located.valueWithin k t
  progress := guided.strides.valueWithin k' _
  leads _ found yields := by
    by_cases plain : ∀ x, t ≠ .path x
    · obtain ⟨v, plainly⟩ := Resolver.valueWithin_plain plain
      rw [move, Ty.move_plain plain, plainly]
      rw [plainly] at yields
      exact .pure fun _ => yields.pure.symm
    · have tends := Tends.of_proceeds (guided.extra.valueWithin k' (g.move t))
      exact tends.imp fun _ _ given => absurd given plain

theorem recordValue {m m' : Mark} {node node' : TyNode Mark} {t : Ty} {found found' : Option Literal}
    (gains : node.Gains g.ν node') (member : .ty node' ∈ g.cx'.program.nodes)
    (plain : (∀ x, t ≠ .path x) → found' = found) :
    g.Pair skip P (g.cx.recordValue m node.span t found)
      (g.cx'.recordValue m' node'.span (g.move t) found') fun u u' => u' = g.move u where
  own := g.recalled.located.recordValue m (Mark.exists_span _) t found
  progress := guided.strides.recordValue m' (Mark.exists_span _) _ found'
  leads _ u yields := by
    obtain rfl : t = u := by
      cases found with
      | some v =>
        obtain ⟨_, _, _, run, _⟩ := yields
        obtain ⟨_, _, _, ends⟩ := Check.bind_ok run
        cases ends
        rfl
      | none => exact (yields.not_reject (g.cx.unfit_error t)).elim
    cases found' with
    | some v =>
      refine (Tends.still (.bind (.enterLiteral v) fun _ => .recordWitness m'.id _)).bind
        (fun _ => guided.strides.pure _) fun _ _ => .pure rfl
    | none =>
      cases t with
      | path x => exact .circle member ⟨_, gains.id.symm⟩ rfl
      | _ =>
        obtain rfl := plain fun _ same => Ty.noConfusion same
        exact (yields.not_reject (g.cx.unfit_error _)).elim

theorem typeOfInhabitant {m m' : Mark} {node node' : TyNode Mark} (place : g.cx.At L (.ty node))
    (gains : node.Gains g.ν node') (member : .ty node' ∈ g.cx'.program.nodes)
    (other : some node.mark.id ≠ skip) :
    g.Pair skip P ((g.cx.asking g.F.recall).typeOfInhabitant m node)
      ((g.cx'.asking o).typeOfInhabitant m' node') fun t u => u = g.move t := by
  rw [Context.typeOfInhabitant_eq, Context.typeOfInhabitant_eq]
  refine (guided.typeOfNode place gains member other).bind fun t u =>
    .branch (fun given => by rw [given.2.2, Ty.isError_move]) (.pure fun given => given.1.2.2) ?_
  refine .given ?_ ?_ ?_
  · exact (g.recalled.located.valueWithin _ t).bind fun found =>
      g.recalled.located.recordValue m (Mark.exists_span _) t found
  · exact Pair.striding_bind (guided.strides.valueWithin _ u) fun found =>
      guided.strides.recordValue m' (Mark.exists_span _) u found
  · rintro ⟨⟨_, _, rfl⟩, _⟩
    exact (guided.valueWithin t).bind fun found found' =>
      .given (g.recalled.located.recordValue m (Mark.exists_span _) t found)
        (guided.strides.recordValue m' (Mark.exists_span _) _ found')
        fun given => guided.recordValue gains member given.2

omit guided in
/-- The type of a pattern is kept where the first check asks for none. -/
theorem recordType {q q' : Pat Mark} {t u : Ty} (place : g.cx.At L (.pat q))
    (gains : q.Gains g.ν q') :
    g.Pair skip P (Check.recordType q.mark.id t) (Check.recordType q'.mark.id u)
      fun _ _ => True where
  own := g.recalled.located.still (.recordType trivial t)
  progress := .still g.ground (.recordType trivial u)
  leads _ _ _ := by
    refine .striding (.still g.ground (.recordType trivial u)) fun c _ agrees _ c₁ run _ => ?_
    rw [Check.recordType, Check.get_bind] at run
    split at run <;> cases run
    refine ⟨agrees.step (fun K n place' typed => ?_) (fun _ _ => rfl) (fun _ => rfl) (fun _ => rfl)
      (fun _ => id) fun _ => .inl, trivial⟩
    refine Table.find?_insert_other _ _ fun same => ?_
    rw [gains.id] at same
    obtain ⟨-, rfl⟩ := g.recalled.proper.nested.place_unique place' place (g.injective same)
    cases typed

theorem comparePat {q q' : Pat Mark} (scrutinee t : Ty) (place : g.cx.At L (.pat q))
    (gains : q.Gains g.ν q') :
    g.Pair skip P (Resolver.checkPat.check (g.cx.asking g.F.recall) scrutinee q.mark t)
      (Resolver.checkPat.check (g.cx'.asking o) (g.move scrutinee) q'.mark (g.move t))
      fun _ _ => True := by
  refine (recordType place gains).bind fun _ _ =>
    .branch (fun _ => by simp) (.pure fun _ => trivial) ?_
  refine (guided.isSubtype t scrutinee).bind fun b b' =>
    .branch (fun given => by rw [given.2.2]) (.pure fun _ => trivial) ?_
  refine (guided.isSubtype scrutinee t).bind fun b b' =>
    .branch (fun given => by rw [given.2.2]) (.pure fun _ => trivial) ?_
  exact .report rfl

theorem checkPat {q q' : Pat Mark} {scrutinee scrutinee' : Ty}
    (same : P → scrutinee' = g.move scrutinee) (place : g.cx.At L (.pat q))
    (gains : q.Gains g.ν q') (member : .pat q' ∈ g.cx'.program.nodes)
    (other : ∀ n ∈ q.nodes, some n.mark.id ≠ skip) :
    g.Pair skip P ((g.cx.asking g.F.recall).checkPat scrutinee q)
      ((g.cx'.asking o).checkPat scrutinee' q') fun _ _ => True := by
  refine .given (g.recalled.located.checkPat scrutinee q fun _ _ => trivial)
    (guided.strides.checkPat scrutinee' q' fun _ _ => trivial) fun given => ?_
  obtain rfl := same given
  have compare (t u : Ty) (P : Prop) (same : P → u = g.move t) :
      g.Pair skip P (Resolver.checkPat.check (g.cx.asking g.F.recall) scrutinee q.mark t)
        (Resolver.checkPat.check (g.cx'.asking o) (g.move scrutinee) q'.mark u)
        fun _ _ => True :=
    .given (g.recalled.located.comparePat scrutinee trivial t)
      (guided.strides.comparePat _ trivial u) fun given =>
        same given ▸ guided.comparePat scrutinee t place gains
  cases q with
  | wildcard m =>
    obtain ⟨_, rfl, _⟩ := gains
    exact .pure fun _ => trivial
  | lit m l =>
    obtain ⟨_, l', rfl, _, _, value⟩ := gains
    rw [Resolver.checkPat, Resolver.checkPat, value]
    exact (Pair.enters (Check.enterType_enters _) (Check.enterType_enters _) (.enterType _)
      (.enterType _)).bind fun t u => compare t u _ fun given => by rw [given.2.1, given.2.2]; rfl
  | typed m node =>
    obtain ⟨_, node', rfl, _, inner⟩ := gains
    exact (guided.typeOfNode (place.part List.mem_cons_self) inner
      (Program.mem_below member (List.mem_append_left _ (TyNode.mem_nodes node')))
      (other _ (List.mem_append_left _ (TyNode.mem_nodes node)))).bind fun t u =>
        compare t u _ fun given => given.2.2

/-! ### Trees -/

set_option linter.unusedSectionVars false

omit guided in
theorem recordSignature {m : Mark} {f f' : Ident Mark} {args args' : List (Expr Mark)} {m' : Mark}
    {sig sig' : Signature} (place : g.cx.At L (.expr (.call m f args))) (same : m'.id = g.ν m.id)
    (member : .expr (.call m' f' args') ∈ g.cx'.program.nodes) :
    g.Pair skip P (Check.recordSignature m.id sig) (Check.recordSignature m'.id sig') fun _ _ =>
      g.F.signatures.find? m.id = some sig ∧ g.F'.signatures.find? (g.ν m.id) = some sig' where
  own := g.recalled.located.still (.recordSignature trivial sig place.node)
  progress := .still g.ground (.recordSignature trivial sig' member)
  leads _ _ yields := by
    have found : g.F.signatures.find? m.id = some sig := by
      obtain ⟨c, c₁, _, run, mild⟩ := yields
      rw [Check.recordSignature, Check.get_bind] at run
      split at run <;> cases run
      exact mild.signatures _ _ (Table.find?_insert_self _ _ _)
    refine .striding (.still g.ground (.recordSignature trivial sig' member))
      fun c _ agrees _ c₁ run ahead => ?_
    rw [Check.recordSignature, Check.get_bind] at run
    split at run <;> cases run
    refine ⟨agrees.step (fun _ _ _ _ => rfl) (fun d node => ?_) (fun _ => rfl) (fun _ => rfl)
      (fun _ => id) fun _ => .inl, found, ?_⟩
    · refine Table.find?_insert_other _ _ fun equal => ?_
      rw [same] at equal
      cases List.inj_on_of_nodup_map g.recalled.proper.nested.distinct node place.node
        (g.injective equal)
    · exact same ▸ ahead.signatures _ _ (Table.find?_insert_self _ _ _)

/-- The type of a call of a function whose arguments are typed. -/
theorem typeOfSelected {m m' : Mark} {f f' : Ident Mark} {args args' : List (Expr Mark)}
    {x : SymbolId} {call call' : Call} {sigs sigs' : List Signature} {ts ts' : List Ty}
    (place : g.cx.At L (.expr (.call m f args))) (target : g.cx.symbolAt? f.mark.id = some x)
    (count : call.args.length = args.length) (count' : call'.args.length = args.length)
    (same : m'.id = g.ν m.id) (member : .expr (.call m' f' args') ∈ g.cx'.program.nodes)
    (joins : P → sigs = g.cx.overloads g.F x ∧
      Joins (Signature.Moves g.ν g.ρ) (g.Adds x) sigs sigs')
    (typed : P → List.Forall₂ (fun k t => g.F.nodeTypes.find? k.id = some t) args ts ∧
      ts' = ts.map g.move ∧ ∀ k ∈ args, g.Kept (.expr k)) :
    g.Pair skip P
      (do
        match ← (g.cx.asking g.F.recall).selectOverload call sigs ts with
        | some sig =>
          Check.recordSignature m.id sig
          return sig.result
        | none => return .error)
      (do
        match ← (g.cx'.asking o).selectOverload call' sigs' ts' with
        | some sig =>
          Check.recordSignature m'.id sig
          return sig.result
        | none => return .error)
      fun t u => u = g.move t ∧ g.Inside (.expr (.call m f args)) := by
  have spans (ss : List Span) : ∀ span ∈ ss, ∃ m : Mark, True ∧ m.span = span :=
    fun span _ => Mark.exists_span span
  refine Pair.bind (R := g.Selects) (.given
    (g.recalled.located.selectOverload (Mark.exists_span _) (spans _) sigs ts)
    (guided.strides.selectOverload (Mark.exists_span _) (spans _) sigs' ts') fun given => ?_)
    fun found found' => .given ?_ ?_ ?_
  · obtain ⟨rfl, joins⟩ := joins given
    obtain ⟨known, rfl, _⟩ := typed given
    have sane := sane_of_found (fun k inside t =>
      g.recalled.proper.spotless _ _ t (place.part (List.mem_map_of_mem inside)) rfl) known
    refine guided.selectOverload (E := g.Adds x) (fun _ => sane)
      (fun _ => known.length_eq.symm.trans count.symm) (count'.trans count.symm) (fun _ => joins)
      fun _ sig' added arity => ?_
    obtain ⟨k, decl, new, found⟩ := added
    obtain ⟨⟨i, e, t, p, c, arg, found', param, follows, no⟩, _⟩ :=
      g.refused L m f args x place target k sig' decl new found (arity.trans count)
    exact ⟨i, t, p, c, getElem?_of_found known arg found', param, follows, no⟩
  · cases found with
    | some sig =>
      exact g.recalled.located.still (.bind (.recordSignature trivial sig place.node) fun _ => .pure _)
    | none => exact g.recalled.located.pure _
  · cases found' with
    | some sig' =>
      exact guided.strides.still (.bind (.recordSignature trivial sig' member) fun _ => .pure _)
    | none => exact guided.strides.pure _
  · rintro ⟨given, sig, sig', rfl, rfl, moves⟩
    exact (recordSignature place same member).bind fun _ _ => .pure fun settled =>
      ⟨moves.result, inside_call (typed given).2.2 fun _ _ _ =>
        ⟨sig, sig', settled.2.1, settled.2.2, moves⟩⟩

/-- The types above those of the arms so far are counterparts. -/
theorem joinAbove {f k : Ty → Check Ty} {R : Ty → Ty → Prop} {above above' : Option Ty} {t t' : Ty}
    (same : P → above' = above.map g.move ∧ t' = g.move t)
    (rest : ∀ u u', g.Pair skip (P ∧ u' = g.move u) (f u) (k u') R) :
    g.Pair skip P
      (match above with
        | some prev => do
          let u ← (g.cx.asking g.F.recall).lub prev t
          f u
        | none => do
          let u ← Pure.pure t
          f u)
      (match above' with
        | some prev => do
          let u ← (g.cx'.asking o).lub prev t'
          k u
        | none => do
          let u ← Pure.pure t'
          k u) R := by
  cases above with
  | some prev =>
    cases above' with
    | some prev' =>
      refine Pair.bind (.given (g.recalled.located.lub prev t) (guided.strides.lub prev' t') ?_) rest
      intro given
      obtain ⟨equal, rfl⟩ := same given
      cases equal
      exact guided.lub prev t
    | none =>
      refine Pair.bind (.given (g.recalled.located.lub prev t) (guided.strides.pure t') ?_) rest
      exact fun given => nomatch (same given).1
  | none =>
    cases above' with
    | some prev' =>
      refine Pair.bind (.given (g.recalled.located.pure t) (guided.strides.lub prev' t') ?_) rest
      exact fun given => nomatch (same given).1
    | none => exact Pair.bind (.pure fun given => (same given).2) rest

/-- Added functions are checked without a change to the first program. -/
theorem checkAdded {S : List String} {ss : List (Stmt Mark)} (added : ∀ s ∈ ss, s.Added g.ν S)
    (inside : stmtsNodes ss ⊆ g.cx'.program.nodes) :
    g.Tends .univ ((g.cx'.asking o).checkStmts ss) fun _ => True := by
  refine .of_proceeds (guided.extra.checkStmts g.ground inside (fun n member => ?_) ss
    (List.Subset.refl _))
  exact ⟨nodes_added added n member n (n.below_suffix.subset List.mem_cons_self), n, inside member, rfl⟩

mutual
theorem typeOfExpr : ∀ {e e' : Expr Mark} {expected expected' : Option Ty} {L : List (Node Mark)}
    {skip : Option NodeId} {P : Prop}, g.cx.At L (.expr e) → e.Gains g.ν e' →
      e'.nodes ⊆ g.cx'.program.nodes → (∀ n ∈ e.nodes, some n.mark.id ≠ skip) →
        (P → expected = g.cx.due g.F L e ∧ expected' = expected.map g.move) →
          g.Pair skip P ((g.cx.asking g.F.recall).typeOfExpr e expected)
            ((g.cx'.asking o).typeOfExpr e' expected') fun t u =>
              g.F.nodeTypes.find? e.id = some t ∧ u = g.move t ∧ g.Kept (.expr e)
  | .lit l, _, _, _, L, _, _, place, ⟨l', rfl, same, value⟩, inside, other, _ => by
    refine guided.once place rfl (other _ (Expr.mem_nodes _)) same ?_ fun _ => rfl
    rw [value]
    refine (Pair.enters (Check.enterType_enters _) (Check.enterType_enters _) (.enterType _)
      (.enterType _)).weaken id fun t u _ given => ?_
    exact ⟨by rw [given.1, given.2]; rfl, nofun, nofun⟩
  | .name x, _, _, _, L, _, _, place, ⟨x', rfl, moves⟩, inside, other, fits => by
    refine guided.once place rfl (other _ (Expr.mem_nodes _)) moves.1 ?_
      fun given => (fits given).1 ▸ rfl
    refine .given (g.recalled.located.typeOfName trivial _)
      (guided.strides.typeOfName trivial _) fun given => ?_
    rw [(fits given).2]
    exact (guided.typeOfName moves _).weaken id fun t u _ same => ⟨same, nofun, nofun⟩
  | .paren m e, _, _, _, L, _, _, place, ⟨m', k, rfl, same, gains⟩, inside, other, fits => by
    refine guided.once place rfl (other _ (Expr.mem_nodes _)) same ?_
      fun given => (fits given).1 ▸ rfl
    refine (typeOfExpr (place.part List.mem_cons_self) gains (Answers.below_left inside)
      (g.recalled.proper.nested.below_init place rfl) fits).weaken id ?_
    rintro t u _ ⟨_, equal, kept⟩
    exact ⟨equal, List.forall_mem_singleton.mpr kept, nofun⟩
  | .unary m op e, _, _, _, L, _, _, place, ⟨m', k, rfl, same, gains⟩, inside, other, _ => by
    refine guided.once place rfl (other _ (Expr.mem_nodes _)) same ?_ fun _ => rfl
    refine (typeOfExpr (place.part List.mem_cons_self) gains (Answers.below_left inside)
      (g.recalled.proper.nested.below_init place rfl) fun _ => ⟨rfl, rfl⟩).bind fun t u => ?_
    refine .given (g.recalled.located.typeOfUnary (Mark.exists_span _) op t)
      (guided.strides.typeOfUnary (Mark.exists_span _) op u) ?_
    rintro ⟨_, _, rfl, kept⟩
    exact (guided.typeOfUnary _ _ op t).weaken id fun _ _ _ equal =>
      ⟨equal, List.forall_mem_singleton.mpr kept, nofun⟩
  | .bin m op a b, _, _, _, L, _, _, place, ⟨m', a', b', rfl, same, left, right⟩, inside, other, _ => by
    refine guided.once place rfl (other _ (Expr.mem_nodes _)) same ?_ fun _ => rfl
    have apart := List.forall_mem_append.mp (g.recalled.proper.nested.below_init place rfl)
    have inside := Answers.below_left inside
    refine (typeOfExpr (e := a) (place.part List.mem_cons_self) left (Answers.below_left inside)
      apart.1 fun _ => ⟨rfl, rfl⟩).bind fun s s' => ?_
    refine (typeOfExpr (e := b) (place.part (List.mem_cons_of_mem _ List.mem_cons_self)) right
      (Answers.below_right inside) apart.2 fun _ => ⟨rfl, rfl⟩).bind fun t t' => ?_
    refine .given (g.recalled.located.typeOfBinary (Mark.exists_span _) op s t)
      (guided.strides.typeOfBinary (Mark.exists_span _) op s' t') ?_
    rintro ⟨⟨_, _, rfl, first⟩, _, rfl, second⟩
    refine (guided.typeOfBinary _ _ op s t).weaken id fun _ _ _ equal => ⟨equal, ?_, nofun⟩
    exact List.forall_mem_cons.mpr ⟨first, List.forall_mem_singleton.mpr second⟩
  | .call m f args, _, _, _, L, _, _, place, ⟨m', f', args', rfl, same, moves, gain⟩, inside, other,
      _ => by
    refine guided.once place rfl (other _ (Expr.mem_nodes _)) same ?_ fun _ => rfl
    have member := inside (Expr.mem_nodes _)
    have inner := (List.cons_subset.mp (Answers.below_left inside)).2
    have apart := (List.forall_mem_cons.mp (g.recalled.proper.nested.below_init place rfl)).2
    have distinct : (args.map (·.id)).Nodup := by
      have parts := g.recalled.proper.nested.parts_distinct place
      rwa [Node.parts, List.map_map] at parts
    have part (k : Expr Mark) (member : k ∈ args) :
        g.cx.At (.expr (.call m f args) :: L) (.expr k) := place.part (List.mem_map_of_mem member)
    have plain (free : ∀ x, g.cx.symbolAt? f.mark.id = some x → (g.cx.symbol x).role ≠ .function)
        (k : Expr Mark) (_ : k ∈ args) :
        expectedAt args [] k.id = g.cx.due g.F (.expr (.call m f args) :: L) k := by
      rw [Context.due, Context.expectedOf]
      cases target : g.cx.symbolAt? f.mark.id with
      | none => rfl
      | some x => simp only [if_neg (free x target)]
    have target' : g.cx'.symbolAt? f'.mark.id = (g.cx.symbolAt? f.mark.id).map g.ρ := by
      rw [moves.1, g.symbolAt?]
    simp only [Context.asking_toContext]
    cases target : g.cx.symbolAt? f.mark.id with
    | none =>
      rw [target] at target'
      rw [target']
      have free : ∀ x, g.cx.symbolAt? f.mark.id = some x → (g.cx.symbol x).role ≠ .function :=
        fun x known => by cases target.symm.trans known
      exact (typeOfArgs part distinct gain inner apart fun _ => ⟨plain free, rfl⟩).bind fun _ _ =>
        .pure fun given => ⟨rfl, inside_call given.2.2.2 fun x known isFn => absurd isFn (free x known)⟩
    | some x =>
      rw [target] at target'
      rw [target']
      dsimp only [Option.map_some]
      rw [g.role]
      cases role : (g.cx.symbol x).role with
      | function =>
        have nodes : exprsNodes args ⊆ g.cx.program.nodes := fun n inside =>
          Program.mem_below place.node (List.mem_append_left _ (List.mem_cons_of_mem _ inside))
        have located := And.intro
          (fun ts => g.recalled.located.typeOfArgs g.recalled.proper.nested.toGrounded nodes
            (fun _ _ => trivial) args ts (List.Subset.refl _))
          fun ts => guided.strides.typeOfArgs g.ground inner (fun _ _ => trivial) args' ts
            (List.Subset.refl _)
        refine (guided.signaturesOf x).bind fun sigs sigs' => ?_
        refine Pair.bind (R := fun ts ts' =>
          List.Forall₂ (fun k t => g.F.nodeTypes.find? k.id = some t) args ts ∧
            ts' = ts.map g.move ∧ ∀ k ∈ args, g.Kept (.expr k))
          (.given (located.1 _) (located.2 _) ?_) fun ts ts' => ?_
        · rintro ⟨_, rfl, joins⟩
          rw [g.typeOfArgs_added place target role gain joins o]
          refine typeOfArgs part distinct gain inner apart fun _ => ⟨fun k _ => ?_, rfl⟩
          rw [Context.due, Context.expectedOf, target]
          simp only [role, if_pos]
        · exact guided.typeOfSelected place target (List.length_map _)
            ((List.length_map _).trans gain.length) same member (fun given => given.1.2)
            fun given => given.2
      | builtin =>
        have free := other_role target role nofun
        refine (typeOfArgs part distinct gain inner apart fun _ => ⟨plain free, rfl⟩).bind fun _ _ =>
          .branch (fun _ => by rw [gain.length]) (.reject rfl) (.pure fun given => ⟨rfl, ?_⟩)
        exact inside_call given.1.2.2.2 fun y known isFn => absurd isFn (free y known)
      | _ =>
        have free := other_role target role nofun
        exact (typeOfArgs part distinct gain inner apart fun _ => ⟨plain free, rfl⟩).bind fun _ _ =>
          .reject rfl
  | .block m ss tail, _, expected, expected', L, _, P, place, ⟨m', ss', tail', rfl, same, stmts, last⟩,
      inside, other, fits => by
    refine guided.once place rfl (other _ (Expr.mem_nodes _)) same ?_
      fun given => (fits given).1 ▸ rfl
    have apart := List.forall_mem_append.mp (g.recalled.proper.nested.below_init place rfl)
    have inside := Answers.below_left inside
    have part (k : Node Mark) (member : k ∈ ss.map Node.stmt ++ tail.toList.map Node.expr) :
        g.cx.At (.expr (.block m ss tail) :: L) k := place.part member
    refine (checkStmts (fun s member => part _ (List.mem_append_left _ (List.mem_map_of_mem member)))
      stmts (Answers.below_left inside) apart.1).bind fun _ _ => ?_
    refine (typeOfTail (fun e some => part _ (List.mem_append_right _
      (List.mem_map_of_mem (Option.mem_toList.mpr some)))) last (Answers.below_right inside) apart.2
        fun given _ _ => fits given.1).weaken id ?_
    rintro t u ⟨_, early⟩ ⟨equal, late⟩
    refine ⟨equal, fun k member => ?_, nofun⟩
    rcases List.mem_append.mp member with stmt | end'
    · obtain ⟨s, own, rfl⟩ := List.mem_map.mp stmt
      exact early s own
    · obtain ⟨e, own, rfl⟩ := List.mem_map.mp end'
      exact late e (Option.mem_toList.mp own)
  | .assign m x e, _, _, _, L, _, _, place, ⟨m', x', k, rfl, same, moves, gains⟩, inside, other, _ => by
    refine guided.once place rfl (other _ (Expr.mem_nodes _)) same ?_ fun _ => rfl
    have inner := (List.cons_subset.mp (Answers.below_left inside)).2
    have apart := (List.forall_mem_cons.mp (g.recalled.proper.nested.below_init place rfl)).2
    have part : g.cx.At (.expr (.assign m x e) :: L) (.expr e) := place.part List.mem_cons_self
    have inside_assign (kept : g.Kept (.expr e)) : g.Inside (.expr (.assign m x e)) :=
      ⟨List.forall_mem_singleton.mpr kept, nofun⟩
    have target' : g.cx'.symbolAt? x'.mark.id = (g.cx.symbolAt? x.mark.id).map g.ρ := by
      rw [moves.1, g.symbolAt?]
    simp only [Context.asking_toContext]
    cases target : g.cx.symbolAt? x.mark.id with
    | none =>
      rw [target] at target'
      rw [target']
      exact (typeOfExpr part gains inner apart fun _ => by simp [Context.due, target]).bind
        fun _ _ => .pure fun given => ⟨rfl, inside_assign given.2.2.2⟩
    | some s =>
      rw [target] at target'
      rw [target']
      refine .branch (fun _ => by rw [g.role]) ?_ ?_
      · refine (guided.ofSymbol s).bind fun declared declared' => ?_
        refine (typeOfExpr part gains inner apart fun given => ?_).bind fun t t' => ?_
        · obtain ⟨_, rfl, rfl⟩ := given
          exact ⟨by rw [Context.due, target, Option.map_some], rfl⟩
        exact (guided.checkAssignable (fun given => ⟨given.2.2.1, given.1.2.2⟩) _ _).bind
          fun _ _ => .pure fun given => ⟨rfl, inside_assign given.1.2.2.2⟩
      · refine Pair.bind (R := fun _ _ => False) (.report rfl) fun _ _ => ?_
        exact (typeOfExpr part gains inner apart fun given => given.2.elim).bind fun _ _ =>
          .pure fun given => given.1.2.elim
  | .cases m e arms, _, _, _, L, _, _, place, ⟨m', k, arms', rfl, same, gains, rest⟩, inside, other,
      fits => by
    refine guided.once place rfl (other _ (Expr.mem_nodes _)) same ?_
      fun given => (fits given).1 ▸ rfl
    have parts := g.recalled.proper.nested.parts_distinct place
    have apart := List.forall_mem_append.mp (g.recalled.proper.nested.below_init place rfl)
    have inside := Answers.below_left inside
    have nodes : armsNodes arms ⊆ g.cx.program.nodes := fun n inside =>
      Program.mem_below place.node (List.mem_append_left _ (List.mem_append_right _ inside))
    have arm (a : Arm Mark) (member : a ∈ arms) (k : Node Mark)
        (inArm : k ∈ [Node.pat a.pat, .expr a.body]) : k ∈ (Node.expr (.cases m e arms)).parts :=
      List.mem_cons_of_mem _ (List.mem_flatMap.mpr ⟨a, member, inArm⟩)
    refine (typeOfExpr (place.part List.mem_cons_self) gains (Answers.below_left inside) apart.1
      fun _ => ⟨(if_pos rfl).symm, rfl⟩).bind fun t t' => ?_
    refine (typeOfArms false (L := .expr (.cases m e arms) :: L) (fun a member => ?_) nodes rest (Answers.below_right inside) apart.2
      (fun given => ?_) fun given a member => ?_).weaken id ?_
    · exact ⟨place.part (arm a member _ (by simp)), place.part (arm a member _ (by simp))⟩
    · exact ⟨by rw [given.2.2.1, Ty.widenLiteral_move], rfl⟩
    · refine ⟨(fits given.1).1.trans (if_neg fun same => ?_).symm, (fits given.1).2⟩
      rw [Node.parts, List.map_cons, List.nodup_cons] at parts
      refine parts.1 (List.mem_map.mpr ⟨.expr a.body, ?_, same⟩)
      exact List.mem_flatMap.mpr ⟨a, member, by simp⟩
    · rintro u u' ⟨_, _, _, first⟩ ⟨equal, kept⟩
      refine ⟨equal, List.forall_mem_cons.mpr ⟨first, fun k inArms => ?_⟩, nofun⟩
      obtain ⟨a, member, inArm⟩ := List.mem_flatMap.mp inArms
      rcases List.mem_cons.mp inArm with rfl | body
      · exact kept_pat a.pat
      · obtain rfl := List.mem_singleton.mp body
        exact kept a member
  | .inhabitant m node, _, _, _, L, _, _, place, ⟨m', node', rfl, same, gains⟩, inside, other, _ => by
    refine guided.once place rfl (other _ (Expr.mem_nodes _)) same ?_ fun _ => rfl
    refine (guided.typeOfInhabitant (place.part List.mem_cons_self) gains
      (inside (List.mem_append_left _ (TyNode.mem_nodes node')))
      (g.recalled.proper.nested.below_init place rfl _ (TyNode.mem_nodes node))).weaken id ?_
    exact fun t u _ equal => ⟨equal, List.forall_mem_singleton.mpr (kept_type node), nofun⟩
  | .host m desc, _, _, _, L, _, _, place, ⟨m', rfl, same⟩, inside, other, _ =>
    guided.once place rfl (other _ (Expr.mem_nodes _)) same (.pure fun _ => ⟨rfl, nofun, nofun⟩)
      fun _ => rfl
termination_by structural e => e

theorem typeOfArgs : ∀ {es es' : List (Expr Mark)} {ts ts' : List Ty} {L : List (Node Mark)}
    {skip : Option NodeId} {P : Prop}, (∀ k ∈ es, g.cx.At L (.expr k)) → (es.map (·.id)).Nodup →
      exprsGain g.ν es es' → exprsNodes es' ⊆ g.cx'.program.nodes →
        (∀ n ∈ exprsNodes es, some n.mark.id ≠ skip) →
          (P → (∀ k ∈ es, expectedAt es ts k.id = g.cx.due g.F L k) ∧ ts' = ts.map g.move) →
            g.Pair skip P ((g.cx.asking g.F.recall).typeOfArgs es ts)
              ((g.cx'.asking o).typeOfArgs es' ts') fun us us' =>
                List.Forall₂ (fun k t => g.F.nodeTypes.find? k.id = some t) es us ∧
                  us' = us.map g.move ∧ ∀ k ∈ es, g.Kept (.expr k)
  | [], _, _, _, _, _, _, _, _, rfl, _, _, _ => .pure fun _ => ⟨.nil, rfl, nofun⟩
  | e :: es, _, ts, ts', L, _, _, places, distinct, ⟨k, ks, rfl, head, rest⟩, inside, other, fits => by
    obtain ⟨place, places⟩ := List.forall_mem_cons.mp places
    obtain ⟨first, others⟩ := List.forall_mem_append.mp other
    rw [List.map_cons, List.nodup_cons] at distinct
    obtain ⟨single, distinct⟩ := distinct
    refine (typeOfExpr place head (Answers.below_left inside) first fun given => ?_).bind fun t u =>
      (typeOfArgs places distinct rest (Answers.below_right inside) others
        fun given => ?_).bind fun us us' => .pure fun given => ?_
    · refine ⟨(expectedAt_head e es ts).symm.trans ((fits given).1 e List.mem_cons_self), ?_⟩
      rw [(fits given).2, List.head?_map]
    · refine ⟨fun k member => ?_, ?_⟩
      · refine (expectedAt_tail ts fun same => ?_).symm.trans
          ((fits given.1).1 k (List.mem_cons_of_mem e member))
        exact single (same ▸ List.mem_map_of_mem member)
      · rw [(fits given.1).2, List.map_tail]
    · obtain ⟨⟨_, found, rfl, kept⟩, known, rfl, all⟩ := given
      exact ⟨.cons found known, rfl, List.forall_mem_cons.mpr ⟨kept, all⟩⟩
termination_by structural es => es

theorem typeOfTail : ∀ {tail tail' : Option (Expr Mark)} {expected expected' : Option Ty}
    {L : List (Node Mark)} {skip : Option NodeId} {P : Prop},
      (∀ e, tail = some e → g.cx.At L (.expr e)) → tailGains g.ν tail tail' →
        tailNodes tail' ⊆ g.cx'.program.nodes → (∀ n ∈ tailNodes tail, some n.mark.id ≠ skip) →
          (P → ∀ e, tail = some e →
            expected = g.cx.due g.F L e ∧ expected' = expected.map g.move) →
            g.Pair skip P ((g.cx.asking g.F.recall).typeOfTail tail expected)
              ((g.cx'.asking o).typeOfTail tail' expected') fun t u =>
                u = g.move t ∧ ∀ e, tail = some e → g.Kept (.expr e)
  | none, _, _, _, _, _, _, _, rfl, _, _, _ => .pure fun _ => ⟨rfl, nofun⟩
  | some e, _, _, _, _, _, _, place, ⟨k, rfl, gains⟩, inside, other, fits => by
    refine (typeOfExpr (place e rfl) gains inside other fun given => fits given e rfl).weaken id ?_
    rintro t u _ ⟨_, equal, kept⟩
    exact ⟨equal, fun e' same => Option.some.inj same ▸ kept⟩
termination_by structural tail => tail

theorem typeOfArms : ∀ {arms arms' : List (Arm Mark)} {scrutinee scrutinee' : Ty}
    {expected expected' : Option Ty} (closed : Bool) {above above' : Option Ty}
    {L : List (Node Mark)} {skip : Option NodeId} {P : Prop},
      (∀ a ∈ arms, g.cx.At L (.pat a.pat) ∧ g.cx.At L (.expr a.body)) →
        armsNodes arms ⊆ g.cx.program.nodes → armsGain g.ν arms arms' →
          armsNodes arms' ⊆ g.cx'.program.nodes → (∀ n ∈ armsNodes arms, some n.mark.id ≠ skip) →
            (P → scrutinee' = g.move scrutinee ∧ above' = above.map g.move) →
              (P → ∀ a ∈ arms, expected = g.cx.due g.F L a.body ∧
                expected' = expected.map g.move) →
                g.Pair skip P
                  ((g.cx.asking g.F.recall).typeOfArms scrutinee expected closed above arms)
                  ((g.cx'.asking o).typeOfArms scrutinee' expected' closed above' arms')
                  fun t u => u = g.move t ∧ ∀ a ∈ arms, g.Kept (.expr a.body)
  | [], _, _, _, _, _, _, above, _, _, _, _, _, _, rfl, _, _, fits, _ => by
    refine .pure fun given => ⟨?_, nofun⟩
    rw [(fits given).2]
    cases above <;> rfl
  | ⟨m, q, e⟩ :: arms, _, scrutinee, scrutinee', expected, expected', closed, above, above', L, skip, P,
      places, nodes, ⟨m', q', k, arms', rfl, same, pat, body, rest⟩, inside, other, fits, due => by
    obtain ⟨⟨inPat, inBody⟩, places⟩ := List.forall_mem_cons.mp places
    obtain ⟨first, others⟩ := List.forall_mem_append.mp other
    obtain ⟨ofPat, ofBody⟩ := List.forall_mem_append.mp (List.forall_mem_append.mp first).1
    have inArm := Answers.below_left (Answers.below_left inside)
    have member := Answers.below_left inArm (Pat.mem_nodes q')
    have arm : ∀ (P' : Prop), (P' → P) → g.Pair skip P'
        (do
          (g.cx.asking g.F.recall).checkPat scrutinee q
          let t ← (g.cx.asking g.F.recall).typeOfExpr e expected
          let above ← match above with
            | some prev => (g.cx.asking g.F.recall).lub prev t
            | none => Pure.pure t
          (g.cx.asking g.F.recall).typeOfArms scrutinee expected (closed || q.isWildcard)
            (some above) arms)
        (do
          (g.cx'.asking o).checkPat scrutinee' q'
          let t ← (g.cx'.asking o).typeOfExpr k expected'
          let above ← match above' with
            | some prev => (g.cx'.asking o).lub prev t
            | none => Pure.pure t
          (g.cx'.asking o).typeOfArms scrutinee' expected' (closed || q'.isWildcard) (some above)
            arms')
        fun t u => u = g.move t ∧ ∀ a ∈ (⟨m, q, e⟩ : Arm Mark) :: arms, g.Kept (.expr a.body) := by
      intro P' given
      rw [pat.isWildcard]
      refine (guided.checkPat (fun holds => (fits (given holds)).1) inPat pat member ofPat).bind
        fun _ _ => ?_
      refine (typeOfExpr inBody body (Answers.below_right inArm) ofBody fun holds =>
        due (given holds.1) _ List.mem_cons_self).bind fun t t' => ?_
      refine guided.joinAbove (fun holds => ⟨(fits (given holds.1.1)).2, holds.2.2.1⟩)
        fun u u' => ?_
      refine (typeOfArms (closed || q.isWildcard) places
        (fun _ inside => nodes (List.mem_append_right _ inside)) rest (Answers.below_right inside)
          others (fun holds => ⟨(fits (given holds.1.1.1)).1, congrArg some holds.2⟩)
            fun holds a member => due (given holds.1.1.1) a (List.mem_cons_of_mem _ member)).weaken
              id ?_
      rintro _ _ holds ⟨equal, kept⟩
      exact ⟨equal, List.forall_mem_cons.mpr ⟨holds.1.2.2.2, kept⟩⟩
    simp only [Resolver.typeOfArms]
    cases closed with
    | true => exact (Pair.warn q.span q'.span (by decide)).bind fun _ _ => arm _ And.left
    | false => exact arm P id
termination_by structural arms => arms

theorem checkStmt : ∀ {s s' : Stmt Mark} {L : List (Node Mark)} {skip : Option NodeId} {P : Prop},
    g.cx.At L (.stmt s) → s.Gains g.ν s' → s'.nodes ⊆ g.cx'.program.nodes →
      (∀ n ∈ s.nodes, some n.mark.id ≠ skip) →
        g.Pair skip P ((g.cx.asking g.F.recall).checkStmt s) ((g.cx'.asking o).checkStmt s')
          fun _ _ => g.Kept (.stmt s)
  | .val ⟨m, kind, x, ty, e⟩, _, L, _, _, place, ⟨m', x', ty', e', rfl, same, _, hint, gains⟩, inside,
      other => by
    obtain ⟨s, declares, _⟩ := g.recalled.proper.nested.introduced L _ place
      (.val ⟨m, kind, x, ty, e⟩) rfl
    have target : g.cx.symbolAt? m.id = some s := declares.target
    have target' : g.cx'.symbolAt? m'.id = some (g.ρ s) := by rw [same, g.symbolAt?, target]; rfl
    have part : g.cx.At (.stmt (.val ⟨m, kind, x, ty, e⟩) :: L) (.expr e) :=
      place.part (List.mem_append_right _ List.mem_cons_self)
    have inner := Answers.below_right (Answers.below_left inside)
    have apart := (List.forall_mem_append.mp (List.forall_mem_append.mp other).1).2
    have kept (own : g.Kept (.expr e)) : g.Kept (.stmt (.val ⟨m, kind, x, ty, e⟩)) := by
      refine .intro nofun fun k member => ?_
      rcases List.mem_append.mp member with hint | init
      · obtain ⟨node, _, rfl⟩ := List.mem_map.mp hint
        exact kept_type node
      · exact List.mem_singleton.mp init ▸ own
    simp only [Resolver.checkStmt, Context.asking_toContext, target, target']
    refine (guided.ofSymbol s).bind fun declared declared' =>
      .branch (fun _ => by rw [hint.isSome]) ?_ ?_
    · refine (typeOfExpr part gains inner apart fun given => ?_).bind fun t t' =>
        (guided.checkAssignable (fun given => ⟨given.2.2.1, given.1.1.2.2⟩) _ _).weaken id
          fun _ _ given _ => kept given.2.2.2
      obtain ⟨⟨_, rfl, rfl⟩, annotated⟩ := given
      exact ⟨by rw [Context.due, target, if_pos annotated, Option.map_some], rfl⟩
    · exact (typeOfExpr part gains inner apart fun given => ⟨(if_neg given.2).symm, rfl⟩).bind
        fun _ _ => .pure fun given => kept given.2.2.2
  | .typeAlias ⟨m, x, ty⟩, _, L, _, _, place, ⟨m', x', ty', rfl, same, _, gains⟩, _, _ => by
    obtain ⟨s, declares, _⟩ := g.recalled.proper.nested.introduced L _ place
      (.typeAlias ⟨m, x, ty⟩) rfl
    have target : g.cx.symbolAt? m.id = some s := declares.target
    have target' : g.cx'.symbolAt? m'.id = some (g.ρ s) := by rw [same, g.symbolAt?, target]; rfl
    simp only [Resolver.checkStmt, Context.asking_toContext, target, target']
    refine (guided.ofAlias _ _ (declares.head nofun)).bind fun _ _ => .pure fun _ => ?_
    exact .intro nofun (List.forall_mem_singleton.mpr (kept_type ty))
  | .fn ⟨m, x, qs, ty, e⟩, _, L, _, _, place, ⟨m', x', qs', ty', e', rfl, same, name, params, hint,
      gains⟩, inside, other => by
    have part : g.cx.At (.stmt (.fn ⟨m, x, qs, ty, e⟩) :: L) (.expr e) :=
      place.part (by simp [Node.parts])
    have inner := Answers.below_right (Answers.below_left inside)
    have apart := (List.forall_mem_append.mp (List.forall_mem_append.mp other).1).2
    have kept (own : g.Kept (.expr e)) : g.Kept (.stmt (.fn ⟨m, x, qs, ty, e⟩)) := by
      refine .intro nofun fun k member => ?_
      rcases List.mem_append.mp member with param | later
      · obtain ⟨q, _, rfl⟩ := List.mem_map.mp param
        exact .intro nofun (List.forall_mem_singleton.mpr (kept_type q.ty))
      · rcases List.mem_append.mp later with hint | body
        · obtain ⟨node, _, rfl⟩ := List.mem_map.mp hint
          exact kept_type node
        · exact List.mem_singleton.mp body ▸ own
    simp only [Resolver.checkStmt]
    refine (guided.ofFunction place.node (inside (Stmt.mem_nodes _))
      ⟨m', x', qs', ty', e', rfl, same, name, params, hint, gains⟩).bind fun sig sig' =>
        .branch (fun _ => by rw [hint.isSome]) ?_ ?_
    · refine (typeOfExpr part gains inner apart fun given => ?_).bind fun t t' =>
        (guided.checkAssignable (fun given => ⟨given.2.2.1, given.1.1.2.2.result⟩) _ _).weaken id
          fun _ _ given _ => kept given.2.2.2
      obtain ⟨⟨_, found, moves⟩, annotated⟩ := given
      refine ⟨?_, by rw [moves.result]; rfl⟩
      rw [Context.due, if_pos annotated, found, Option.map_some]
    · exact (typeOfExpr part gains inner apart fun given => ⟨(if_neg given.2).symm, rfl⟩).bind
        fun _ _ => .pure fun given => kept given.2.2.2
  | .expr m e, _, _, _, _, place, ⟨m', e', rfl, same, gains⟩, inside, other =>
    (typeOfExpr (place.part List.mem_cons_self) gains (Answers.below_left inside)
      (List.forall_mem_append.mp other).1 fun _ => ⟨rfl, rfl⟩).bind fun _ _ =>
        .pure fun given => .intro nofun (List.forall_mem_singleton.mpr given.2.2.2)
termination_by structural s => s

theorem checkStmts : ∀ {ss : List (Stmt Mark)} {S : List String} {ss' : List (Stmt Mark)}
    {L : List (Node Mark)} {skip : Option NodeId} {P : Prop}, (∀ s ∈ ss, g.cx.At L (.stmt s)) →
      stmtsGain g.ν ss S ss' → stmtsNodes ss' ⊆ g.cx'.program.nodes →
        (∀ n ∈ stmtsNodes ss, some n.mark.id ≠ skip) →
          g.Pair skip P ((g.cx.asking g.F.recall).checkStmts ss) ((g.cx'.asking o).checkStmts ss')
            fun _ _ => ∀ s ∈ ss, g.Kept (.stmt s)
  | [], _, ss', _, _, _, _, added, inside, _ =>
    { own := g.recalled.located.pure ()
      progress := guided.strides.checkStmts g.ground inside (fun _ _ => trivial) ss'
        (List.Subset.refl _)
      leads := fun _ _ _ => (guided.checkAdded added inside).imp fun _ _ => nofun }
  | s :: ss, _, _, _, _, _, places, ⟨new, s', rest, rfl, added, head, later⟩, inside, other => by
    obtain ⟨place, places⟩ := List.forall_mem_cons.mp places
    obtain ⟨first, others⟩ := List.forall_mem_append.mp other
    rw [stmtsNodes_eq, List.flatMap_append, List.flatMap_cons, ← stmtsNodes_eq,
      ← stmtsNodes_eq] at inside
    have before := Answers.below_left inside
    have after := Answers.below_right inside
    rw [Resolver.checkStmts_append]
    refine .after_added (guided.strides.checkStmts g.ground before (fun _ _ => trivial) new
      (List.Subset.refl _)) (fun _ => guided.checkAdded added before) ?_
    refine (checkStmt place head (Answers.below_left after) first).bind fun _ _ =>
      (checkStmts places later (Answers.below_right after) others).weaken id ?_
    exact fun _ _ given kept => List.forall_mem_cons.mpr ⟨given.2, kept⟩
termination_by structural ss => ss
end

end Guided

end Graft

end Solo

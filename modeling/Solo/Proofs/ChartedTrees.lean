import Solo.Proofs.Charted

/-!
# Trees are charted

Expressions, statements and declarations, by induction on their trees. What is expected of an
expression at a place is what was found to be due there.
-/

namespace Solo

section
variable {cx : Context} {F : Checker} {gs : List Finding} {o : Oracle} {P : Prop}
  {L : List (Node Mark)}

/-- Every node's type that was found has no problem. -/
def Context.Spotless (cx : Context) (F : Checker) : Prop :=
  ∀ L n t, cx.At L n → n.isTyped = true → F.nodeTypes.find? n.mark.id = some t → t.isError = false

theorem Context.Met.bindingType {x : SymbolId} {t : Ty} (met : cx.Met F gs (.typeOf x) t) :
    t = F.bindingType x := by
  cases met with
  | path found => rw [Checker.bindingType, found]; rfl
  | untyped _ none => rw [Checker.bindingType, none]; rfl

theorem BoundProgram.Grounded.parts_distinct (ground : cx.Grounded) {n : Node Mark}
    (place : cx.At L n) : (n.parts.map (·.mark.id)).Nodup := by
  have own : ∀ ns : List (Node Mark), ns.Sublist (ns.flatMap Node.below) := by
    intro ns
    induction ns with
    | nil => exact .slnil
    | cons n ns ih => exact (n.below_suffix).sublist.append ih
  have inside : n.below.Sublist cx.program.nodes :=
    ((Node.program cx.program).closed n place.node).sublist
  refine ground.distinct.sublist (List.Sublist.map _ ?_)
  exact (own n.parts).trans ((List.sublist_append_left _ _).trans (n.parts_sublist.trans inside))

/-- What is below a part of a node has other numbers than the node. -/
theorem BoundProgram.Grounded.below_part (ground : cx.Grounded) {n k j : Node Mark}
    (place : cx.At L n) (part : k ∈ n.parts) (inside : j ∈ k.below) : j.mark.id ≠ n.mark.id := by
  have sub : (n.parts.flatMap Node.below ++ [n]).Sublist cx.program.nodes :=
    n.parts_sublist.trans ((Node.program cx.program).closed n place.node).sublist
  have distinct := ground.distinct.sublist (sub.map _)
  rw [List.map_append, List.nodup_append] at distinct
  exact distinct.2.2 _ (List.mem_map_of_mem (List.mem_flatMap.mpr ⟨k, part, inside⟩)) _
    List.mem_cons_self

/-- What comes before a node among those below it has other numbers. -/
theorem BoundProgram.Grounded.below_init (ground : cx.Grounded) {n : Node Mark}
    {ns : List (Node Mark)} (place : cx.At L n) (own : n.below = ns ++ [n]) :
    ∀ j ∈ ns, some j.mark.id ≠ some n.mark.id := by
  have distinct := ground.distinct.sublist
    (((Node.program cx.program).closed n place.node).sublist.map _)
  rw [own, List.map_append, List.nodup_append] at distinct
  intro j inside same
  exact distinct.2.2 _ (List.mem_map_of_mem inside) _ List.mem_cons_self (Option.some.inj same)

theorem BoundProgram.Declares.lt {d : Decl} {x : SymbolId} (declares : cx.Declares d x) :
    x < cx.symbols.size := by
  by_contra large
  have decl := declares.decl
  rw [BoundProgram.WellBound.symbol_of_large (Nat.not_lt.mp large)] at decl
  cases decl

theorem sane_of_found {es : List (Expr Mark)} {ts : List Ty}
    (sane : ∀ e ∈ es, ∀ t, F.nodeTypes.find? e.id = some t → t.isError = false)
    (found : List.Forall₂ (fun e t => F.nodeTypes.find? e.id = some t) es ts) :
    ts.any Ty.isError = false := by
  induction found with
  | nil => rfl
  | cons first _ ih =>
    obtain ⟨own, others⟩ := List.forall_mem_cons.mp sane
    rw [List.any_cons, own _ first, ih others]
    rfl

/-- The first of several arguments is expected to have the first type. -/
theorem expectedAt_head (e : Expr Mark) (es : List (Expr Mark)) (ts : List Ty) :
    expectedAt (e :: es) ts e.id = ts.head? := if_pos rfl

theorem expectedAt_tail {e k : Expr Mark} {es : List (Expr Mark)} (ts : List Ty)
    (apart : e.id ≠ k.id) : expectedAt (e :: es) ts k.id = expectedAt es ts.tail k.id :=
  if_neg apart

namespace Context.Charts

section
set_option linter.unusedSectionVars false

variable (guides : cx.Guides F o) (nested : cx.WellNested)
  (typed : ∀ x u, F.symbolTypes.find? x = some u → cx.Typable x) (spotless : cx.Spotless F)
include guides nested typed spotless

mutual
theorem typeOfExpr : ∀ {e : Expr Mark} {expected : Option Ty} {L : List (Node Mark)} {P : Prop},
    cx.At L (.expr e) → (P → expected = cx.due F L e) →
      cx.Charts F o P [] e.nodes (fun o => (cx.asking o).typeOfExpr e expected)
        fun t => F.nodeTypes.find? e.id = some t
  | .lit l, _, _, _, place, _ =>
    once nested.toGrounded typed place rfl (enters (Check.enterType_enters _) (.enterType _)).any
      fun _ _ => rfl
  | .name x, _, _, _, place, fits =>
    once nested.toGrounded typed place rfl (typeOfName guides x _) fun given _ => fits given ▸ rfl
  | .paren m e, _, _, _, place, fits =>
    once nested.toGrounded typed place rfl ((typeOfExpr (place.part List.mem_cons_self)
      fits).any.wider (List.subset_append_left _ _)) fun given _ => fits given ▸ rfl
  | .unary m op e, _, _, _, place, _ => by
    refine once nested.toGrounded typed place rfl (bind (X := []) ((typeOfExpr
      (place.part List.mem_cons_self) fun _ => rfl).wider (List.subset_append_left _ _)) fun t =>
        typeOfUnary guides m.span op t) fun _ _ => rfl
  | .bin m op a b, _, _, _, place, _ => by
    refine once nested.toGrounded typed place rfl (bind (X := []) ((typeOfExpr (e := a)
      (place.part (by simp [Node.parts])) fun _ => rfl).wider ?_) fun s => bind (X := [])
        ((typeOfExpr (e := b) (place.part (by simp [Node.parts])) fun _ => rfl).wider ?_) fun t =>
          typeOfBinary guides m.span op s t) fun _ _ => rfl
    · exact fun n inside => List.mem_append_left _ (List.mem_append_left _ inside)
    · exact fun n inside => List.mem_append_left _ (List.mem_append_right _ inside)
  | .call m f args, _, L, P, place, _ => by
    have ofArgs : ∀ {ts : List Ty} {P : Prop},
        (P → ∀ k ∈ args, expectedAt args ts k.id = cx.due F (.expr (.call m f args) :: L) k) →
          cx.Charts F o P [] (Node.expr (.call m f args)).below
            (fun o => (cx.asking o).typeOfArgs args ts)
            (List.Forall₂ (fun k t => F.nodeTypes.find? k.id = some t) args) := by
      intro ts P fits
      refine (typeOfArgs (fun k member => place.part (List.mem_map_of_mem member)) ?_ fits).wider
        fun n inside => List.mem_append_left _ (List.mem_cons_of_mem _ inside)
      have parts := nested.toGrounded.parts_distinct place
      rwa [Node.parts, List.map_map] at parts
    refine once nested.toGrounded typed place rfl ?_ fun _ _ => rfl
    simp only [cx.asking_toContext]
    cases target : cx.symbolAt? f.mark.id with
    | none =>
      have plain : cx.writes (.expr (.call m f args)) = [] := by simp [writes, target]
      rw [plain]
      refine bind (X := []) (ofArgs fun _ k _ => ?_) fun _ => done _
      rw [due, expectedOf, target]
    | some x =>
      dsimp only
      by_cases role : (cx.symbol x).role = .function
      · have signs : cx.writes (.expr (.call m f args)) =
            [] ++ ([] ++ ([] ++ ([.signature m.id] ++ []))) := by simp [writes, target, role]
        rw [signs]
        simp only [role]
        refine bind (signaturesOf guides nested.toGrounded x) fun sigs =>
          bind (ofArgs fun given k _ => ?_) fun types =>
            bind (selectOverload guides typed _ sigs (fun given => ?_) fun given => ?_)
              fun found => ?_
        · rw [due, expectedOf, target, given.2]
          simp only [role, if_pos]
        · exact sane_of_found (fun k member t => spotless _ _ t
            (place.part (List.mem_map_of_mem member)) rfl) given.2
        · rw [List.length_map]
          exact given.2.length_eq.symm
        · cases found with
          | some sig =>
            exact bind (recordSignature nested.toGrounded place) fun _ => done _
          | none =>
            exact (done (P := True) _).vacuous fun given => by
              cases given.2
      · have plain : cx.writes (.expr (.call m f args)) = [] := by simp [writes, target, role]
        have free : ∀ k, expectedAt args [] k.id = cx.due F (.expr (.call m f args) :: L) k := by
          intro k
          rw [due, expectedOf, target]
          simp only [if_neg role]
        rw [plain]
        cases found : (cx.symbol x).role with
        | function => exact absurd found role
        | builtin =>
          refine bind (X := []) (ofArgs fun _ k _ => free k) fun _ => branch (fun _ => ?_)
            fun _ => done _
          exact reject _ rfl _
        | _ =>
          exact bind (X := []) (ofArgs fun _ k _ => free k) fun _ => reject _ rfl _
  | .block m ss tail, _, _, _, place, fits => by
    refine once nested.toGrounded typed place rfl ?_ fun given _ => fits given ▸ rfl
    refine bind (X := []) ((checkStmts fun s member => place.part ?_).wider ?_) fun _ =>
      (typeOfTail (fun e some => place.part ?_) fun given e _ => fits given.1).any.wider ?_
    · exact List.mem_append_left _ (List.mem_map_of_mem member)
    · exact fun n inside => List.mem_append_left _ (List.mem_append_left _ inside)
    · exact List.mem_append_right _ (List.mem_map_of_mem (Option.mem_toList.mpr some))
    · exact fun n inside => List.mem_append_left _ (List.mem_append_right _ inside)
  | .assign m x e, _, _, _, place, _ => by
    have inner : ∀ {expected : Option Ty} {P : Prop},
        (P → expected = cx.due F (.expr (.assign m x e) :: _) e) →
          cx.Charts F o P [] (Node.expr (.assign m x e)).below
            (fun o => (cx.asking o).typeOfExpr e expected)
            fun t => F.nodeTypes.find? e.id = some t :=
      fun fits => (typeOfExpr (place.part List.mem_cons_self) fits).wider fun n inside =>
        List.mem_append_left _ (List.mem_cons_of_mem _ inside)
    refine once nested.toGrounded typed place rfl ?_ fun _ _ => rfl
    simp only [cx.asking_toContext]
    cases target : cx.symbolAt? x.mark.id with
    | none =>
      exact bind (X := []) (inner fun _ => by simp [due, target]) fun _ => done _
    | some s =>
      refine branch (fun _ => ?_) fun _ => ?_
      · refine bind (X := []) (ask guides (q := .typeOf s) trivial) fun declared =>
          bind (X := []) (inner fun given => ?_) fun t => bind (X := [])
            (checkAssignable guides typed t declared e.span) fun _ => done _
        obtain ⟨_, _, met⟩ := given
        rw [due, target, met.bindingType, Option.map_some]
      · exact stop _ rfl (bind (X := []) (inner (P := False) nofun) fun _ => done _)
  | .cases m e arms, _, L, _, place, fits => by
    have parts := nested.toGrounded.parts_distinct place
    refine once nested.toGrounded typed place rfl ?_ fun given _ => fits given ▸ rfl
    refine bind (X := []) ((typeOfExpr (place.part List.mem_cons_self) fun _ => ?_).wider ?_)
      fun t => (typeOfArms t.widenLiteral false none
        (fun a member => ⟨place.part ?_, place.part ?_⟩) fun given a member => ?_).wider ?_
    · exact (if_pos rfl).symm
    · exact fun n inside => List.mem_append_left _ (List.mem_append_left _ inside)
    · exact List.mem_cons_of_mem _ (List.mem_flatMap.mpr ⟨a, member, by simp⟩)
    · exact List.mem_cons_of_mem _ (List.mem_flatMap.mpr ⟨a, member, by simp⟩)
    · refine (fits given.1).trans (if_neg fun same => ?_).symm
      rw [Node.parts, List.map_cons, List.nodup_cons] at parts
      refine parts.1 (List.mem_map.mpr ⟨.expr a.body, ?_, same⟩)
      exact List.mem_flatMap.mpr ⟨a, member, by simp⟩
    · exact fun n inside => List.mem_append_left _ (List.mem_append_right _ inside)
  | .inhabitant m node, _, _, _, place, _ =>
    once nested.toGrounded typed place rfl ((typeOfInhabitant guides nested.toGrounded typed
      (place.part List.mem_cons_self) fun t found =>
        spotless _ (.ty node) t (place.part List.mem_cons_self) rfl found).wider
          (List.subset_append_left _ _)) fun _ _ => rfl
  | .host m _, _, _, _, place, _ =>
    once nested.toGrounded typed place rfl (done _) fun _ _ => rfl

theorem typeOfArgs : ∀ {es : List (Expr Mark)} {ts : List Ty} {L : List (Node Mark)} {P : Prop},
    (∀ k ∈ es, cx.At L (.expr k)) → (es.map (·.id)).Nodup →
      (P → ∀ k ∈ es, expectedAt es ts k.id = cx.due F L k) →
        cx.Charts F o P [] (exprsNodes es) (fun o => (cx.asking o).typeOfArgs es ts)
          (List.Forall₂ (fun k t => F.nodeTypes.find? k.id = some t) es)
  | [], _, _, _, _, _, _ => pure fun _ => .nil
  | e :: es, ts, L, P, places, distinct, fits => by
    obtain ⟨place, places⟩ := List.forall_mem_cons.mp places
    rw [List.map_cons, List.nodup_cons] at distinct
    obtain ⟨single, distinct⟩ := distinct
    refine bind (X := []) ((typeOfExpr place fun given => ?_).wider
      (List.subset_append_left _ _)) fun t => bind (X := []) ((typeOfArgs places distinct
        fun given k member => ?_).wider (List.subset_append_right _ _))
        fun ts' => pure fun given => ?_
    · exact (expectedAt_head e es ts).symm.trans (fits given e List.mem_cons_self)
    · refine (expectedAt_tail ts fun same => ?_).symm.trans
        (fits given.1 k (List.mem_cons_of_mem e member))
      exact single (same ▸ List.mem_map_of_mem member)
    · exact .cons given.1.2 given.2

theorem typeOfTail : ∀ {tail : Option (Expr Mark)} {expected : Option Ty} {L : List (Node Mark)}
    {P : Prop}, (∀ e, tail = some e → cx.At L (.expr e)) →
      (P → ∀ e, tail = some e → expected = cx.due F L e) →
        cx.Charts F o P [] (tailNodes tail) (fun o => (cx.asking o).typeOfTail tail expected)
          fun _ => True
  | none, _, _, _, _, _ => pure fun _ => trivial
  | some e, _, _, _, place, fits => (typeOfExpr (place e rfl) fun given => fits given e rfl).any

theorem typeOfArms : ∀ {arms : List (Arm Mark)} (scrutinee : Ty) {expected : Option Ty}
    (closed : Bool) (above : Option Ty) {L : List (Node Mark)} {P : Prop},
      (∀ a ∈ arms, cx.At L (.pat a.pat) ∧ cx.At L (.expr a.body)) →
      (P → ∀ a ∈ arms, expected = cx.due F L a.body) →
        cx.Charts F o P (armEntries arms) (armsNodes arms)
          (fun o => (cx.asking o).typeOfArms scrutinee expected closed above arms) fun _ => True
  | [], _, _, _, _, _, _, _, _ => pure fun _ => trivial
  | ⟨m, q, e⟩ :: arms, scrutinee, expected, closed, above, L, P, places, fits => by
    obtain ⟨⟨pat, body⟩, places⟩ := List.forall_mem_cons.mp places
    have inPat : q.nodes ⊆ armsNodes (⟨m, q, e⟩ :: arms) := fun n inside =>
      List.mem_append_left _ (List.mem_append_left _ (List.mem_append_left _ inside))
    have inBody : e.nodes ⊆ armsNodes (⟨m, q, e⟩ :: arms) := fun n inside =>
      List.mem_append_left _ (List.mem_append_left _ (List.mem_append_right _ inside))
    have own : armEntries (⟨m, q, e⟩ :: arms) =
        (if q.isRecorded then [.pattern q.mark.id] else []) ++ ([] ++ armEntries arms) := by
      by_cases recorded : q.isRecorded = true <;> simp [armEntries, recorded]
    have rest : ∀ (P : Prop), (P → ∀ a ∈ ⟨m, q, e⟩ :: arms, expected = cx.due F L a.body) →
        cx.Charts F o P (armEntries (⟨m, q, e⟩ :: arms)) (armsNodes (⟨m, q, e⟩ :: arms))
          (fun o => do
            (cx.asking o).checkPat scrutinee q
            let t ← (cx.asking o).typeOfExpr e expected
            let above ←
              match above with
              | some prev => (cx.asking o).lub prev t
              | none => Pure.pure t
            (cx.asking o).typeOfArms scrutinee expected (closed || q.isWildcard) (some above) arms)
          fun _ => True := by
      intro P fits
      rw [own]
      refine bind ((checkPat guides nested.toGrounded typed scrutinee pat).wider inPat) fun _ =>
        bind ((typeOfExpr body fun given => fits given.1 _ List.mem_cons_self).wider inBody)
          fun t => ?_
      have later : ∀ (u : Ty) (P' : Prop), (P' → P) →
          cx.Charts F o P' (armEntries arms) (armsNodes (⟨m, q, e⟩ :: arms))
            (fun o => (cx.asking o).typeOfArms scrutinee expected (closed || q.isWildcard)
              (some u) arms) fun _ => True := by
        intro u P' given
        have charts := typeOfArms scrutinee (closed || q.isWildcard) (some u) places
          fun given' a member => fits (given given') a (List.mem_cons_of_mem _ member)
        exact charts.wider (List.subset_append_right _ _)
      cases above with
      | some prev => exact bind (X := []) (lub guides typed prev t) fun u => later u _ (·.1.1.1)
      | none =>
        exact bind (X := []) (done _) fun u => later u _ (·.1.1.1)
    simp only [Resolver.typeOfArms]
    cases closed with
    | true =>
      exact bind (X := []) (warn q.span .unreachableCase) fun _ => rest _ fun given => fits given.1
    | false => exact rest P fits

theorem checkStmt : ∀ {s : Stmt Mark} {L : List (Node Mark)} {P : Prop}, cx.At L (.stmt s) →
    cx.Charts F o P [] s.nodes (fun o => (cx.asking o).checkStmt s) fun _ => True
  | .val ⟨m, kind, x, ty, e⟩, L, P, place => by
    have inner : ∀ {expected : Option Ty} {P : Prop},
        (P → expected = cx.due F (.stmt (.val ⟨m, kind, x, ty, e⟩) :: L) e) →
          cx.Charts F o P [] (Stmt.val ⟨m, kind, x, ty, e⟩).nodes
            (fun o => (cx.asking o).typeOfExpr e expected)
            fun t => F.nodeTypes.find? e.id = some t :=
      fun fits => (typeOfExpr (place.part (List.mem_append_right _ List.mem_cons_self)) fits).wider
        fun n inside => List.mem_append_left _ (List.mem_append_right _ inside)
    simp only [Resolver.checkStmt, cx.asking_toContext]
    cases target : cx.symbolAt? m.id with
    | none => exact done ()
    | some s =>
      refine bind (X := []) (ask guides (q := .typeOf s) trivial) fun declared =>
        branch (fun annotated => ?_) fun plain => ?_
      · refine bind (X := []) (inner fun given => ?_)
          fun t => checkAssignable guides typed t declared e.span
        obtain ⟨_, _, met⟩ := given
        rw [due, target, met.bindingType, if_pos annotated, Option.map_some]
      · exact bind (X := []) (inner fun _ => (if_neg plain).symm) fun _ => done ()
  | .typeAlias ⟨m, name, ty⟩, L, P, place => by
    simp only [Resolver.checkStmt, cx.asking_toContext]
    cases target : cx.symbolAt? m.id with
    | none => exact done ()
    | some s =>
      refine bind (X := []) (ask guides (q := .aliasTarget s name.mark.span) ?_) fun _ => done ()
      obtain ⟨x, declares, _⟩ := nested.introduced L _ place (.typeAlias ⟨m, name, ty⟩) rfl
      cases target.symm.trans declares.target
      exact declares.lt
  | .fn ⟨m, name, params, result, e⟩, L, P, place => by
    have inner : ∀ {expected : Option Ty} {P : Prop},
        (P → expected = cx.due F (.stmt (.fn ⟨m, name, params, result, e⟩) :: L) e) →
          cx.Charts F o P [] (Stmt.fn ⟨m, name, params, result, e⟩).nodes
            (fun o => (cx.asking o).typeOfExpr e expected)
            fun t => F.nodeTypes.find? e.id = some t :=
      fun fits => (typeOfExpr (place.part (by simp [Node.parts])) fits).wider
        fun n inside => List.mem_append_left _ (List.mem_append_right _ inside)
    simp only [Resolver.checkStmt]
    refine bind (X := []) (ask guides (q := .signature ⟨m, name, params, result, e⟩) place.node)
      fun sig => branch (fun annotated => ?_) fun plain => ?_
    · refine bind (X := []) (inner fun given => ?_) fun t => checkAssignable guides typed t _ e.span
      obtain ⟨_, _, _, found⟩ := given
      rw [due, if_pos annotated]
      exact (congrArg (Option.map _) found).symm
    · exact bind (X := []) (inner fun _ => (if_neg plain).symm) fun _ => done ()
  | .expr m e, L, P, place =>
    bind (X := []) ((typeOfExpr (place.part List.mem_cons_self) fun _ => rfl).wider
      (List.subset_append_left _ _)) fun _ => done ()

theorem checkStmts : ∀ {ss : List (Stmt Mark)} {L : List (Node Mark)} {P : Prop},
    (∀ s ∈ ss, cx.At L (.stmt s)) →
      cx.Charts F o P [] (stmtsNodes ss) (fun o => (cx.asking o).checkStmts ss) fun _ => True
  | [], _, _, _ => done ()
  | s :: _, _, _, places =>
    bind (X := []) ((checkStmt (places s List.mem_cons_self)).wider (List.subset_append_left _ _))
      fun _ => (checkStmts fun s member => places s (List.mem_cons_of_mem _ member)).wider
        (List.subset_append_right _ _)
end

/-! ### Declarations -/

theorem typeOfVal {d : ValDecl Mark} (place : cx.At L (.stmt (.val d))) :
    cx.Charts F o P [] (Decl.seen (.val d)) (fun o => (cx.asking o).typeOfVal d) fun _ => True := by
  obtain ⟨m, kind, name, ty, e⟩ := d
  cases ty with
  | some node =>
    exact (typeOfNode guides nested.toGrounded typed (place.part (by simp [Node.parts]))).any
  | none =>
    refine bind (X := []) (typeOfExpr guides nested typed spotless
      (place.part (by simp [Node.parts])) fun _ => rfl) fun t => ?_
    exact branch (p := kind = .finalVal ∧ cx.options.inferFinalSingleton = true) (fun _ => done _)
      fun _ => done _

theorem typeOfDecl {d : Decl} (place : cx.At L d.node) :
    cx.Charts F o P [] d.seen (fun o => (cx.asking o).typeOfDecl d) fun _ => True := by
  cases d with
  | param q =>
    exact (typeOfNode guides nested.toGrounded typed (place.part List.mem_cons_self)).any
  | val d => exact typeOfVal guides nested typed spotless place
  | _ => exact done _

theorem typeOfTarget {d : Option Decl} (place : ∀ k, d = some k → ∃ L, cx.At L k.node) :
    cx.Charts F o P [] ((d.map Decl.seen).getD []) (fun o => (cx.asking o).typeOfTarget d)
      fun _ => True := by
  cases d with
  | none => exact done _
  | some k =>
    cases k with
    | typeAlias d =>
      obtain ⟨L, place⟩ := place _ rfl
      exact (typeOfNode guides nested.toGrounded typed (place.part List.mem_cons_self)).any
    | _ => exact done _

theorem typeOfBody {d : FnDecl Mark} (place : cx.At L (.stmt (.fn d))) :
    cx.Charts F o P [] (Decl.seen (.fn d)) (fun o => (cx.asking o).typeOfBody d) fun _ => True := by
  obtain ⟨m, name, params, result, e⟩ := d
  cases result with
  | some node =>
    exact (typeOfNode guides nested.toGrounded typed (place.part (by simp [Node.parts]))).any
  | none =>
    exact (typeOfExpr guides nested typed spotless (place.part (by simp [Node.parts]))
      fun _ => rfl).any

omit typed spotless in
theorem params {d : FnDecl Mark} (node : .stmt (.fn d) ∈ cx.program.nodes) :
    cx.Charts F o P [] N (fun o => d.params.mapM (cx.asking o).typeOfParam) fun _ => True :=
  (mapM fun _ member => typeOfParam guides nested.toGrounded (Program.param_of_fn node member)).any

end

end Context.Charts

end

end Solo

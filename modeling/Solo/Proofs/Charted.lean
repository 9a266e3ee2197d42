import Solo.Proofs.ChartedConstants

/-!
# Checking is charted

Every question of the checker about single expressions, type nodes, patterns and overloads is
charted, given an oracle that guides.
-/

namespace Solo

/-! ### Inhabitants -/

/-- The one value of a type, if it has one. -/
def Resolver.valueWithin (r : Resolver) : Nat → Ty → Check (Option Literal)
  | _, .literal v => return some v
  | _, .intrinsic .unit => return some .unit
  | _, .intrinsic .null => return some .null
  | _, .intrinsic _ => return none
  | 0, .path _ => return none
  | n + 1, .path x => do
    let declared ← r.typeOf x
    if declared.isSingleton then valueWithin r n declared else r.constantOf n x

theorem Resolver.valueWithin_plain {t : Ty} (plain : ∀ x, t ≠ .path x) :
    ∃ v, ∀ (r : Resolver) (n : Nat), r.valueWithin n t = Pure.pure v := by
  rcases t with k | v | x
  · cases k <;> exact ⟨_, fun _ n => by cases n <;> rfl⟩
  · exact ⟨some v, fun _ n => by cases n <;> rfl⟩
  · exact absurd rfl (plain x)

/-- Why a type has no value. -/
def Context.unfit (cx : Context) : Ty → Problem
  | .path x => .notAConstant (cx.nameOf x)
  | t => .noSingleInhabitant t

theorem Context.unfit_error (cx : Context) (t : Ty) : (cx.unfit t).severity = .error := by
  cases t <;> rfl

theorem Resolver.inhabitantWithin_eq (r : Resolver) (n : Nat) (t : Ty) :
    r.inhabitantWithin n t = do
      match ← r.valueWithin n t with
      | some v => return .ok v
      | none => return .error (r.unfit t) := by
  induction n generalizing t with
  | zero =>
    rcases t with k | v | x
    · cases k <;> rfl
    · rfl
    · rfl
  | succ n ih =>
    rcases t with k | v | x
    · cases k <;> rfl
    · rfl
    · rw [inhabitantWithin, valueWithin, bind_assoc]
      congr 1
      funext declared
      by_cases single : declared.isSingleton = true
      · simp only [if_pos single, ih, bind_assoc]
        congr 1
        funext found
        cases found <;> rfl
      · simp only [if_neg single]
        rfl

/-- Records the value of an inhabitant expression, or reports that there is none. -/
def Context.recordValue (cx : Context) (m : Mark) (span : Span) (t : Ty) : Option Literal → Check Ty
  | some v => (do
      let literal ← Check.enterLiteral v
      Check.recordWitness m.id ⟨t, literal, v⟩) >>= fun _ => return t
  | none => do
    Check.report span (cx.unfit t)
    return t

theorem Context.typeOfInhabitant_eq (cx : Context) (o : Oracle) (m : Mark) (node : TyNode Mark) :
    (cx.asking o).typeOfInhabitant m node = (do
      let t ← (cx.asking o).typeOfNode node
      if t.isError then return t
      let found ← (cx.asking o).valueWithin (cx.options.maxConstEvalDepth + 1) t
      cx.recordValue m node.span t found) := by
  rw [Resolver.typeOfInhabitant]
  congr 1
  funext t
  split
  · rfl
  · simp only [Resolver.inhabitant, Resolver.inhabitantWithin_eq, bind_assoc]
    congr 1
    funext found
    cases found <;> rfl

namespace Located

variable {cx : Context} {M : Mark → Prop} {C : {α : Type} → (Oracle → Check α) → Prop}
  (comp : Located cx M C)
include comp

theorem valueWithin (n : Nat) (t : Ty) : C fun o => (cx.asking o).valueWithin n t := by
  induction n generalizing t with
  | zero =>
    rcases t with k | v | x
    · cases k <;> exact comp.pure _
    · exact comp.pure _
    · exact comp.pure none
  | succ n ih =>
    rcases t with k | v | x
    · cases k <;> exact comp.pure _
    · exact comp.pure _
    · simp only [Resolver.valueWithin]
      exact comp.bind (comp.typeOf x) fun declared =>
        Composed.branch (ih declared) ((comp.constants n).1 x)

theorem recordValue (m : Mark) {span : Span} (own : ∃ m, M m ∧ m.span = span) (t : Ty)
    (found : Option Literal) : C fun _ => cx.recordValue m span t found := by
  cases found with
  | some v =>
    exact comp.still (.bind (.bind (.enterLiteral v) fun _ => .recordWitness m.id _) fun _ => .pure t)
  | none => exact comp.reject own _ t

end Located

/-! ### Singletons of bindings -/

/-- Forms the singleton of a binding, or reports why it has none. -/
def Context.formPath (cx : Context) (span : Span) (s : SymbolId) : Check Ty :=
  match cx.stablePath s with
  | .ok t => Check.enterType t
  | .error problem => do
    Check.report span problem
    return .error

/-- Why a binding has no singleton is an error. -/
theorem Context.stablePath_error {cx : Context} {s : SymbolId} {problem : Problem}
    (refused : cx.stablePath s = .error problem) : problem.severity = .error := by
  rw [stablePath] at refused
  split at refused <;> cases refused
  rfl

/-- A singleton is refused while the type of its binding is looked for. -/
theorem Context.typeOfPath_eq {cx : Context} {x : Ident Mark} {s : SymbolId} (span : Span)
    (target : cx.symbolAt? x.mark.id = some s) (o : Oracle) (c : Checker) :
    (cx.asking o).typeOfPath x span c =
      if c.pursuits.any (·.goal = .typeOf s) then .ok (.error, { c with
        diagnostics := c.diagnostics.push ⟨span, .circularInitializer (cx.nameOf s)⟩ })
      else cx.formPath span s c := by
  simp only [Resolver.typeOfPath, cx.asking_toContext, target]
  change (if c.pursuits.any (·.goal = .typeOf s) then _ else _ : Check Ty) c = _
  split <;> rfl

section
variable {cx : Context} {F : Checker} {N : List (Node Mark)} {o : Oracle} {P : Prop}

namespace Context

namespace Charts

variable (guides : cx.Guides F o)
include guides

theorem valueWithin (n : Nat) (t : Ty) :
    cx.Evaluates F o P N [] (fun o => (cx.asking o).valueWithin n t) fun _ => True := by
  have none : cx.Evaluates F o P N [] (fun _ => Pure.pure Option.none) fun _ => True :=
    .none fun _ _ _ => id
  have plain : ∀ v, cx.Evaluates F o P N [] (fun _ => Pure.pure (some v)) fun _ => True :=
    fun v => .enters (x := some v) (fun _ => ⟨_, _, rfl⟩) (.pure _) fun _ => trivial
  induction n generalizing t with
  | zero =>
    rcases t with k | v | x
    · cases k <;> first | exact plain _ | exact none
    · exact plain v
    · exact none
  | succ n ih =>
    rcases t with k | v | x
    · cases k <;> first | exact plain _ | exact none
    · exact plain v
    · simp only [Resolver.valueWithin]
      refine (ask guides (q := .typeOf x) trivial).evaluates fun declared => ?_
      by_cases single : declared.isSingleton = true
      · simp only [if_pos single]
        exact ih declared
      · simp only [if_neg single]
        exact ((Evaluates.constants guides n).1 x P []).any

theorem baseWithin (n : Nat) (t : Ty) :
    cx.Charts F o P [] N (fun o => (cx.asking o).baseWithin n t) fun _ => True := by
  induction n generalizing t P with
  | zero =>
    simp only [Resolver.baseWithin]
    refine branch (fun _ => ?_) fun _ => done _
    exact bind (X := []) (widen guides t) fun _ => done _
  | succ n ih =>
    simp only [Resolver.baseWithin]
    refine branch (fun _ => ?_) fun _ => done _
    refine bind (X := []) (widen guides t) fun next => ?_
    exact branch (fun _ => done _) fun _ => ih next

theorem baseKind (t : Ty) :
    cx.Charts F o P [] N (fun o => (cx.asking o).baseKind t) fun _ => True :=
  bind (X := []) (baseWithin guides (cx.symbols.size + 1) t) fun _ => done _

section
variable (typed : ∀ x u, F.symbolTypes.find? x = some u → cx.Typable x)
include typed

theorem lub (s t : Ty) : cx.Charts F o P [] N (fun o => (cx.asking o).lub s t) fun _ => True := by
  have within : ∀ (n : Nat) (s t : Ty) (P : Prop),
      cx.Charts F o P [] N (fun o => (cx.asking o).lubWithin n s t) fun _ => True := by
    intro n
    induction n with
    | zero => exact fun _ _ _ => ⟨.endless, fun _ _ _ => nofun, fun _ _ _ _ => nofun⟩
    | succ n ih =>
      intro s t P
      simp only [Resolver.lubWithin]
      refine bind (X := []) (isSubtype guides typed s t) fun _ =>
        branch (fun _ => done _) fun _ => ?_
      refine bind (X := []) (isSubtype guides typed t s) fun _ =>
        branch (fun _ => done _) fun _ => ?_
      refine bind (X := []) (widen guides s) fun s' => bind (X := []) (widen guides t) fun t' => ?_
      exact branch (fun _ => done _) fun _ => ih s' t' _
  exact within (cx.symbols.size + 2 + 1) s t P

theorem checkAssignable (s t : Ty) (span : Span) :
    cx.Charts F o P [] N (fun o => (cx.asking o).checkAssignable s t span) fun _ => True := by
  refine bind (X := []) (isSubtype guides typed s t) fun b => ?_
  cases b with
  | true => exact done _
  | false => exact (report span rfl).never

/-! ### Overloads -/

theorem allSubtypes : ∀ (ss ts : List Ty) (P : Prop),
    cx.Charts F o P [] N (fun o => (cx.asking o).allSubtypes ss ts) fun b =>
      b = false → ∃ p ∈ ss.zip ts, cx.Ranks F p.1 p.2 false
  | s :: ss, t :: ts, P => by
    simp only [Resolver.allSubtypes]
    refine bind (X := []) (isSubtype guides typed s t) fun b => branch (fun _ => ?_) fun no => ?_
    · refine (allSubtypes ss ts _).weaken id fun b' _ holds fails => ?_
      obtain ⟨p, member, tells⟩ := holds fails
      exact ⟨p, List.mem_cons_of_mem _ member, tells⟩
    · obtain rfl := (Bool.not_eq_true b).mp no
      exact pure fun told _ => ⟨(s, t), List.mem_cons_self, told.2⟩
  | [], _, _ => pure fun _ => nofun
  | _ :: _, [], _ => pure fun _ => nofun

theorem reportArgument : ∀ (spans : List Span) (ss ts : List Ty) (P : Prop),
    (P → ss.length ≤ spans.length) →
      cx.Charts F o P [] N (fun o => (cx.asking o).reportArgument spans ss ts) fun _ =>
        ∀ p ∈ ss.zip ts, cx.Ranks F p.1 p.2 true
  | span :: spans, s :: ss, t :: ts, P, fits => by
    simp only [Resolver.reportArgument]
    refine bind (X := []) (isSubtype guides typed s t) fun b => branch (fun yes => ?_) fun _ =>
      (report span rfl).never
    subst yes
    have others := reportArgument spans ss ts _ fun given : P ∧ cx.Ranks F s t true =>
      Nat.le_of_succ_le_succ (fits given.1)
    exact others.weaken id fun _ told rest => List.forall_mem_cons.mpr ⟨told.2, rest⟩
  | [], [], _, _, _ => pure fun _ => by simp
  | [], _ :: _, _, _, fits => pure fun given => absurd (fits given) (Nat.not_succ_le_zero _)
  | _ :: _, [], _, _, _ => pure fun _ => by simp
  | _ :: _, _ :: _, [], _, _ => pure fun _ => by simp

theorem reportNoMatch (call : Call) (sigs : List Signature) {args : List Ty}
    (fits : P → args.length = call.args.length) :
    cx.Charts F o P [] N (fun o => (cx.asking o).reportNoMatch call sigs args) fun _ =>
      ∃ only, sigs = [only] ∧ only.params.length = call.args.length ∧
        ∀ p ∈ args.zip only.params, cx.Ranks F p.1 p.2 true := by
  rcases sigs with _ | ⟨only, _ | ⟨next, sigs⟩⟩
  · exact (report call.span rfl).never
  · refine branch (fun _ => (report call.span rfl).never) fun same => ?_
    exact (reportArgument guides typed call.args args only.params P
      fun given => Nat.le_of_eq (fits given)).weaken id
        fun _ _ told => ⟨only, rfl, not_not.mp same, told⟩
  · exact (report call.span rfl).never

theorem isMostSpecific (sig : Signature) (others : List Signature) :
    cx.Charts F o P [] N (fun o => (cx.asking o).isMostSpecific sig others) fun _ => True := by
  simp only [Resolver.isMostSpecific]
  exact allM (fun other => branch (fun _ => done _) fun _ =>
    (allSubtypes guides typed sig.params other.params P).any) others

/-- An accepted call whose arguments have types is resolved. -/
theorem selectOverload (call : Call) (sigs : List Signature) {args : List Ty}
    (sane : P → args.any Ty.isError = false) (fits : P → args.length = call.args.length) :
    cx.Charts F o P [] N (fun o => (cx.asking o).selectOverload call sigs args)
      fun found => found.isSome = true := by
  simp only [Resolver.selectOverload]
  refine branch (fun wrong => pure fun given => ?_) fun _ => bind (X := [])
    (filterM (fun sig : Signature => allSubtypes guides typed args sig.params P) _)
      fun applicable => ?_
  · cases wrong.symm.trans (sane given)
  rcases applicable with _ | ⟨only, _ | ⟨next, rest⟩⟩
  · refine bind (X := []) (reportNoMatch guides typed call sigs fun given => fits given.1)
      fun _ => pure ?_
    rintro ⟨⟨_, refused⟩, only, rfl, arity, told⟩
    obtain ⟨p, member, no⟩ := (refused only (by simp [arity])).resolve_left List.not_mem_nil rfl
    exact ((told p member).consistent no).elim
  · exact pure fun _ => rfl
  · refine bind (X := []) (filterM (fun sig => isMostSpecific guides typed sig _) _) fun best => ?_
    rcases best with _ | ⟨best, _ | ⟨second, rest⟩⟩
    · exact reject call.span rfl none
    · exact pure fun _ => rfl
    · exact reject call.span rfl none

end

/-! ### Single expressions -/

theorem typeOfName (x : Ident Mark) (expected : Option Ty) :
    cx.Charts F o P [] N (fun o => (cx.asking o).typeOfName x expected) fun _ => True := by
  simp only [Resolver.typeOfName, cx.asking_toContext]
  cases cx.symbolAt? x.mark.id with
  | none => exact done _
  | some s =>
    refine branch (fun _ => reject _ rfl _) fun _ =>
      bind (X := []) (ask guides (q := .typeOf s) trivial) fun declared => ?_
    exact branch (fun _ => done _) fun _ => done _

omit guides in
theorem typeOfResult (folded : Option (Except OpError Literal)) (k : Kind) :
    cx.Charts F o P [] N (fun _ => Resolver.typeOfResult folded k) fun _ => True := by
  rcases folded with _ | _ | v
  · exact done _
  · exact done _
  · exact bind (X := []) (enters (Check.enterText_enters v) (.enterText v)) fun _ =>
      (enters (Check.enterType_enters _) (.enterType _)).any

theorem typeOfUnary (span : Span) (op : UnaryOp) (t : Ty) :
    cx.Charts F o P [] N (fun o => (cx.asking o).typeOfUnary span op t) fun _ => True := by
  refine branch (fun _ => done _) fun _ =>
    bind (X := []) (baseKind guides t) fun k => ?_
  cases op.resultKind k with
  | none => exact reject span rfl _
  | some j => exact typeOfResult _ j

theorem typeOfBinary (span : Span) (op : BinOp) (s t : Ty) :
    cx.Charts F o P [] N (fun o => (cx.asking o).typeOfBinary span op s t) fun _ => True := by
  refine branch (fun _ => done _) fun _ => bind (X := []) (baseKind guides s) fun j =>
    bind (X := []) (baseKind guides t) fun k => ?_
  cases op.resultKind j k with
  | none => exact reject span rfl _
  | some i =>
    cases s with
    | literal v =>
      cases t with
      | literal w => exact typeOfResult _ i
      | _ => exact done _
    | _ => exact done _

/-! ### Type nodes -/

omit guides in
theorem isType_lt {s : SymbolId} (role : (cx.symbol s).role.isType = true) :
    s < cx.symbols.size := by
  by_contra large
  rw [BoundProgram.WellBound.symbol_of_large (Nat.not_lt.mp large)] at role
  cases role

theorem typeOfReference (m : Mark) (x : Ident Mark) :
    cx.Charts F o P [] N (fun o => (cx.asking o).typeOfReference m x) fun _ => True := by
  simp only [Resolver.typeOfReference, cx.asking_toContext]
  cases cx.targets.find? x.mark.id with
  | none => exact done _
  | some s =>
    refine branch (fun _ => done _) fun _ => branch (fun role => ?_) fun _ =>
      reject m.span rfl _
    exact (ask guides (q := .aliasTarget s x.mark.span) (isType_lt role)).any

omit guides in
/-- A singleton `x.type`, which may come up while the type of `x` is looked for. -/
theorem typeOfPath {m : Mark} {x : Ident Mark} (looked : .ty (.singleton m (.name x)) ∈ N)
    (node : .ty (.singleton m (.name x)) ∈ cx.program.nodes) :
    cx.Charts F o P [] N (fun o => (cx.asking o).typeOfPath x m.span) fun _ => True := by
  cases target : cx.symbolAt? x.mark.id with
  | none =>
    simp only [Resolver.typeOfPath, cx.asking_toContext, target]
    exact done _
  | some s =>
    have charts : cx.Charts F o P [] N (fun _ => cx.formPath m.span s) fun _ => True := by
      cases path : cx.stablePath s with
      | ok t =>
        simp only [formPath, path]
        exact (enters (Check.enterType_enters t) (.enterType t)).any
      | error p =>
        simp only [formPath, path]
        exact reject m.span (stablePath_error path) _
    refine ⟨(Lawful.thorough cx).anywhere.typeOfPath x (Mark.exists_span _), fun c t c' run => ?_,
      fun given c t c' run accepted gs course => ?_⟩
    · rw [typeOfPath_eq m.span target] at run
      split at run
      · cases run
        exact { Checker.Grows.refl c with diagnostics := fun _ => Array.mem_push_of_mem _ }
      · exact charts.grows c t c' run
    · rw [typeOfPath_eq m.span target] at run
      split at run
      · cases run
        exact (accepted.not_error rfl Array.mem_push_self).elim
      · obtain ⟨ls, advances, replays, _⟩ := charts.leads given c t c' run accepted gs course
        refine ⟨ls, advances, fun o' T supplies D W c₁ concurs unreached => ?_, trivial⟩
        by_cases pursued : c₁.pursuits.any (·.goal = .typeOf s) = true
        · obtain ⟨p, member, goal⟩ := List.any_eq_true.mp pursued
          refine .inr ⟨s, .inl ⟨⟨m, x, looked, target⟩, .inl ?_⟩, fun y c₂ ended => ?_⟩
          · exact List.mem_map.mpr ⟨p, member, of_decide_eq_true goal⟩
          · rw [typeOfPath_eq m.span target, if_pos pursued] at ended
            cases ended
            exact ⟨m, x, node, target, Array.mem_push_self⟩
        · refine (replays o' T supplies D W c₁ concurs unreached).congr fun o'' => ?_
          rw [typeOfPath_eq m.span target, if_neg pursued]

omit guides in
theorem typeOfOperand {m : Mark} {e : Expr Mark} (looked : .ty (.singleton m e) ∈ N)
    (node : .ty (.singleton m e) ∈ cx.program.nodes) :
    cx.Charts F o P [] N (fun o => (cx.asking o).typeOfOperand m e) fun _ => True := by
  cases e with
  | lit l =>
    exact (enters (Check.enterType_enters (.literal l.value)) (.enterType (.literal l.value))).any
  | name x => exact typeOfPath looked node
  | _ => exact reject _ rfl _

omit guides in
theorem typeOfLiteral (m : Mark) (v : Literal) (dot : Bool) :
    cx.Charts F o P [] N (fun o => (cx.asking o).typeOfLiteral m v dot) fun _ => True := by
  simp only [Resolver.typeOfLiteral, cx.asking_toContext]
  have enter : ∀ P, cx.Charts F o P [] N (fun _ => Check.enterType (.literal v)) fun _ => True :=
    fun _ => (enters (Check.enterType_enters _) (.enterType _)).any
  exact branch (fun _ => bind (X := []) (report m.span rfl) fun _ => enter _) fun _ => enter _

section
variable (ground : cx.Grounded)
  (typed : ∀ x u, F.symbolTypes.find? x = some u → cx.Typable x)
include ground typed

theorem typeOfNode {L : List (Node Mark)} : ∀ {node : TyNode Mark}, cx.At L (.ty node) →
    cx.Charts F o P [] node.nodes (fun o => (cx.asking o).typeOfNode node)
      fun t => F.nodeTypes.find? node.mark.id = some t
  | .refer m x, place => once ground typed place rfl (typeOfReference guides m x) fun _ _ => rfl
  | .singleton _ _, place => once ground typed place rfl
    (typeOfOperand ((Node.below_suffix _).subset List.mem_cons_self) place.node) fun _ _ => rfl
  | .lit m l dot, place => once ground typed place rfl (typeOfLiteral m l.value dot) fun _ _ => rfl
  | .paren _ _, place => once ground typed place rfl
    ((typeOfNode (place.part List.mem_cons_self)).any.wider (List.subset_append_left _ _))
    fun _ _ => rfl

/-- The value of an inhabitant expression is recorded if its type has no problem. -/
theorem typeOfInhabitant {m : Mark} {node : TyNode Mark} {L : List (Node Mark)}
    (place : cx.At L (.ty node)) (sane : ∀ t, F.nodeTypes.find? node.mark.id = some t →
      t.isError = false) :
    cx.Charts F o P [.witness m.id] node.nodes (fun o => (cx.asking o).typeOfInhabitant m node)
      fun _ => True := by
  simp only [typeOfInhabitant_eq]
  refine bind (X := []) (typeOfNode guides ground typed place) fun t => branch (fun wrong => ?_)
    fun _ => ?_
  · refine (pure (P := True) (Q := fun _ => True) fun _ => trivial).vacuous fun given => ?_
    cases wrong.symm.trans (sane t given.2)
  · refine (valueWithin guides _ t).charts (fun v => ?_) ?_
    · exact bind (Y := []) (recordWitness t v) fun _ => done _
    · exact ⟨_, _, _, cx.unfit_error t, rfl⟩

theorem checkPat (scrutinee : Ty) {q : Pat Mark} {L : List (Node Mark)}
    (place : cx.At L (.pat q)) :
    cx.Charts F o P (if q.isRecorded then [.pattern q.mark.id] else []) q.nodes
      (fun o => (cx.asking o).checkPat scrutinee q) fun _ => True := by
  have check : ∀ t P, cx.Charts F o P [.pattern q.mark.id] q.nodes
      (fun o => Resolver.checkPat.check (cx.asking o) scrutinee q.mark t) fun _ => True := by
    intro t P
    refine bind (Y := []) (recordType ground place) fun _ => branch (fun _ => done _)
      fun _ => ?_
    refine bind (X := []) (isSubtype guides typed t scrutinee) fun _ =>
      branch (fun _ => done _) fun _ => ?_
    refine bind (X := []) (isSubtype guides typed scrutinee t) fun _ =>
      branch (fun _ => done _) fun _ => (report _ rfl).never
  cases q with
  | wildcard m => exact done _
  | lit m l =>
    exact bind (X := []) (enters (Check.enterType_enters _) (.enterType _)) fun t => check t _
  | typed m node =>
    refine bind (X := []) ((typeOfNode guides ground typed (place.part List.mem_cons_self)).wider
      (List.subset_append_left _ _)) fun t => check t _

omit typed in
/-- The signatures of the overloads are those that are found. -/
theorem signaturesOf (x : SymbolId) :
    cx.Charts F o P [] N (fun o => (cx.asking o).signaturesOf x) (· = cx.overloads F x) := by
  simp only [Resolver.signaturesOf, cx.asking_toContext]
  refine (mapM fun d member => (ask guides (q := .signature d)
    (ground.decl x (.fn d) (Decl.mem_fns.mp member))).weaken id ?_).weaken
      id fun _ _ => cx.overloads_of_found
  exact fun sig _ met => met.choose_spec.2

omit typed in
theorem typeOfParam {q : Param Mark} (node : .param q ∈ cx.program.nodes) :
    cx.Charts F o P [] N (fun o => (cx.asking o).typeOfParam q) fun _ => True := by
  obtain ⟨x, declares⟩ := ground.param q node
  have target : cx.targets.find? q.mark.id = some x := declares.find?
  simp only [Resolver.typeOfParam, cx.asking_toContext, target]
  exact (ask guides (q := .typeOf x) trivial).any

end

end Charts

end Context

end

end Solo

import Solo.Proofs.Folding
import Solo.Proofs.Runs

/-!
# Types are preserved

Every value of a run is one of the type that the checker recorded, and every frame holds values of
the declared types only. Where a value was known before the run, it is that value.
-/

namespace Solo

section
variable (p : BoundProgram) (F : Checker)

/-- A value that a binding may hold. -/
structure Slot (x : SymbolId) (v : Literal) : Prop where
  fits : ∃ t, F.symbolTypes.find? x = some t ∧ Fits p F v t
  known : ∀ w, Holds p F x w → v = w

/-- All frames hold only what their bindings may hold. -/
def FramesFit (frames : List Frame) : Prop :=
  ∀ f ∈ frames, ∀ x v, f.find? x = some v → Slot p F x v

end

/-- A plan for a certified program, whose folded values have reasons. -/
structure Ready (q : Plan) (F : Checker) (P : Table NodeId Purity) : Prop where
  cert : Certified q.toBoundProgram F
  like : F.Like q.checker
  folds : FoldsRight q.toContext F P q.folds

/-! ### Frames -/

section
variable {p : BoundProgram} {F : Checker} {x : SymbolId} {v : Literal} {frames : List Frame}

/-- A value of a binding's type, which is that of a constant initializer, may be held. -/
theorem Slot.ofFits {t : Ty} (declared : F.symbolTypes.find? x = some t) (fits : Fits p F v t)
    (init : ∀ d, (p.symbol x).role.isStable = true → (p.symbol x).decls.head? = some (.val d) →
      ∀ w, Constant p F d.init w → v = w) : Slot p F x v := by
  refine ⟨⟨t, declared, fits⟩, ?_⟩
  intro w held
  cases held with
  | literal declared' =>
    cases declared.symm.trans declared'
    exact fits.eq_literal
  | path declared' next =>
    cases declared.symm.trans declared'
    exact fits.2 _ w rfl next
  | init _ stable decl constant => exact init _ stable decl w constant

theorem FramesFit.nil : FramesFit p F [] := nofun

theorem FramesFit.cons {f : Frame} (own : ∀ x v, f.find? x = some v → Slot p F x v)
    (outer : FramesFit p F frames) : FramesFit p F (f :: frames) := by
  intro g member
  rcases List.mem_cons.mp member with rfl | later
  · exact own
  · exact outer g later

theorem FramesFit.tail (fit : FramesFit p F frames) : FramesFit p F frames.tail :=
  fun f member => fit f (List.mem_of_mem_tail member)

theorem FramesFit.look (fit : FramesFit p F frames) (found : lookFrames x frames = some v) :
    Slot p F x v := by
  induction frames with
  | nil => cases found
  | cons f frames ih =>
    rw [lookFrames, Option.or_eq_some_iff] at found
    rcases found with here | ⟨_, outer⟩
    · exact fit f List.mem_cons_self x v here
    · exact ih (fun g member => fit g (List.mem_cons_of_mem f member)) outer

theorem slot_insert {f : Frame} (own : ∀ x v, f.find? x = some v → Slot p F x v)
    (slot : Slot p F x v) : ∀ y w, (f.insert x v).find? y = some w → Slot p F y w := by
  intro y w found
  rw [Table.find?_insert] at found
  split at found
  · next same =>
    subst same
    cases found
    exact slot
  · exact own y w found

theorem FramesFit.write {frames' : List Frame} (fit : FramesFit p F frames) (slot : Slot p F x v)
    (written : writeFrames x v frames = some frames') : FramesFit p F frames' := by
  induction frames generalizing frames' with
  | nil => cases written
  | cons f frames ih =>
    have own := fit f List.mem_cons_self
    have outer : FramesFit p F frames := fun g member => fit g (List.mem_cons_of_mem f member)
    rw [writeFrames] at written
    split at written
    · cases written
      exact .cons (slot_insert own slot) outer
    · obtain ⟨rest, inner, rfl⟩ := Option.map_eq_some_iff.mp written
      exact .cons own (ih outer inner)

end

namespace Ready

variable {q : Plan} {F : Checker} {P : Table NodeId Purity}

/-- The states in which all frames hold what they may hold. -/
def Fit (q : Plan) (F : Checker) (s : Machine) : Prop := FramesFit q.toBoundProgram F s.frames

theorem lookup (q : Plan) (F : Checker) (x : SymbolId) :
    Eval.Keeps (Fit q F) (q.lookup x) (Slot q.toBoundProgram F x) := by
  intro s fit
  rw [q.lookup_apply]
  cases found : lookFrames x s.frames with
  | none => exact ⟨fit, nofun⟩
  | some v =>
    refine ⟨fit, fun w same => ?_⟩
    cases same
    exact FramesFit.look fit found

theorem declare {x : SymbolId} {v : Literal} (slot : Slot q.toBoundProgram F x v) :
    Eval.Keeps (Fit q F) (Eval.declare x v) fun _ => True := by
  refine Eval.Keeps.modify fun s fit => ?_
  cases known : s.frames with
  | nil => exact fit
  | cons f outer =>
    unfold Fit at fit
    rw [known] at fit
    exact .cons (slot_insert (fit f List.mem_cons_self) slot)
      fun g member => fit g (List.mem_cons_of_mem f member)

theorem apply (symbol : String) (result : Except OpError Literal) :
    Eval.Keeps (Fit q F) (Eval.apply symbol result) fun v => result = .ok v := by
  cases result with
  | error e => cases e <;> exact .throw _
  | ok v =>
    cases v with
    | str s => exact .bind (.modify fun _ fit => fit) fun _ _ => .pure rfl
    | _ => exact .pure rfl

theorem inFrame {frame : Frame} {action : Eval Literal} {Q : Literal → Prop}
    (own : ∀ x v, frame.find? x = some v → Slot q.toBoundProgram F x v)
    (keeps : Eval.Keeps (Fit q F) action Q) : Eval.Keeps (Fit q F) (Eval.inFrame frame action) Q := by
  intro s fit
  obtain ⟨inner, holds⟩ := keeps { s with frames := frame :: s.frames } (.cons own fit)
  exact ⟨inner.tail, holds⟩

theorem paramSlot (cert : Certified q.toBoundProgram F) {a : Param Mark}
    (node : .param a ∈ q.program.nodes) {t : Ty} (typed : ParamTyped q.toBoundProgram F a t)
    {v : Literal} (fits : Fits q.toBoundProgram F v t) :
    ∃ x, q.symbolAt? a.mark.id = some x ∧ Slot q.toBoundProgram F x v := by
  obtain ⟨_, x, target, declared⟩ := typed
  refine ⟨x, target, .ofFits declared fits fun d _ head => ?_⟩
  obtain ⟨x', declares⟩ := cert.bound.named _ node
  cases declares.target.symm.trans target
  cases (declares.head nofun).symm.trans head

theorem frameOf (cert : Certified q.toBoundProgram F) {d : FnDecl Mark} {vs : List Literal}
    {ts : List Ty} (node : .stmt (.fn d) ∈ q.program.nodes)
    (typed : List.Forall₂ (ParamTyped q.toBoundProgram F) d.params ts)
    (args : List.Forall₂ (Fits q.toBoundProgram F) vs ts) :
    ∀ x v, (q.frameOf d vs).find? x = some v → Slot q.toBoundProgram F x v := by
  have each : ∀ a ∈ d.params, .param a ∈ q.program.nodes := fun a => Program.param_of_fn node
  unfold Plan.frameOf
  generalize d.params = params at typed each
  have start : ∀ x v, (Table.empty : Frame).find? x = some v → Slot q.toBoundProgram F x v := nofun
  generalize (Table.empty : Frame) = frame at start
  induction typed generalizing vs frame with
  | nil => exact start
  | @cons a t params ts head _ ih =>
    cases args with
    | @cons v _ vs _ fits rest =>
      obtain ⟨x, target, slot⟩ := paramSlot cert (each a List.mem_cons_self) head fits
      refine ih rest (fun b member => each b (List.mem_cons_of_mem a member)) _ ?_
      dsimp only
      rw [target]
      exact slot_insert start slot

theorem forall₂_below {p : BoundProgram} {vs : List Literal} {ss ts : List Ty}
    (fit : List.Forall₂ (Fits p F) vs ss) (below : List.Forall₂ (Below p F) ss ts) :
    List.Forall₂ (Fits p F) vs ts := by
  induction fit generalizing ts with
  | nil =>
    cases below
    exact .nil
  | cons fits _ ih =>
    cases below with
    | cons under rest => exact .cons (under _ fits) (ih rest)

/-! ### Trees -/

/-- The body of a function has values of its result type, given arguments of its parameter types. -/
def Bodies (q : Plan) (F : Checker) (body : FnDecl Mark → List Literal → Eval Literal) : Prop :=
  ∀ d sig vs, .stmt (.fn d) ∈ q.program.nodes → F.signatures.find? d.mark.id = some sig →
    List.Forall₂ (Fits q.toBoundProgram F) vs sig.params →
    Eval.Keeps (Fit q F) (body d vs) fun v => Fits q.toBoundProgram F v sig.result

/-- The values that an expression of a type may have. -/
def Gives (q : Plan) (F : Checker) (e : Expr Mark) (t : Ty) (v : Literal) : Prop :=
  Fits q.toBoundProgram F v t ∧ ∀ w, Constant q.toBoundProgram F e w → v = w

theorem read {x : Ident Mark} {t : Ty} (typed : (Expr.name x).Typed q.toBoundProgram F t) :
    Eval.Keeps (Fit q F) (q.read x) (Gives q F (.name x) t) := by
  obtain ⟨_, s, u, target, declared, kind⟩ := typed
  unfold Plan.read
  rw [target]
  refine (lookup q F s).weaken fun v slot => ?_
  obtain ⟨u', declared', fits⟩ := slot.fits
  cases declared.symm.trans declared'
  refine ⟨?_, ?_⟩
  · rcases kind with rfl | rfl
    · exact fits
    · refine ⟨.path declared fits.1, ?_⟩
      rintro y w ⟨⟩ held
      exact slot.known w held
  · intro w constant
    cases constant with
    | name target' held =>
      cases target.symm.trans target'
      exact slot.known w held

theorem write {x : Ident Mark} {v : Literal} {s : SymbolId} (target : q.symbolAt? x.mark.id = some s)
    (slot : Slot q.toBoundProgram F s v) : Eval.Keeps (Fit q F) (q.write x v) fun _ => True := by
  intro m fit
  rw [Plan.write_apply target]
  cases written : writeFrames s v m.frames with
  | none => exact ⟨fit, nofun⟩
  | some frames => exact ⟨FramesFit.write fit slot written, fun _ _ => trivial⟩

theorem matchesPat (v : Literal) (a : Pat Mark) :
    Eval.Keeps (Fit q F) (q.matchesPat v a) fun _ => True := by
  cases a with
  | wildcard m => exact .pure trivial
  | lit m l => exact .pure trivial
  | typed m node =>
    rw [Plan.matchesPat]
    split
    · next t _ =>
      cases t with
      | literal w => exact .pure trivial
      | path x => exact (lookup q F x).bind fun _ _ => .pure trivial
      | intrinsic k => cases k <;> exact .pure trivial
    · exact .throw _

section
variable (ready : Ready q F P)
include ready

/-- What an expression was folded to is a value that it may have. -/
theorem folded {e : Expr Mark} {t : Ty} {v : Literal} (node : .expr e ∈ q.program.nodes)
    (typed : e.Typed q.toBoundProgram F t) (found : q.folds.find? e.id = some v) :
    Gives q F e t v := by
  obtain ⟨⟨owner, e'⟩, inside, same, reason⟩ := ready.folds _ _ found
  cases ready.cert.bound.node_unique (Program.node_of_place inside) node same
  cases e' with
  | inhabitant m ty =>
    obtain ⟨w, witness, rfl⟩ := reason
    obtain ⟨_, _, w', witness', sole⟩ := typed
    cases witness.symm.trans witness'
    exact ⟨sole.fits ready.cert, nofun⟩
  | call m f args =>
    obtain ⟨_, sig, found, sole, _⟩ := reason
    obtain ⟨⟨x, target, role, _⟩, _⟩ := ready.cert.callee node found
    obtain ⟨_, x', types, target', _, builtin | ⟨_, sig', found', _, _, rfl⟩⟩ := typed
    · cases target.symm.trans target'
      cases role.symm.trans builtin.1
    · cases found.symm.trans found'
      exact ⟨sole.fits ready.cert, nofun⟩
  | _ => exact reason.elim

theorem unlessFolded {e : Expr Mark} {t : Ty} {find : Eval Literal}
    (node : .expr e ∈ q.program.nodes) (typed : e.Typed q.toBoundProgram F t)
    (keeps : Eval.Keeps (Fit q F) find (Gives q F e t)) :
    Eval.Keeps (Fit q F) (q.unlessFolded e.id find) (Gives q F e t) := by
  unfold Plan.unlessFolded
  split
  · next v found => exact .pure (ready.folded node typed found)
  · exact keeps

variable {body : FnDecl Mark → List Literal → Eval Literal} (bodies : Bodies q F body)
include bodies

theorem applyCall {m : Mark} {f : Ident Mark} {args : List (Expr Mark)} {t : Ty} {types : List Ty}
    {vs : List Literal} {x : SymbolId} (node : .expr (.call m f args) ∈ q.program.nodes)
    (target : q.symbolAt? f.mark.id = some x)
    (resolved : (q.symbol x).role = .builtin ∧ args.length = 1 ∧ t = .intrinsic .unit ∨
      (q.symbol x).role = .function ∧ ∃ sig, F.signatures.find? m.id = some sig ∧
        Offers q.toBoundProgram F x sig ∧
        List.Forall₂ (Below q.toBoundProgram F) types sig.params ∧ t = sig.result)
    (fit : List.Forall₂ (Fits q.toBoundProgram F) vs types) :
    Eval.Keeps (Fit q F) (q.applyCall body m f vs) fun v => Fits q.toBoundProgram F v t := by
  unfold Plan.applyCall
  rw [target]
  rcases resolved with ⟨role, _, rfl⟩ | ⟨role, sig, found, offers, below, rfl⟩
  · rw [if_pos (by simp [role])]
    exact .bind (.modify fun _ fit => fit) fun _ _ => .pure (fits_kind rfl)
  · rw [if_neg (by simp [role]), ready.like.signatures, found]
    refine bodies sig.decl sig vs (ready.cert.callee node found).2 offers.known ?_
    exact forall₂_below fit below

set_option linter.unusedSectionVars false

mutual
theorem evalExpr : ∀ (e : Expr Mark) {t : Ty}, e.nodes ⊆ q.program.nodes →
    e.Typed q.toBoundProgram F t → Eval.Keeps (Fit q F) (q.evalExpr body e) (Gives q F e t)
  | .lit l, t, inside, typed => by
    refine ready.unlessFolded (e := .lit l) (inside (Expr.mem_nodes _)) typed (.pure ?_)
    obtain ⟨_, rfl⟩ := typed
    refine ⟨fits_literal _, fun w constant => ?_⟩
    cases constant
    rfl
  | .name x, t, inside, typed =>
    ready.unlessFolded (e := .name x) (inside (Expr.mem_nodes _)) typed (read typed)
  | .paren m e, t, inside, typed => by
    refine ready.unlessFolded (e := .paren m e) (inside (Expr.mem_nodes _)) typed ?_
    refine (evalExpr e (Answers.below_left inside) typed.2).weaken fun v gives => ⟨gives.1, ?_⟩
    intro w constant
    cases constant with
    | paren inner => exact gives.2 w inner
  | .unary m op e, t, inside, typed => by
    refine ready.unlessFolded (e := .unary m op e) (inside (Expr.mem_nodes _)) typed ?_
    obtain ⟨_, s, k, j, inner, kind, result, found⟩ := typed
    refine (evalExpr e (Answers.below_left inside) inner).bind fun v gives => ?_
    refine (apply op.symbol (op.eval v)).weaken fun w value => ⟨?_, ?_⟩
    · rcases found with rfl | ⟨v', w', rfl, folded, rfl⟩
      · obtain ⟨w', value', admitted⟩ := UnaryOp.eval_ok (kind.may gives.1) result
        cases value.symm.trans value'
        exact fits_kind admitted
      · obtain rfl := gives.1.eq_literal
        cases value.symm.trans folded
        exact fits_literal _
    · intro u constant
      cases constant with
      | unary inner value' =>
        obtain rfl := gives.2 _ inner
        cases value.symm.trans value'
        rfl
  | .bin m op a b, t, inside, typed => by
    refine ready.unlessFolded (e := .bin m op a b) (inside (Expr.mem_nodes _)) typed ?_
    obtain ⟨_, s₁, s₂, k₁, k₂, j, left, right, kind₁, kind₂, result, found⟩ := typed
    refine (evalExpr a (Answers.below_left (Answers.below_left inside)) left).bind fun v gives₁ => ?_
    split
    · next short =>
      refine .pure ⟨?_, ?_⟩
      · rcases found with rfl | ⟨v', w', u, rfl, rfl, folded, rfl⟩
        · exact fits_kind (BinOp.admits_of_short short result)
        · obtain rfl := gives₁.1.eq_literal
          obtain rfl := BinOp.eval_of_short short folded
          exact fits_literal _
      · intro u constant
        cases constant with
        | bin left' right' value' =>
          obtain rfl := gives₁.2 _ left'
          exact (BinOp.eval_of_short short value').symm
    · refine (evalExpr b (Answers.below_right (Answers.below_left inside)) right).bind
        fun w gives₂ => ?_
      refine (apply op.symbol (op.eval v w)).weaken fun u value => ⟨?_, ?_⟩
      · rcases found with rfl | ⟨v', w', u', rfl, rfl, folded, rfl⟩
        · exact fits_kind
            (BinOp.eval_admits (kind₁.may gives₁.1) (kind₂.may gives₂.1) result value)
        · obtain rfl := gives₁.1.eq_literal
          obtain rfl := gives₂.1.eq_literal
          cases value.symm.trans folded
          exact fits_literal _
      · intro u' constant
        cases constant with
        | bin left' right' value' =>
          obtain rfl := gives₁.2 _ left'
          obtain rfl := gives₂.2 _ right'
          cases value.symm.trans value'
          rfl
  | .call m f args, t, inside, typed => by
    have node := inside (Expr.mem_nodes (.call m f args))
    refine ready.unlessFolded (e := .call m f args) node typed ?_
    obtain ⟨_, x, types, target, typed, resolved⟩ := typed
    refine (evalExprs args (List.cons_subset.mp (Answers.below_left inside)).2 typed).bind
      fun vs fit => ?_
    exact (ready.applyCall bodies node target resolved fit).weaken fun v fits => ⟨fits, nofun⟩
  | .block m ss tail, t, inside, typed => by
    refine ready.unlessFolded (e := .block m ss tail) (inside (Expr.mem_nodes _)) typed ?_
    obtain ⟨_, stmts, last⟩ := typed
    refine (evalStmts ss (Answers.below_left (Answers.below_left inside)) stmts).bind fun _ _ => ?_
    exact (evalTail tail (Answers.below_right (Answers.below_left inside)) last).weaken
      fun v fits => ⟨fits, nofun⟩
  | .assign m x e, t, inside, typed => by
    have node := inside (Expr.mem_nodes (.assign m x e))
    refine ready.unlessFolded (e := .assign m x e) node typed ?_
    obtain ⟨_, rfl, s, u, r, target, isVar, declared, inner, below⟩ := typed
    refine (evalExpr e (List.cons_subset.mp (Answers.below_left inside)).2 inner).bind
      fun v gives => ?_
    have slot : Slot q.toBoundProgram F s v := by
      refine .ofFits declared (below v gives.1) fun d stable => ?_
      have thawed := (ready.cert.bound.named _ node).2 s target
      revert isVar stable thawed
      cases (q.symbol s).role with
      | var frozen => cases frozen <;> simp [Role.isVar, Role.isStable]
      | _ => simp [Role.isVar]
    exact (write target slot).bind fun _ _ => .pure ⟨fits_kind rfl, nofun⟩
  | .cases m e arms, t, inside, typed => by
    refine ready.unlessFolded (e := .cases m e arms) (inside (Expr.mem_nodes _)) typed ?_
    obtain ⟨_, ⟨s, inner⟩, typed⟩ := typed
    refine (evalExpr e (Answers.below_left (Answers.below_left inside)) inner).bind fun v _ => ?_
    exact (evalArms v arms (Answers.below_right (Answers.below_left inside)) typed).weaken
      fun v fits => ⟨fits, nofun⟩
  | .inhabitant m node, t, inside, typed => by
    refine ready.unlessFolded (e := .inhabitant m node) (inside (Expr.mem_nodes _)) typed ?_
    obtain ⟨_, _, w, found, sole⟩ := typed
    rw [ready.like.witnesses, found]
    exact .pure ⟨sole.fits ready.cert, nofun⟩
  | .host m desc, t, inside, typed => by
    refine ready.unlessFolded (e := .host m desc) (inside (Expr.mem_nodes _)) typed (.pure ?_)
    obtain ⟨_, rfl⟩ := typed
    exact ⟨fits_kind rfl, nofun⟩

theorem evalExprs : ∀ (es : List (Expr Mark)) {ts : List Ty}, exprsNodes es ⊆ q.program.nodes →
    exprsTyped q.toBoundProgram F es ts →
    Eval.Keeps (Fit q F) (q.evalExprs body es) fun vs =>
      List.Forall₂ (Fits q.toBoundProgram F) vs ts
  | [], _, _, typed => by
    cases typed
    exact .pure .nil
  | e :: es, _, inside, typed => by
    obtain ⟨t, ts, rfl, first, rest⟩ := typed
    refine (evalExpr e (Answers.below_left inside) first).bind fun v gives => ?_
    exact (evalExprs es (Answers.below_right inside) rest).bind fun vs fit =>
      .pure (.cons gives.1 fit)

theorem evalTail : ∀ (tail : Option (Expr Mark)) {t : Ty}, tailNodes tail ⊆ q.program.nodes →
    tailTyped q.toBoundProgram F tail t →
    Eval.Keeps (Fit q F) (q.evalTail body tail) fun v => Fits q.toBoundProgram F v t
  | none, _, _, typed => by
    cases typed
    exact .pure (fits_kind rfl)
  | some e, _, inside, typed => (evalExpr e inside typed).weaken fun _ gives => gives.1

theorem evalArms (v : Literal) : ∀ (arms : List (Arm Mark)) {t : Ty},
    armsNodes arms ⊆ q.program.nodes → armsTyped q.toBoundProgram F arms t →
    Eval.Keeps (Fit q F) (q.evalArms body v arms) fun w => Fits q.toBoundProgram F w t
  | [], _, _, _ => .throw _
  | ⟨m, a, e⟩ :: arms, t, inside, typed => by
    obtain ⟨_, ⟨s, first, below⟩, rest⟩ := typed
    refine (matchesPat v a).bind fun matched _ => ?_
    split
    · refine (evalExpr e ?_ first).weaken fun w gives => below w gives.1
      exact Answers.below_right (Answers.below_left (Answers.below_left inside))
    · exact evalArms v arms (Answers.below_right inside) rest

theorem evalStmt : ∀ s : Stmt Mark, s.nodes ⊆ q.program.nodes → s.Typed q.toBoundProgram F →
    Eval.Keeps (Fit q F) (q.evalStmt body s) fun _ => True
  | .val ⟨m, kind, x, ty, e⟩, inside, typed => by
    have node := inside (Stmt.mem_nodes (.val ⟨m, kind, x, ty, e⟩))
    obtain ⟨_, s, u, r, target, declared, inner, below⟩ := typed
    refine (evalExpr e (Answers.below_right (Answers.below_left inside)) inner).bind
      fun v gives => ?_
    rw [target]
    refine declare (.ofFits declared (below v gives.1) fun d stable head => ?_)
    obtain ⟨s', declares⟩ := ready.cert.bound.named _ node _ rfl
    cases declares.target.symm.trans target
    cases (declares.head nofun).symm.trans head
    exact gives.2
  | .expr _ e, inside, typed => by
    obtain ⟨t, inner⟩ := typed
    exact (evalExpr e (Answers.below_left inside) inner).bind fun _ _ => .pure trivial
  | .typeAlias _, _, _ => .pure trivial
  | .fn _, _, _ => .pure trivial

theorem evalStmts : ∀ ss : List (Stmt Mark), stmtsNodes ss ⊆ q.program.nodes →
    stmtsTyped q.toBoundProgram F ss → Eval.Keeps (Fit q F) (q.evalStmts body ss) fun _ => True
  | [], _, _ => .pure trivial
  | s :: ss, inside, typed =>
    (evalStmt s (Answers.below_left inside) typed.1).bind fun _ _ =>
      evalStmts ss (Answers.below_right inside) typed.2
end

end

theorem bodies (ready : Ready q F P) (n : Nat) : Bodies q F (q.call n) := by
  induction n with
  | zero => exact fun _ _ _ _ _ _ => .throw _
  | succ n ih =>
    intro d sig vs node found fit
    obtain ⟨sig', s, found', rfl, params, typed, below⟩ := ready.cert.fn node
    cases found.symm.trans found'
    refine inFrame (frameOf ready.cert node params fit) ?_
    exact (ready.evalExpr ih sig.decl.body (Program.body_of_fn node) typed).weaken
      fun v gives => below v gives.1

end Ready

end Solo

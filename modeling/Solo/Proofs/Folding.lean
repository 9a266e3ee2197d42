import Solo.Folding
import Solo.Proofs.Places
import Solo.Proofs.Purity

/-!
# What folding finds

Folding ends without a fault. Each value it finds is that of an inhabitant expression, or the only
value of the result type of a call that was judged pure.
-/

namespace Solo

section
variable (cx : Context) (F : Checker) (P : Table NodeId Purity)

/-- A reason to fold a place to a value. -/
def Place.Folded (place : Place) (v : Literal) : Prop :=
  match place.expr with
  | .inhabitant m _ => ∃ w, F.witnesses.find? m.id = some w ∧ w.value = v
  | .call m f args =>
    cx.options.foldSingletonCalls = true ∧
      ∃ sig, F.signatures.find? m.id = some sig ∧ Sole cx.toBoundProgram F sig.result v ∧
        (Expr.call m f args).Pure cx.toBoundProgram F P place.owner fun _ => False
  | _ => False

/-- Every folded value has a reason. -/
def FoldsRight (values : Table NodeId Literal) : Prop :=
  ∀ i v, values.find? i = some v → ∃ place ∈ cx.program.places, place.expr.id = i ∧
    place.Folded cx F P v

end

section
variable (cx : Context) (F : Checker)

/-- A question that is answered without a fault. Verdicts may be added. -/
def Settling {α : Type} (a : Check α) (Q : Table NodeId Purity → α → Prop) : Prop :=
  ∀ c, F.Like c → ∃ x c', a c = .ok (x, c') ∧ Judged cx.toBoundProgram F c c' ∧
    ∀ P, Verdicts c'.purities P → Q P x

/-- Folding that ends without a fault and adds values for a reason only. -/
def Folds {α : Type} (a : Fold α) : Prop :=
  ∀ f c, F.Like c → ∃ x f' c', a f c = .ok ((x, f'), c') ∧ Judged cx.toBoundProgram F c c' ∧
    ∀ P, Verdicts c'.purities P → FoldsRight cx F P f.values → FoldsRight cx F P f'.values

end

namespace Settling

variable {cx : Context} {F : Checker} {α β : Type} {a : Check α}
  {Q Q' : Table NodeId Purity → α → Prop} {R : Table NodeId Purity → β → Prop}

theorem pure {x : α} (holds : ∀ P, Q P x) : Settling cx F (Pure.pure x) Q :=
  fun c like => ⟨x, c, rfl, .refl like, fun P _ => holds P⟩

theorem bind {f : α → Check β} (first : Settling cx F a Q)
    (rest : ∀ x, Settling cx F (f x) fun P y => Q P x → R P y) : Settling cx F (a >>= f) R := by
  intro c like
  obtain ⟨x, c₁, run₁, judged₁, holds₁⟩ := first c like
  obtain ⟨y, c₂, run₂, judged₂, holds₂⟩ := rest x c₁ judged₁.like
  refine ⟨y, c₂, (Check.bind_eq run₁).trans run₂, judged₁.trans judged₂, fun P verdicts => ?_⟩
  exact holds₂ P verdicts (holds₁ P (verdicts.ofWithin judged₂.within))

theorem weaken (settling : Settling cx F a Q) (gives : ∀ P x, Q P x → Q' P x) :
    Settling cx F a Q' := by
  intro c like
  obtain ⟨x, c₁, run, judged, holds⟩ := settling c like
  exact ⟨x, c₁, run, judged, fun P verdicts => gives P x (holds P verdicts)⟩

theorem ofSteady {Q : α → Prop} (steady : Steady F a Q) : Settling cx F a fun _ => Q := by
  intro c like
  obtain ⟨x, c₁, run, like₁, same, holds⟩ := steady c like
  refine ⟨x, c₁, run, ⟨like₁, ?_, ?_⟩, fun _ _ => holds⟩
  · rw [same]
    exact .refl _
  · intro P _ right d node reads
    rw [same]
    exact right d node reads

theorem allM {f : α → Check Bool} {xs : List α} (each : ∀ x ∈ xs, Settling cx F (f x) fun _ _ => True) :
    Settling cx F (xs.allM f) fun _ _ => True := by
  induction xs with
  | nil => exact pure fun _ => trivial
  | cons x xs ih =>
    refine (each x List.mem_cons_self).bind fun good => ?_
    cases good with
    | false => exact pure fun _ _ => trivial
    | true =>
      refine weaken (ih fun y member => each y (List.mem_cons_of_mem x member)) ?_
      exact fun _ _ _ _ => trivial

end Settling

theorem mem_exprsNodes : ∀ {es : List (Expr Mark)} {e : Expr Mark}, e ∈ es → e.nodes ⊆ exprsNodes es
  | _ :: es, _, member => by
    rcases List.mem_cons.mp member with rfl | later
    · exact List.subset_append_left _ _
    · exact List.Subset.trans (mem_exprsNodes later) (List.subset_append_right _ _)

section
variable {cx : Context} {F : Checker} (cert : Certified cx.toBoundProgram F)
  (sized : cx.program.nodes.length ≤ cx.nodeCount)
include cert sized

theorem callValue_settling (owner : Option (FnDecl Mark)) {m : Mark} {f : Ident Mark}
    {args : List (Expr Mark)} {sig : Signature}
    (inside : (Expr.call m f args).nodes ⊆ cx.program.nodes)
    (found : F.signatures.find? m.id = some sig) :
    Settling cx F (cx.resolver.callValue owner (.call m f args) args sig) fun P result =>
      ∀ v, result = .ok v → cx.options.foldSingletonCalls = true ∧
        Sole cx.toBoundProgram F sig.result v ∧
        (Expr.call m f args).Pure cx.toBoundProgram F P owner fun _ => False := by
  have pureArgs : ∀ e ∈ args, Settling cx F (cx.resolver.isPureWithin owner e) fun _ _ => True := by
    intro e member c like
    have below : e.nodes ⊆ cx.program.nodes := List.Subset.trans (mem_exprsNodes member)
      (List.cons_subset.mp (Answers.below_left inside)).2
    obtain ⟨good, c₁, run, judged, _⟩ := cert.isPureWithin sized owner below like
    exact ⟨good, c₁, run, judged, fun _ _ => trivial⟩
  obtain ⟨⟨x, _, _, _, signed⟩, node⟩ := cert.callee (inside (Expr.mem_nodes _)) found
  have pureBody : Settling cx F (cx.resolver.fnIsPure sig.decl) fun _ _ => True := by
    intro c like
    obtain ⟨good, c₁, run, judged, _⟩ :=
      cert.fnIsPure sig.decl node c like (Certified.unjudged_lt_nodeCount sized c)
    exact ⟨good, c₁, run, judged, fun _ _ => trivial⟩
  have pureCall : Settling cx F (cx.resolver.isPureWithin owner (.call m f args)) fun P good =>
      good = true → (Expr.call m f args).Pure cx.toBoundProgram F P owner fun _ => False :=
    fun c like => cert.isPureWithin sized owner inside like
  unfold Resolver.callValue
  split
  · exact .pure fun _ => nofun
  · next enabled =>
    have enabled : cx.options.foldSingletonCalls = true := by
      rw [Bool.not_eq_true', Bool.not_eq_false] at enabled
      exact enabled
    refine (Settling.ofSteady (cert.inhabitant signed.sane)).bind fun found => ?_
    split
    · exact .pure fun _ _ => nofun
    · next w =>
      refine (Settling.allM pureArgs).bind fun good => ?_
      split
      · exact .pure fun _ _ _ => nofun
      · refine pureBody.bind fun good => ?_
        split
        · exact .pure fun _ _ _ _ => nofun
        · refine pureCall.bind fun good => ?_
          split
          · exact .pure fun _ _ _ _ _ => nofun
          · next good =>
            refine .pure fun P pure _ _ sole v same => ?_
            cases same
            exact ⟨enabled, sole, pure (by simpa using good)⟩

end

/-! ### Trees -/

theorem Fold.bind_eq {α β : Type} {a : Fold α} {g : α → Fold β} {f f₁ : Folding} {c c₁ : Checker}
    {x : α} (run : a f c = .ok ((x, f₁), c₁)) : (a >>= g) f c = g x f₁ c₁ :=
  Check.bind_eq (f := fun r : α × Folding => g r.1 r.2) run

theorem Fold.lift_eq {α : Type} {a : Check α} {c c₁ : Checker} {x : α} (f : Folding)
    (run : a c = .ok (x, c₁)) : (liftM a : Fold α) f c = .ok ((x, f), c₁) := by
  change (a >>= fun x => Pure.pure (x, f)) c = _
  rw [Check.bind_eq run]
  rfl

namespace Folds

variable {cx : Context} {F : Checker} {α β : Type}

theorem pure (x : α) : Folds cx F (Pure.pure x : Fold α) :=
  fun f c like => ⟨x, f, c, rfl, .refl like, fun _ _ right => right⟩

theorem bind {a : Fold α} {g : α → Fold β} (first : Folds cx F a) (rest : ∀ x, Folds cx F (g x)) :
    Folds cx F (a >>= g) := by
  intro f c like
  obtain ⟨x, f₁, c₁, run₁, judged₁, right₁⟩ := first f c like
  obtain ⟨y, f₂, c₂, run₂, judged₂, right₂⟩ := rest x f₁ c₁ judged₁.like
  refine ⟨y, f₂, c₂, ?_, judged₁.trans judged₂, fun P verdicts right => ?_⟩
  · exact (Fold.bind_eq run₁).trans run₂
  · exact right₂ P verdicts (right₁ P (verdicts.ofWithin judged₂.within) right)

end Folds

theorem FoldsRight.insert {cx : Context} {F : Checker} {P : Table NodeId Purity}
    {values : Table NodeId Literal} (right : FoldsRight cx F P values) (place : Place) {v : Literal}
    (inside : place ∈ cx.program.places) (reason : place.Folded cx F P v) :
    FoldsRight cx F P (values.insert place.expr.id v) := by
  intro i w found
  rw [Table.find?_insert] at found
  split at found
  · next same =>
    cases found
    exact ⟨place, inside, same.symm, reason⟩
  · exact right i w found

section
variable {cx : Context} {F : Checker} (cert : Certified cx.toBoundProgram F)
  (sized : cx.program.nodes.length ≤ cx.nodeCount)
include cert sized

theorem foldCall_folds (owner : Option (FnDecl Mark)) {m : Mark} {f : Ident Mark}
    {args : List (Expr Mark)} (inside : (Expr.call m f args).nodes ⊆ cx.program.nodes)
    (place : ⟨owner, .call m f args⟩ ∈ cx.program.places) :
    Folds cx F (cx.resolver.foldCall owner m f args) := by
  intro f₀ c like
  rw [Resolver.foldCall, Check.getThe_bind, like.signatures]
  cases found : F.signatures.find? m.id with
  | none => exact Folds.pure false f₀ c like
  | some sig =>
    dsimp only
    split
    · exact Folds.pure false f₀ c like
    · obtain ⟨result, c₁, value, judged, holds⟩ := callValue_settling cert sized owner inside found c like
      have lifted := Fold.lift_eq f₀ value
      cases result with
      | error e => exact ⟨false, _, c₁, Fold.bind_eq lifted, judged, fun P _ right => right⟩
      | ok v =>
        refine ⟨true, _, c₁, Fold.bind_eq lifted, judged, fun P verdicts right => ?_⟩
        obtain ⟨enabled, sole, pure⟩ := holds P verdicts v rfl
        exact right.insert ⟨owner, .call m f args⟩ place ⟨enabled, sig, found, sole, pure⟩

set_option linter.unusedSectionVars false

mutual
theorem foldExpr_folds (owner : Option (FnDecl Mark)) : ∀ e : Expr Mark,
    e.nodes ⊆ cx.program.nodes → e.places owner ⊆ cx.program.places →
      Folds cx F (cx.resolver.foldExpr owner e)
  | .lit _, _, _ => .pure ()
  | .name _, _, _ => .pure ()
  | .host _ _, _, _ => .pure ()
  | .paren _ e, inside, places =>
    foldExpr_folds owner e (Answers.below_left inside) (List.append_subset.mp places).1
  | .unary _ _ e, inside, places =>
    foldExpr_folds owner e (Answers.below_left inside) (List.append_subset.mp places).1
  | .bin _ _ a b, inside, places =>
    .bind (foldExpr_folds owner a (Answers.below_left (Answers.below_left inside))
      (List.append_subset.mp (List.append_subset.mp places).1).1) fun _ =>
        foldExpr_folds owner b (Answers.below_right (Answers.below_left inside))
          (List.append_subset.mp (List.append_subset.mp places).1).2
  | .block _ ss tail, inside, places =>
    .bind (foldStmts_folds owner ss (Answers.below_left (Answers.below_left inside))
      (List.append_subset.mp (List.append_subset.mp places).1).1) fun _ =>
        foldTail_folds owner tail (Answers.below_right (Answers.below_left inside))
          (List.append_subset.mp (List.append_subset.mp places).1).2
  | .assign _ _ e, inside, places =>
    foldExpr_folds owner e (List.cons_subset.mp (Answers.below_left inside)).2
      (List.append_subset.mp places).1
  | .cases _ e arms, inside, places =>
    .bind (foldExpr_folds owner e (Answers.below_left (Answers.below_left inside))
      (List.append_subset.mp (List.append_subset.mp places).1).1) fun _ =>
        foldArms_folds owner arms (Answers.below_right (Answers.below_left inside))
          (List.append_subset.mp (List.append_subset.mp places).1).2
  | .inhabitant m node, inside, places => by
    intro f c like
    have run : cx.resolver.foldExpr owner (.inhabitant m node) f c =
        (match c.witnesses.find? m.id with
          | some w => Fold.inhabitant m.id w.value
          | none => return : Fold Unit) f c := rfl
    rw [run, like.witnesses]
    cases found : F.witnesses.find? m.id with
    | none => exact Folds.pure () f c like
    | some w =>
      refine ⟨(), _, c, rfl, .refl like, fun P _ right => ?_⟩
      exact right.insert ⟨owner, .inhabitant m node⟩ (places List.mem_cons_self)
        ⟨w, found, rfl⟩
  | .call m f args, inside, places => by
    refine .bind (foldCall_folds cert sized owner inside (places (Expr.mem_places _ _))) fun folded => ?_
    cases folded with
    | true => exact .pure ()
    | false =>
      exact foldExprs_folds owner args (List.cons_subset.mp (Answers.below_left inside)).2
        (List.append_subset.mp places).1

theorem foldExprs_folds (owner : Option (FnDecl Mark)) : ∀ es : List (Expr Mark),
    exprsNodes es ⊆ cx.program.nodes → exprsPlaces owner es ⊆ cx.program.places →
      Folds cx F (cx.resolver.foldExprs owner es)
  | [], _, _ => .pure ()
  | e :: es, inside, places =>
    .bind (foldExpr_folds owner e (Answers.below_left inside) (List.append_subset.mp places).1)
      fun _ => foldExprs_folds owner es (Answers.below_right inside) (List.append_subset.mp places).2

theorem foldTail_folds (owner : Option (FnDecl Mark)) : ∀ tail : Option (Expr Mark),
    tailNodes tail ⊆ cx.program.nodes → tailPlaces owner tail ⊆ cx.program.places →
      Folds cx F (cx.resolver.foldTail owner tail)
  | none, _, _ => .pure ()
  | some e, inside, places => foldExpr_folds owner e inside places

theorem foldArms_folds (owner : Option (FnDecl Mark)) : ∀ arms : List (Arm Mark),
    armsNodes arms ⊆ cx.program.nodes → armsPlaces owner arms ⊆ cx.program.places →
      Folds cx F (cx.resolver.foldArms owner arms)
  | [], _, _ => .pure ()
  | ⟨_, _, e⟩ :: arms, inside, places =>
    .bind (foldExpr_folds owner e
      (Answers.below_right (Answers.below_left (Answers.below_left inside)))
      (List.append_subset.mp places).1) fun _ =>
        foldArms_folds owner arms (Answers.below_right inside) (List.append_subset.mp places).2

theorem foldStmt_folds (owner : Option (FnDecl Mark)) : ∀ s : Stmt Mark,
    s.nodes ⊆ cx.program.nodes → s.places owner ⊆ cx.program.places →
      Folds cx F (cx.resolver.foldStmt owner s)
  | .val ⟨_, _, _, _, e⟩, inside, places =>
    foldExpr_folds owner e (Answers.below_right (Answers.below_left inside)) places
  | .fn ⟨_, _, _, _, e⟩, inside, places =>
    foldExpr_folds _ e (Answers.below_right (Answers.below_left inside)) places
  | .expr _ e, inside, places => foldExpr_folds owner e (Answers.below_left inside) places
  | .typeAlias _, _, _ => .pure ()

theorem foldStmts_folds (owner : Option (FnDecl Mark)) : ∀ ss : List (Stmt Mark),
    stmtsNodes ss ⊆ cx.program.nodes → stmtsPlaces owner ss ⊆ cx.program.places →
      Folds cx F (cx.resolver.foldStmts owner ss)
  | [], _, _ => .pure ()
  | s :: ss, inside, places =>
    .bind (foldStmt_folds owner s (Answers.below_left inside) (List.append_subset.mp places).1)
      fun _ => foldStmts_folds owner ss (Answers.below_right inside) (List.append_subset.mp places).2
end

/-- Folding a checked program ends without a fault, and what it finds has reasons. -/
theorem Context.fold_right :
    ∃ folding c, cx.fold.run F = .ok (folding, c) ∧ F.Like c ∧
      PuritiesRight cx.toBoundProgram F c.purities c ∧ FoldsRight cx F c.purities folding.values := by
  obtain ⟨_, folding, c, run, judged, right⟩ :=
    foldStmts_folds cert sized none cx.program.stmts (List.subset_append_left _ _)
      (List.Subset.refl _) {} F (.refl F)
  refine ⟨folding, c, Check.bind_eq run, judged.like, ?_, ?_⟩
  · refine judged.right _ (fun _ _ found => found) fun d _ reads found => ?_
    rw [cert.purities] at found
    cases found
  · exact right _ (fun _ _ found => found) nofun

end

end Solo

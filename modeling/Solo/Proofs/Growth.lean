import Solo.Proofs.Activations

/-!
# Growing frames

No evaluation takes a value away from a frame, whether it succeeds or fails. So a binding whose
declaration has run has a value as long as its frame is there.
-/

namespace Solo

/-- Some frame has a value of a symbol. -/
def Held (x : SymbolId) (frames : List Frame) : Prop := (lookFrames x frames).isSome = true

/-- Each frame has values of the symbols it had values of before. -/
def Grows (frames frames' : List Frame) : Prop :=
  List.Forall₂ (fun f f' : Frame => ∀ x, f.contains x = true → f'.contains x = true) frames frames'

theorem Grows.refl (frames : List Frame) : Grows frames frames := by
  induction frames with
  | nil => exact .nil
  | cons f outer ih => exact .cons (fun _ => id) ih

theorem Grows.trans {frames frames' frames'' : List Frame} (first : Grows frames frames')
    (second : Grows frames' frames'') : Grows frames frames'' := by
  induction first generalizing frames'' with
  | nil => exact second
  | cons head _ ih =>
    cases second with
    | cons head' rest' => exact .cons (fun x held => head' x (head x held)) (ih rest')

theorem Grows.tail {frames frames' : List Frame} (grows : Grows frames frames') :
    Grows frames.tail frames'.tail := by
  cases grows with
  | nil => exact .nil
  | cons _ rest => exact rest

theorem Grows.ne_nil {frames frames' : List Frame} (grows : Grows frames frames')
    (opened : frames ≠ []) : frames' ≠ [] := by
  cases grows with
  | nil => exact opened
  | cons _ _ => nofun

theorem Frame.contains_insert {f : Frame} {x : SymbolId} (v : Literal) {y : SymbolId}
    (held : f.contains y = true) : (f.insert x v).contains y = true := by
  unfold Table.contains at held ⊢
  rw [Table.find?_insert]
  split
  · rfl
  · exact held

theorem Grows.write {x : SymbolId} {v : Literal} {frames frames' : List Frame}
    (written : writeFrames x v frames = some frames') : Grows frames frames' := by
  induction frames generalizing frames' with
  | nil => cases written
  | cons f outer ih =>
    rw [writeFrames] at written
    split at written
    · cases written
      exact .cons (fun _ => Frame.contains_insert v) (Grows.refl outer)
    · obtain ⟨rest, inner, rfl⟩ := Option.map_eq_some_iff.mp written
      exact .cons (fun _ => id) (ih inner)

theorem Held.grows {x : SymbolId} {frames frames' : List Frame} (held : Held x frames)
    (grows : Grows frames frames') : Held x frames' := by
  unfold Held at held ⊢
  rw [Lexical.lookFrames_isSome] at held ⊢
  induction grows with
  | nil => cases held
  | cons head _ ih =>
    rw [List.any_cons, Bool.or_eq_true] at held ⊢
    exact held.imp (head x) ih

theorem Held.push {x : SymbolId} {frames : List Frame} (held : Held x frames) (f : Frame) :
    Held x (f :: frames) := by
  unfold Held at held ⊢
  rw [lookFrames, Option.isSome_or, held, Bool.or_true]

theorem Held.own {x : SymbolId} {f : Frame} (held : f.contains x = true) (outer : List Frame) :
    Held x (f :: outer) := by
  unfold Held
  rw [lookFrames, Option.isSome_or]
  rw [Table.contains] at held
  rw [held, Bool.true_or]

/-- Evaluations whose frames grow, whether they succeed or fail. -/
def Eval.Growing {α : Type} (a : Eval α) : Prop := ∀ s, Grows s.frames (a s).2.frames

namespace Eval.Growing

variable {α β : Type}

theorem still {a : Eval α} (same : ∀ s, (a s).2.frames = s.frames) : a.Growing := by
  intro s
  rw [same]
  exact .refl _

theorem run {a : Eval α} (growing : a.Growing) {s s' : Machine} {r : Except EvalError α}
    (run : a s = (r, s')) : Grows s.frames s'.frames := by
  have grows := growing s
  rw [run] at grows
  exact grows

theorem pure (x : α) : Eval.Growing (Pure.pure x) := still fun _ => rfl

theorem throw (e : EvalError) : Eval.Growing (MonadExcept.throw e : Eval α) := still fun _ => rfl

theorem bind {a : Eval α} {f : α → Eval β} (first : a.Growing) (rest : ∀ x, (f x).Growing) :
    (a >>= f).Growing := by
  intro s
  have grows := first s
  rw [Eval.bind_apply]
  split
  · next x s' run =>
    rw [run] at grows
    exact grows.trans (rest x s')
  · next e s' run =>
    rw [run] at grows
    exact grows

theorem apply (symbol : String) (result : Except OpError Literal) :
    (Eval.apply symbol result).Growing := by
  cases result with
  | error e => cases e <;> exact throw _
  | ok v => cases v <;> exact still fun _ => rfl

theorem inFrame {action : Eval Literal} (growing : action.Growing) (frame : Frame) :
    (Eval.inFrame frame action).Growing :=
  fun s => (growing { s with frames := frame :: s.frames }).tail

theorem declare (x : SymbolId) (v : Literal) : (Eval.declare x v).Growing := by
  rintro ⟨frames, printed, names⟩
  cases frames with
  | nil => exact .nil
  | cons f outer => exact .cons (fun _ => Frame.contains_insert v) (Grows.refl outer)

end Eval.Growing

namespace Plan

variable (p : Plan)

theorem lookup_state (x : SymbolId) (s : Machine) : (p.lookup x s).2 = s := by
  rw [p.lookup_apply]
  cases lookFrames x s.frames <;> rfl

theorem read_state (x : Ident Mark) (s : Machine) : (p.read x s).2 = s := by
  unfold read
  cases p.symbolAt? x.mark.id with
  | none => rfl
  | some y => exact p.lookup_state y s

theorem matchesPat_state (v : Literal) (a : Pat Mark) (s : Machine) :
    (p.matchesPat v a s).2 = s := by
  cases a with
  | wildcard m => rfl
  | lit m l => rfl
  | typed m node =>
    rw [matchesPat]
    cases p.checker.nodeTypes.find? m.id with
    | none => rfl
    | some t =>
      cases t with
      | literal w => rfl
      | path x =>
        have same := p.lookup_state x s
        change ((p.lookup x >>= fun w => return w.sameValue v) s).2 = s
        rw [Eval.bind_apply]
        split
        · next run => rw [run] at same; exact same
        · next run => rw [run] at same; exact same
      | intrinsic k => cases k <;> rfl

theorem write_growing (x : Ident Mark) (v : Literal) : (p.write x v).Growing := by
  cases target : p.symbolAt? x.mark.id with
  | none =>
    unfold write
    rw [target]
    exact .throw _
  | some y =>
    intro s
    rw [write_apply target]
    cases written : writeFrames y v s.frames with
    | none => exact .refl _
    | some frames => exact .write written

theorem unlessFolded_growing {node : NodeId} {find : Eval Literal} (growing : find.Growing) :
    (p.unlessFolded node find).Growing := by
  unfold unlessFolded
  split
  · exact .pure _
  · exact growing

section
variable {body : FnDecl Mark → List Literal → Eval Literal} (bodies : ∀ d vs, (body d vs).Growing)
include bodies

theorem applyCall_growing (m : Mark) (f : Ident Mark) (vs : List Literal) :
    (p.applyCall body m f vs).Growing := by
  unfold applyCall
  split
  · exact .bind (.still fun _ => rfl) fun _ => .pure _
  · split
    · exact bodies _ _
    · exact .throw _

set_option linter.unusedSectionVars false

mutual
theorem evalExpr_growing : ∀ e : Expr Mark, (p.evalExpr body e).Growing
  | .lit _ => p.unlessFolded_growing (.pure _)
  | .name x => p.unlessFolded_growing (.still fun s => congrArg Machine.frames (p.read_state x s))
  | .paren _ e => p.unlessFolded_growing (evalExpr_growing e)
  | .unary _ _ e => p.unlessFolded_growing (.bind (evalExpr_growing e) fun _ => .apply _ _)
  | .bin _ _ a b => by
    refine p.unlessFolded_growing (.bind (evalExpr_growing a) fun v => ?_)
    split
    · exact .pure _
    · exact .bind (evalExpr_growing b) fun _ => .apply _ _
  | .call m f args =>
    p.unlessFolded_growing (.bind (evalExprs_growing args) fun vs => applyCall_growing p bodies m f vs)
  | .block _ ss tail =>
    p.unlessFolded_growing (.bind (evalStmts_growing ss) fun _ => evalTail_growing tail)
  | .assign _ x e =>
    p.unlessFolded_growing (.bind (evalExpr_growing e) fun v =>
      .bind (p.write_growing x v) fun _ => .pure _)
  | .cases _ e arms =>
    p.unlessFolded_growing (.bind (evalExpr_growing e) fun v => evalArms_growing v arms)
  | .inhabitant m _ => by
    refine p.unlessFolded_growing ?_
    split
    · exact .pure _
    · exact .throw _
  | .host _ _ => p.unlessFolded_growing (.pure _)

theorem evalExprs_growing : ∀ es : List (Expr Mark), (p.evalExprs body es).Growing
  | [] => .pure _
  | e :: es => .bind (evalExpr_growing e) fun _ => .bind (evalExprs_growing es) fun _ => .pure _

theorem evalTail_growing : ∀ tail : Option (Expr Mark), (p.evalTail body tail).Growing
  | none => .pure _
  | some e => evalExpr_growing e

theorem evalArms_growing (v : Literal) : ∀ arms : List (Arm Mark), (p.evalArms body v arms).Growing
  | [] => .throw _
  | ⟨_, a, e⟩ :: arms => by
    refine .bind (.still fun s => congrArg Machine.frames (p.matchesPat_state v a s)) fun hit => ?_
    split
    · exact evalExpr_growing e
    · exact evalArms_growing v arms

theorem evalStmt_growing : ∀ t : Stmt Mark, (p.evalStmt body t).Growing
  | .val ⟨_, _, _, _, e⟩ => by
    refine .bind (evalExpr_growing e) fun v => ?_
    split
    · exact .declare _ _
    · exact .pure _
  | .expr _ e => .bind (evalExpr_growing e) fun _ => .pure _
  | .typeAlias _ => .pure _
  | .fn _ => .pure _

theorem evalStmts_growing : ∀ ss : List (Stmt Mark), (p.evalStmts body ss).Growing
  | [] => .pure _
  | t :: ss => .bind (evalStmt_growing t) fun _ => evalStmts_growing ss
end

end

theorem call_growing (n : Nat) (d : FnDecl Mark) (vs : List Literal) : (p.call n d vs).Growing := by
  induction n generalizing d vs with
  | zero => exact .throw _
  | succ n ih => exact .inFrame (p.evalExpr_growing (fun d vs => ih d vs) d.body) _

end Plan

/-! ### Values of declared symbols -/

section
variable {p : Plan} {n : Nat} {s s' : Machine}

theorem held_declare {x : SymbolId} {v : Literal} (opened : s.frames ≠ []) :
    Held x (Eval.declare x v s).2.frames := by
  obtain ⟨frames, printed, names⟩ := s
  cases frames with
  | nil => exact absurd rfl opened
  | cons f outer => exact .own (by rw [Table.contains, Table.find?_insert_self]; rfl) outer

/-- A declaration that has run has given its symbol a value. -/
theorem held_of_stmt {v : ValDecl Mark} {x : SymbolId} (target : p.symbolAt? v.mark.id = some x)
    (opened : s.frames ≠ []) (run : p.evalStmt (p.call n) (.val v) s = (.ok (), s')) :
    Held x s'.frames := by
  obtain ⟨m, kind, name, ty, e⟩ := v
  rw [Plan.evalStmt] at run
  cases first : p.evalExpr (p.call n) e s with
  | mk r s₁ =>
    cases r with
    | error err =>
      rw [Eval.bind_error first] at run
      cases run
    | ok w =>
      rw [Eval.bind_ok first, target] at run
      have grows := (p.evalExpr_growing (p.call_growing n) e).run first
      have held := held_declare (x := x) (v := w) (grows.ne_nil opened)
      change Eval.declare x w s₁ = _ at run
      rw [run] at held
      exact held

theorem held_of_stmts {v : ValDecl Mark} {x : SymbolId} (target : p.symbolAt? v.mark.id = some x) :
    ∀ {ss : List (Stmt Mark)} {s : Machine}, .val v ∈ ss → s.frames ≠ [] →
      p.evalStmts (p.call n) ss s = (.ok (), s') → Held x s'.frames
  | t :: ss, s, member, opened, run => by
    rw [Plan.evalStmts] at run
    cases first : p.evalStmt (p.call n) t s with
    | mk r s₁ =>
      cases r with
      | error err =>
        rw [Eval.bind_error first] at run
        cases run
      | ok u =>
        rw [Eval.bind_ok first] at run
        have grows := (p.evalStmt_growing (p.call_growing n) t).run first
        rcases List.mem_cons.mp member with rfl | later
        · exact (held_of_stmt target opened first).grows
            ((p.evalStmts_growing (p.call_growing n) ss).run run)
        · exact held_of_stmts target later (grows.ne_nil opened) run

/-- A function's frame has values of all its parameters. -/
theorem frameOf_contains {d : FnDecl Mark} {vs : List Literal} (count : vs.length = d.params.length)
    {x : SymbolId} (member : x ∈ p.paramSymbols d.params) : (p.frameOf d vs).contains x = true := by
  -- The symbol has a value already, or a parameter still to come declares it.
  have either : (.empty : Frame).contains x = true ∨ x ∈ p.paramSymbols d.params := .inr member
  unfold Plan.frameOf
  generalize (.empty : Frame) = frame at either ⊢
  generalize d.params = params at member count either
  clear member
  induction params generalizing vs frame with
  | nil => exact either.resolve_right List.not_mem_nil
  | cons a params ih =>
    cases vs with
    | nil => cases count
    | cons v vs =>
      refine ih _ (Nat.succ.inj count) ?_
      have split : p.paramSymbols (a :: params) =
          (p.symbolAt? a.mark.id).toList ++ p.paramSymbols params := by
        have same : (Decl.param a).mark = a.mark := rfl
        rw [BoundProgram.paramSymbols, BoundProgram.symbolsOf, List.map_cons, List.filterMap_cons,
          same]
        cases p.symbolAt? a.mark.id <;> rfl
      rw [split, List.mem_append] at either
      dsimp only
      cases target : p.symbolAt? a.mark.id with
      | none =>
        rw [target] at either
        exact either.imp id fun rest => rest.resolve_left List.not_mem_nil
      | some y =>
        rw [target] at either
        rcases either with held | here | later
        · exact .inl (Frame.contains_insert v held)
        · obtain rfl := List.mem_singleton.mp here
          exact .inl (by rw [Table.contains, Table.find?_insert_self]; rfl)
        · exact .inr later

end

end Solo

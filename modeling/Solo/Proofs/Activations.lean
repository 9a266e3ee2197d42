import Solo.Proofs.Lexical
import Solo.Proofs.Soundness

/-!
# Runs and lexical scopes

A run looks a symbol up through all frames, innermost first. It finds the frame that lexical scopes
give, because no activation after the one that a visible symbol belongs to has a value of it. There
is one exception: where that activation has none yet and an earlier activation of the same function
does, the run takes the earlier one's.
-/

namespace Solo

namespace Lexical

/-! ### Frames of activations -/

section
variable {a : Nat} {x : SymbolId} {v : Literal} {frames frames' : List Frame}

/-- No activation after `a` has a value of `x`. -/
def Above (a : Nat) (x : SymbolId) : List Frame → Prop
  | [] => True
  | f :: outer => (a < outer.length → f.find? x = none) ∧ Above a x outer

theorem Above.ofLength (frames : List Frame) (high : frames.length ≤ a + 1) : Above a x frames := by
  induction frames with
  | nil => trivial
  | cons f outer ih =>
    rw [List.length_cons] at high
    exact ⟨fun low => by omega, ih (by omega)⟩

theorem slot?_lt (found : slot? a x frames = some v) : a < frames.length := by
  induction frames with
  | nil => cases found
  | cons f outer ih =>
    rw [slot?] at found
    rw [List.length_cons]
    split at found
    · omega
    · have := ih found
      omega

theorem lookFrames_of_slot? (above : Above a x frames) (found : slot? a x frames = some v) :
    lookFrames x frames = some v := by
  induction frames with
  | nil => cases found
  | cons f outer ih =>
    rw [slot?] at found
    rw [lookFrames]
    split at found
    · rw [found, Option.some_or]
    · rw [above.1 (slot?_lt found), Option.none_or]
      exact ih above.2 found

theorem setSlot?_lt (set : setSlot? a x v frames = some frames') : a < frames.length := by
  induction frames generalizing frames' with
  | nil => cases set
  | cons f outer ih =>
    rw [setSlot?] at set
    rw [List.length_cons]
    split at set
    · omega
    · obtain ⟨rest, inner, _⟩ := Option.map_eq_some_iff.mp set
      have := ih inner
      omega

theorem writeFrames_of_setSlot? (above : Above a x frames)
    (set : setSlot? a x v frames = some frames') : writeFrames x v frames = some frames' := by
  induction frames generalizing frames' with
  | nil => cases set
  | cons f outer ih =>
    rw [setSlot?] at set
    rw [writeFrames]
    split at set
    · split at set
      · next held => rw [if_pos held, set]
      · cases set
    · obtain ⟨rest, inner, rfl⟩ := Option.map_eq_some_iff.mp set
      have absent : f.contains x = false :=
        Table.contains_eq_false.mpr (above.1 (setSlot?_lt inner))
      rw [if_neg (by rw [absent]; exact Bool.false_ne_true), ih above.2 inner]
      rfl

theorem lookFrames_isSome (x : SymbolId) (frames : List Frame) :
    (lookFrames x frames).isSome = frames.any (·.contains x) := by
  induction frames with
  | nil => rfl
  | cons f outer ih => rw [lookFrames, Option.isSome_or, ih, List.any_cons, Table.contains]

theorem writeFrames_isSome (x : SymbolId) (v : Literal) (frames : List Frame) :
    (writeFrames x v frames).isSome = frames.any (·.contains x) := by
  induction frames with
  | nil => rfl
  | cons f outer ih =>
    rw [writeFrames, List.any_cons]
    split
    · next held => rw [held]; rfl
    · next absent => rw [Option.isSome_map, ih, (Bool.not_eq_true _).mp absent, Bool.false_or]

/-- Two frames with values of the same symbols. -/
def SameKeys (f g : Frame) : Prop := ∀ x, f.find? x = none ↔ g.find? x = none

theorem SameKeys.refl (f : Frame) : SameKeys f f := fun _ => Iff.rfl

theorem SameKeys.trans {f g h : Frame} (first : SameKeys f g) (second : SameKeys g h) :
    SameKeys f h := fun x => (first x).trans (second x)

theorem SameKeys.insert {f : Frame} (held : f.contains x = true) (v : Literal) :
    SameKeys f (f.insert x v) := by
  intro y
  rw [Table.find?_insert]
  split
  · next same =>
    subst same
    rw [Table.contains, Option.isSome_iff_ne_none] at held
    simp [held]
  · rfl

theorem sameKeys_refl (frames : List Frame) : List.Forall₂ SameKeys frames frames := by
  induction frames with
  | nil => exact .nil
  | cons f outer ih => exact .cons (.refl f) ih

theorem sameKeys_trans {frames'' : List Frame} (first : List.Forall₂ SameKeys frames frames')
    (second : List.Forall₂ SameKeys frames' frames'') : List.Forall₂ SameKeys frames frames'' := by
  induction first generalizing frames'' with
  | nil => exact second
  | cons head _ ih =>
    cases second with
    | cons head' rest' => exact .cons (head.trans head') (ih rest')

theorem sameKeys_tail (same : List.Forall₂ SameKeys frames frames') :
    List.Forall₂ SameKeys frames.tail frames'.tail := by
  cases same with
  | nil => exact .nil
  | cons _ rest => exact rest

theorem setSlot?_keys (set : setSlot? a x v frames = some frames') :
    List.Forall₂ SameKeys frames frames' := by
  induction frames generalizing frames' with
  | nil => cases set
  | cons f outer ih =>
    rw [setSlot?] at set
    split at set
    · split at set
      · next held =>
        cases set
        exact .cons (.insert held v) (sameKeys_refl outer)
      · cases set
    · obtain ⟨rest, inner, rfl⟩ := Option.map_eq_some_iff.mp set
      exact .cons (.refl f) (ih inner)

theorem Above.same (same : List.Forall₂ SameKeys frames frames') (above : Above a x frames) :
    Above a x frames' := by
  induction same with
  | nil => trivial
  | cons head rest ih =>
    refine ⟨fun low => ?_, ih above.2⟩
    exact (head x).mp (above.1 (rest.length_eq ▸ low))

/-- A function's frame has values of its parameters only. -/
theorem frameOf_keys (q : Plan) (d : FnDecl Mark) (vs : List Literal) {y : SymbolId}
    (other : y ∉ q.paramSymbols d.params) : (q.frameOf d vs).find? y = none := by
  unfold Plan.frameOf
  generalize d.params = params at other
  have start : (Table.empty : Frame).find? y = none := rfl
  generalize (Table.empty : Frame) = frame at start
  induction params generalizing vs frame with
  | nil => exact start
  | cons param params ih =>
    cases vs with
    | nil => exact start
    | cons v vs =>
      have symbols : q.paramSymbols (param :: params) =
          (q.symbolAt? param.mark.id).toList ++ q.paramSymbols params := by
        have same : (Decl.param param).mark = param.mark := rfl
        rw [BoundProgram.paramSymbols, BoundProgram.symbolsOf, List.map_cons, List.filterMap_cons,
          same]
        cases q.symbolAt? param.mark.id <;> rfl
      rw [symbols, List.mem_append, not_or] at other
      refine ih vs other.2 _ ?_
      dsimp only
      cases target : q.symbolAt? param.mark.id with
      | none => exact start
      | some z =>
        have apart : y ≠ z := by simpa [target] using other.1
        rw [Table.find?_insert_other _ _ apart]
        exact start

end

/-! ### Scopes -/

/-- The symbols that are visible inside scopes. The built-in function is visible everywhere. -/
def visible : List LiveScope → List SymbolId
  | [] => [1]
  | z :: outer => z.declares ++ visible outer

section
variable (p : BoundProgram)

/-- The names inside a declared function or alias stand for what is visible at its declaration. -/
def DeclScoped (env : List SymbolId) : Decl → Prop
  | .fn d => (Stmt.fn d).Scoped p env
  | .typeAlias d => d.ty.Scoped p env
  | _ => True

/-- Scopes inside each other as a program has them. -/
def Legal : List LiveScope → Prop
  | [] => True
  | z :: outer =>
    (∀ x ∈ z.declares, x ∉ visible outer) ∧
      (∀ x ∈ z.declares, ∀ d ∈ (p.symbol x).decls, DeclScoped p (visible (z :: outer)) d) ∧
      Legal outer

end

section
variable {p : BoundProgram} {env : List LiveScope} {x : SymbolId} {a : Nat}

theorem visible_mem {z : LiveScope} (member : z ∈ env) (declared : x ∈ z.declares) :
    x ∈ visible env := by
  induction env with
  | nil => cases member
  | cons z' outer ih =>
    rcases List.mem_cons.mp member with rfl | later
    · exact List.mem_append_left _ declared
    · exact List.mem_append_right _ (ih later)

theorem home?_mem (found : home? x env = some a) :
    ∃ z ∈ env, x ∈ z.declares ∧ z.activation = a := by
  induction env with
  | nil => cases found
  | cons z outer ih =>
    rw [home?] at found
    split at found
    · next here => exact ⟨z, List.mem_cons_self, here, Option.some.inj found⟩
    · obtain ⟨z', member, rest⟩ := ih found
      exact ⟨z', List.mem_cons_of_mem z member, rest⟩

theorem home?_of_visible (seen : x ∈ visible env) (own : x ≠ 1) : ∃ a, home? x env = some a := by
  induction env with
  | nil => exact absurd (List.mem_singleton.mp seen) own
  | cons z outer ih =>
    rw [home?]
    split
    · exact ⟨_, rfl⟩
    · next elsewhere => exact ih ((List.mem_append.mp seen).resolve_left elsewhere)

theorem around_subset (x : SymbolId) (env : List LiveScope) : around x env ⊆ env := by
  induction env with
  | nil => exact List.Subset.refl _
  | cons z outer ih =>
    rw [around]
    split
    · exact List.Subset.refl _
    · exact List.subset_cons_of_subset z ih

theorem visible_around (x : SymbolId) (env : List LiveScope) :
    visible (around x env) ⊆ visible env := by
  induction env with
  | nil => exact List.Subset.refl _
  | cons z outer ih =>
    rw [around]
    split
    · exact List.Subset.refl _
    · exact List.subset_append_of_subset_right z.declares ih

theorem Legal.around (legal : Legal p env) (x : SymbolId) : Legal p (around x env) := by
  induction env with
  | nil => trivial
  | cons z outer ih =>
    rw [Lexical.around]
    split
    · exact legal
    · exact ih legal.2.2

/-- The scopes around a declaration are those of the names inside it. -/
theorem Legal.decl (legal : Legal p env) (seen : x ∈ visible env) (own : x ≠ 1) {d : Decl}
    (member : d ∈ (p.symbol x).decls) : DeclScoped p (visible (Lexical.around x env)) d := by
  induction env with
  | nil => exact absurd (List.mem_singleton.mp seen) own
  | cons z outer ih =>
    rw [Lexical.around]
    split
    · next here => exact legal.2.1 x here d member
    · next elsewhere => exact ih legal.2.2 ((List.mem_append.mp seen).resolve_left elsewhere)

theorem stmtsScoped_mem {seen : List SymbolId} {ss : List (Stmt Mark)}
    (names : stmtsScoped p seen ss) : ∀ s ∈ ss, s.Scoped p seen := by
  induction ss with
  | nil => nofun
  | cons t ss ih =>
    intro s member
    rcases List.mem_cons.mp member with rfl | later
    · exact names.1
    · exact ih names.2 s later

theorem Legal.block {ss : List (Stmt Mark)} (legal : Legal p env)
    (opens : p.Opens (visible env) (ss.filterMap Stmt.decl?))
    (names : stmtsScoped p (p.declared ss ++ visible env) ss) (a : Nat) :
    Legal p (⟨p.declared ss, a⟩ :: env) := by
  refine ⟨opens.fresh, fun x member d decl => ?_, legal⟩
  obtain ⟨s, inside, same⟩ := List.mem_filterMap.mp (opens.owned x member d decl)
  have names := stmtsScoped_mem names s inside
  cases s with
  | val e =>
    cases same
    trivial
  | typeAlias e =>
    obtain ⟨m, y, ty⟩ := e
    cases same
    exact names
  | fn e =>
    cases same
    exact names
  | expr m e => cases same

theorem Legal.params {ps : List (Param Mark)} (legal : Legal p env)
    (opens : p.Opens (visible env) (ps.map .param)) (a : Nat) :
    Legal p (⟨p.paramSymbols ps, a⟩ :: env) := by
  refine ⟨opens.fresh, fun x member d decl => ?_, legal⟩
  obtain ⟨param, _, rfl⟩ := List.mem_map.mp (opens.owned x member d decl)
  trivial

/-- A symbol with a declaration is not the built-in function. -/
theorem ne_builtin (bound : p.WellBound) (declared : (p.symbol x).decls ≠ []) : x ≠ 1 := by
  rintro rfl
  rw [bound.builtin] at declared
  exact declared rfl

/-- The binding whose singleton a type node stands for is visible at the node. -/
theorem visible_of_denotes (bound : p.WellBound) {node : TyNode Mark} {t : Ty}
    (denotes : Denotes p node t) (legal : Legal p env) (names : node.Scoped p (visible env))
    (same : t = .path x) : x ∈ visible env := by
  induction denotes generalizing env with
  | kind | literal | lit => cases same
  | @typeAlias m y s d t target decl _ ih =>
    have member := List.mem_of_mem_head? decl
    have own := ne_builtin bound (List.ne_nil_of_mem member)
    rcases names with ⟨missing, _⟩ | ⟨s', seen, target'⟩
    · simp [BoundProgram.symbolAt?, missing] at target
    · cases target.symm.trans target'
      exact visible_around s env (ih (legal.around s) (legal.decl seen own member) same)
  | path target _ =>
    cases same
    obtain ⟨s, seen, target', _⟩ := names
    cases target.symm.trans target'
    exact seen
  | paren _ ih => exact ih legal names same

end

/-! ### Following a run -/

/-- An evaluation that uses a symbol finds a value of it in some frame. -/
inductive Finds (q : Plan) (x : SymbolId) : Config → Prop
  | read {n : Nat} {s : Machine} {y : Ident Mark} (kept : q.folds.find? y.mark.id = none)
      (target : q.symbolAt? y.mark.id = some x) (found : (lookFrames x s.frames).isSome = true) :
    Finds q x ⟨n, .expr (.name y), s⟩
  | write {n : Nat} {s s' : Machine} {m : Mark} {y : Ident Mark} {e : Expr Mark} {v : Literal}
      (kept : q.folds.find? m.id = none) (first : q.evalExpr (q.call n) e s = (.ok v, s'))
      (target : q.symbolAt? y.mark.id = some x) (found : (lookFrames x s'.frames).isSome = true) :
    Finds q x ⟨n, .expr (.assign m y e), s⟩
  | test {n : Nat} {s : Machine} {m m' : Mark} {ty : TyNode Mark} {e : Expr Mark}
      {arms : List (Arm Mark)} {v : Literal}
      (recorded : q.checker.nodeTypes.find? m.id = some (.path x))
      (found : (lookFrames x s.frames).isSome = true) :
    Finds q x ⟨n, .arms v (⟨m', .typed m ty, e⟩ :: arms), s⟩

/-- During an evaluation a symbol is used of which some frame has a value. -/
def Strays (q : Plan) (c : Config) (x : SymbolId) : Prop :=
  ∃ c', Relation.ReflTransGen q.Enters c c' ∧ Finds q x c'

theorem Strays.enter {q : Plan} {c c' : Config} {x : SymbolId} (strays : Strays q c' x)
    (enters : q.Enters c c') : Strays q c x := by
  obtain ⟨c'', later, finds⟩ := strays
  exact ⟨c'', .head enters later, finds⟩

/-- A run ends as an evaluation with lexical scopes, unless that one fails where `W` says what the
run does instead. -/
def Follows {α : Type} (q : Plan) (R : Machine → Prop) (W : SymbolId → Prop) (s : Machine)
    (lex : Run α) (run : Eval α) : Prop :=
  match lex s with
  | (.ok x, s') => run s = (.ok x, s') ∧ R s'
  | (.error lapse, s') =>
    match lapse.stray with
    | none => run s = (.error lapse.error, s')
    | some x => lapse.error = .uninitialized (q.nameOf x) ∧ W x

/-- What holds of the frames inside scopes. -/
structure Fit (env : List LiveScope) (frames : List Frame) : Prop where
  opened : 0 < frames.length
  above : ∀ z ∈ env, ∀ x ∈ z.declares, Above z.activation x frames
  current : ∀ z, env.head? = some z → z.activation + 1 = frames.length

/-- What an activation does to the frames: only its own one gets new symbols. -/
structure Moves (frames frames' : List Frame) : Prop where
  length : frames'.length = frames.length
  outer : List.Forall₂ SameKeys frames.tail frames'.tail

theorem Moves.refl (frames : List Frame) : Moves frames frames := ⟨rfl, sameKeys_refl _⟩

theorem Moves.trans {frames frames' frames'' : List Frame} (first : Moves frames frames')
    (second : Moves frames' frames'') : Moves frames frames'' :=
  ⟨second.length.trans first.length, sameKeys_trans first.outer second.outer⟩

theorem Moves.same {frames frames' : List Frame} (same : List.Forall₂ SameKeys frames frames') :
    Moves frames frames' := ⟨same.length_eq.symm, sameKeys_tail same⟩

theorem Fit.same {env : List LiveScope} {frames frames' : List Frame} (fit : Fit env frames)
    (same : List.Forall₂ SameKeys frames frames') : Fit env frames' where
  opened := same.length_eq ▸ fit.opened
  above z member x declared := (fit.above z member x declared).same same
  current z head := (fit.current z head).trans same.length_eq

/-- The states after an evaluation inside scopes. -/
def After (env : List LiveScope) (s s' : Machine) : Prop :=
  Fit env s'.frames ∧ Moves s.frames s'.frames

theorem After.refl {env : List LiveScope} {s : Machine} (fit : Fit env s.frames) : After env s s :=
  ⟨fit, .refl _⟩

theorem run_bind_apply {α β : Type} (lex : Run α) (f : α → Run β) (s : Machine) :
    (lex >>= f) s = match lex s with
      | (.ok x, s') => f x s'
      | (.error e, s') => (.error e, s') := by
  change (ExceptT.bindCont f (lex s).1) (lex s).2 = _
  cases lex s with
  | mk r s' => cases r <;> rfl

namespace Follows

variable {α β : Type} {q : Plan} {R R' : Machine → Prop} {W W' : SymbolId → Prop} {s : Machine}
  {lex : Run α} {run : Eval α}

theorem pure (x : α) (holds : R s) : Follows q R W s (Pure.pure x) (Pure.pure x) := ⟨rfl, holds⟩

theorem lift (action : Eval α) (holds : R (action s).2) : Follows q R W s (lift action) action := by
  unfold Follows Lexical.lift
  cases ran : action s with
  | mk r s' =>
    rw [ran] at holds
    cases r with
    | ok x => exact ⟨rfl, holds⟩
    | error e => rfl

theorem weaken (follows : Follows q R W s lex run) (keeps : ∀ s', R s' → R' s')
    (strays : ∀ x, W x → W' x) : Follows q R' W' s lex run := by
  unfold Follows at follows ⊢
  cases ran : lex s with
  | mk r s' =>
    rw [ran] at follows
    cases r with
    | ok x => exact ⟨follows.1, keeps s' follows.2⟩
    | error lapse =>
      obtain ⟨e, stray⟩ := lapse
      cases stray with
      | none => exact follows
      | some x => exact ⟨follows.1, strays x follows.2⟩

theorem stray (follows : Follows q R W s lex run) (strays : ∀ x, W x → W' x) :
    Follows q R W' s lex run := follows.weaken (fun _ => id) strays

theorem bind {f : α → Run β} {g : α → Eval β} (first : Follows q R W s lex run)
    (rest : ∀ x s', run s = (.ok x, s') → R s' → Follows q R' W s' (f x) (g x)) :
    Follows q R' W s (lex >>= f) (run >>= g) := by
  unfold Follows at first ⊢
  rw [run_bind_apply]
  cases ran : lex s with
  | mk r s' =>
    rw [ran] at first
    cases r with
    | ok x =>
      dsimp only
      rw [Eval.bind_ok first.1]
      exact rest x s' first.1 first.2
    | error lapse =>
      obtain ⟨e, stray⟩ := lapse
      cases stray with
      | none => exact Eval.bind_error first
      | some x => exact first

end Follows

/-! ### Names -/

section
variable {q : Plan} {env : List LiveScope} {x : SymbolId} {s : Machine}

theorem lookup_follows (fit : Fit env s.frames) (home : ∃ a, home? x env = some a) :
    Follows q (After env s) (fun y => y = x ∧ (lookFrames x s.frames).isSome = true) s
      (lookup q env x) (q.lookup x) := by
  obtain ⟨a, home⟩ := home
  obtain ⟨z, member, declared, rfl⟩ := home?_mem home
  have above := fit.above z member x declared
  unfold Follows lookup
  rw [home]
  dsimp only
  cases slot : slot? z.activation x s.frames with
  | some v =>
    refine ⟨?_, .refl fit⟩
    rw [q.lookup_apply, lookFrames_of_slot? above slot]
  | none =>
    have total := lookFrames_isSome x s.frames
    dsimp only [early]
    cases elsewhere : s.frames.any (·.contains x) with
    | true => exact ⟨rfl, rfl, total.trans elsewhere⟩
    | false =>
      have missing := Option.isNone_iff_eq_none.mp
        ((Option.isSome_eq_false_iff).mp (total.trans elsewhere))
      change q.lookup x s = _
      rw [q.lookup_apply, missing]

theorem write_follows {y : Ident Mark} (target : q.symbolAt? y.mark.id = some x)
    (fit : Fit env s.frames) (home : ∃ a, home? x env = some a) (v : Literal) :
    Follows q (After env s) (fun y => y = x ∧ (lookFrames x s.frames).isSome = true) s
      (write q env y v) (q.write y v) := by
  obtain ⟨a, home⟩ := home
  obtain ⟨z, member, declared, rfl⟩ := home?_mem home
  have above := fit.above z member x declared
  unfold Follows write
  rw [target]
  dsimp only
  rw [home]
  dsimp only
  cases set : setSlot? z.activation x v s.frames with
  | some frames =>
    have same := setSlot?_keys set
    refine ⟨?_, fit.same same, .same same⟩
    rw [Plan.write_apply target, writeFrames_of_setSlot? above set]
  | none =>
    have total := writeFrames_isSome x v s.frames
    dsimp only [early]
    cases elsewhere : s.frames.any (·.contains x) with
    | true => exact ⟨rfl, rfl, (lookFrames_isSome x s.frames).trans elsewhere⟩
    | false =>
      have missing := Option.isNone_iff_eq_none.mp
        ((Option.isSome_eq_false_iff).mp (total.trans elsewhere))
      change q.write y v s = _
      rw [Plan.write_apply target, missing]

theorem declare_fit {z : LiveScope} {outer : List LiveScope} (legal : Legal q.toBoundProgram (z :: outer))
    (fit : Fit (z :: outer) s.frames) (own : x ∈ z.declares) (v : Literal) :
    After (z :: outer) s (Eval.declare x v s).2 := by
  change After (z :: outer) s (match s.frames with
    | [] => s
    | f :: rest => { s with frames := f.insert x v :: rest })
  have current := fit.current z rfl
  cases known : s.frames with
  | nil =>
    rw [known] at current
    cases current
  | cons f rest =>
    rw [known] at current
    rw [List.length_cons] at current
    have rest_fits : ∀ z' ∈ z :: outer, ∀ y ∈ z'.declares, Above z'.activation y (f :: rest) := by
      rw [← known]
      exact fit.above
    refine ⟨⟨Nat.zero_lt_succ _, ?_, ?_⟩, by rw [known]; exact ⟨rfl, sameKeys_refl _⟩⟩
    · intro z' member y declared
      obtain ⟨first, others⟩ := rest_fits z' member y declared
      refine ⟨fun low => ?_, others⟩
      have apart : y ≠ x := by
        rintro rfl
        rcases List.mem_cons.mp member with rfl | later
        · omega
        · exact legal.1 y own (visible_mem later declared)
      rw [Table.find?_insert_other _ _ apart]
      exact first low
    · rintro z' ⟨⟩
      exact current

end

/-! ### Trees -/

section
variable {q : Plan} {env : List LiveScope} {s : Machine} {W : SymbolId → Prop} {α β : Type}

theorem step_follows {lex : Run α} {run : Eval α} {f : α → Run β} {g : α → Eval β}
    (first : Follows q (After env s) W s lex run)
    (rest : ∀ x s', run s = (.ok x, s') → Fit env s'.frames →
      Follows q (After env s') W s' (f x) (g x)) :
    Follows q (After env s) W s (lex >>= f) (run >>= g) :=
  first.bind fun x s' ran after =>
    (rest x s' ran after.1).weaken (fun _ later => ⟨later.1, after.2.trans later.2⟩) fun _ => id

theorem unlessFolded_follows {node : NodeId} {lex : Run Literal} {run : Eval Literal}
    (fit : Fit env s.frames)
    (follows : q.folds.find? node = none → Follows q (After env s) W s lex run) :
    Follows q (After env s) W s (unlessFolded q node lex) (q.unlessFolded node run) := by
  unfold Lexical.unlessFolded Plan.unlessFolded
  cases kept : q.folds.find? node with
  | some v => exact .pure v (.refl fit)
  | none => exact follows kept

theorem apply_follows (fit : Fit env s.frames) (symbol : String) (result : Except OpError Literal) :
    Follows q (After env s) W s (lift (Eval.apply symbol result)) (Eval.apply symbol result) := by
  refine .lift _ ?_
  cases result with
  | error e => cases e <;> exact .refl fit
  | ok v => cases v <;> exact .refl fit

theorem Fit.enter (fit : Fit env s.frames) (declares : List SymbolId) :
    Fit (⟨declares, s.frames.length - 1⟩ :: env) s.frames where
  opened := fit.opened
  above := by
    intro z member
    rcases List.mem_cons.mp member with rfl | later
    · exact fun _ _ => .ofLength _ (by dsimp only; omega)
    · exact fit.above z later
  current := by
    rintro z ⟨⟩
    exact Nat.sub_add_cancel fit.opened

theorem After.leave {z : LiveScope} {s' : Machine} (fit : Fit env s.frames)
    (after : After (z :: env) s s') : After env s s' := by
  obtain ⟨inner, moves⟩ := after
  refine ⟨⟨inner.opened, fun z' member => inner.above z' (List.mem_cons_of_mem z member), ?_⟩, moves⟩
  intro z' head
  exact (fit.current z' head).trans moves.length.symm

end

/-- A call with `n` calls left goes as one inside the scopes around the declaration. -/
def Bodies (q : Plan) (n : Nat) : Prop :=
  ∀ (d : FnDecl Mark) (env : List LiveScope) (vs : List Literal) (s : Machine) (W : SymbolId → Prop),
    .stmt (.fn d) ∈ q.program.nodes → (Stmt.fn d).Scoped q.toBoundProgram (visible env) →
    Legal q.toBoundProgram env →
    (∀ z ∈ env, ∀ x ∈ z.declares, Above z.activation x s.frames) →
    (∀ k x, n = k + 1 →
      Strays q ⟨k, .expr d.body, { s with frames := q.frameOf d vs :: s.frames }⟩ x → W x) →
    Follows q (fun s' => List.Forall₂ SameKeys s.frames s'.frames) W s (call q n env d vs)
      (q.call n d vs)

section
variable {q : Plan} {F : Checker} {P : Table NodeId Purity} (ready : Ready q F P)
include ready

theorem home_of_typed {env : List LiveScope} {x : SymbolId} (seen : x ∈ visible env)
    (declared : (q.symbol x).decls ≠ []) : ∃ a, home? x env = some a :=
  home?_of_visible seen (ne_builtin ready.cert.bound declared)

theorem read_follows {env : List LiveScope} {s : Machine} {y : Ident Mark} {t : Ty} {n : Nat}
    (kept : q.folds.find? y.mark.id = none) (names : q.Resolves (visible env) y)
    (typed : (Expr.name y).Typed q.toBoundProgram F t) (fit : Fit env s.frames) :
    Follows q (After env s) (Strays q ⟨n, .expr (.name y), s⟩) s (read q env y) (q.read y) := by
  obtain ⟨_, x, u, target, declared, _⟩ := typed
  obtain ⟨x', seen, target', _⟩ := names
  cases target.symm.trans target'
  unfold Lexical.read Plan.read
  rw [target]
  have home := home_of_typed ready seen (ready.cert.sound.symbolTypes x u declared).decl
  refine (lookup_follows fit home).stray ?_
  rintro _ ⟨rfl, found⟩
  exact ⟨_, .refl, .read kept target found⟩

theorem matchesPat_follows {env : List LiveScope} {s : Machine} {pat : Pat Mark} {e : Expr Mark}
    {arms : List (Arm Mark)} {m : Mark} {n : Nat} {v : Literal}
    (names : pat.Scoped q.toBoundProgram (visible env)) (typed : pat.Typed q.toBoundProgram F)
    (legal : Legal q.toBoundProgram env) (fit : Fit env s.frames) :
    Follows q (After env s) (Strays q ⟨n, .arms v (⟨m, pat, e⟩ :: arms), s⟩) s
      (matchesPat q env v pat) (q.matchesPat v pat) := by
  cases pat with
  | wildcard m' => exact .lift (q.matchesPat v (.wildcard m')) (After.refl fit)
  | lit m' l => exact .lift (q.matchesPat v (.lit m' l)) (After.refl fit)
  | typed m' node =>
    obtain ⟨t, recorded, denotes⟩ := typed
    rw [← ready.like.nodeTypes] at recorded
    cases t with
    | path x =>
      have seen := visible_of_denotes ready.cert.bound denotes legal names rfl
      have stable := denotes.sane.2 x rfl
      have declared : (q.symbol x).decls ≠ [] := by
        obtain ⟨d, only, _⟩ := ready.cert.bound.binding_decl (Role.isBinding_of_isStable stable)
        rw [only]
        nofun
      rw [Lexical.matchesPat, Plan.matchesPat, recorded]
      refine step_follows ((lookup_follows fit (home_of_typed ready seen declared)).stray ?_)
        fun w s' _ fit' => .pure _ (.refl fit')
      rintro _ ⟨rfl, found⟩
      exact ⟨_, .refl, .test recorded found⟩
    | literal w =>
      rw [Lexical.matchesPat, recorded]
      refine .lift _ ?_
      rw [Plan.matchesPat, recorded]
      exact After.refl fit
    | intrinsic k =>
      rw [Lexical.matchesPat, recorded]
      refine .lift _ ?_
      rw [Plan.matchesPat, recorded]
      cases k <;> exact After.refl fit

theorem applyCall_follows {n : Nat} (bodies : Bodies q n) {env : List LiveScope} {s s' : Machine}
    {m : Mark} {f : Ident Mark} {args : List (Expr Mark)} {vs : List Literal} {t : Ty}
    (kept : q.folds.find? m.id = none) (first : q.evalExprs (q.call n) args s = (.ok vs, s'))
    (node : .expr (.call m f args) ∈ q.program.nodes) (names : q.Resolves (visible env) f)
    (typed : (Expr.call m f args).Typed q.toBoundProgram F t)
    (legal : Legal q.toBoundProgram env) (fit : Fit env s'.frames) :
    Follows q (After env s') (Strays q ⟨n, .expr (.call m f args), s⟩) s'
      (applyCall q (call q n) env m f vs) (q.applyCall (q.call n) m f vs) := by
  obtain ⟨_, x, types, target, _, resolved⟩ := typed
  obtain ⟨x', seen, target', _⟩ := names
  cases target.symm.trans target'
  unfold Lexical.applyCall Plan.applyCall
  rw [target]
  rcases resolved with ⟨role, _⟩ | ⟨role, sig, found, offers, _⟩
  · rw [if_pos (by simp [role])]
    dsimp only
    rw [if_pos role]
    exact .lift _ (After.refl fit)
  · have fn := (ready.cert.callee node found).2
    have own : x ≠ 1 := ne_builtin ready.cert.bound (List.ne_nil_of_mem offers.overload)
    have other : (q.symbolAt? f.mark.id).any (fun x => (q.symbol x).role = .builtin) = false := by
      simp [target, role]
    rw [← ready.like.signatures] at found
    rw [if_neg (by simp [role])]
    dsimp only
    rw [if_neg (by simp [role]), found]
    have called := bodies sig.decl (around x env) vs s' (Strays q ⟨n, .expr (.call m f args), s⟩) fn
      (legal.decl seen own offers.overload) (legal.around x)
      (fun z member => fit.above z (around_subset x env member)) ?_
    · exact called.weaken (fun _ same => ⟨fit.same same, .same same⟩) fun _ => id
    · rintro k y rfl strays
      exact strays.enter (.body kept first other found)

variable {n : Nat} (bodies : Bodies q n)
include bodies

set_option linter.unusedSectionVars false

-- The scopes change at a block only, where they get the one of the block's own declarations.
mutual
theorem evalExpr_follows : ∀ (e : Expr Mark) {env : List LiveScope} {t : Ty} {s : Machine},
    e.Scoped q.toBoundProgram (visible env) → e.nodes ⊆ q.program.nodes →
    e.Typed q.toBoundProgram F t → Legal q.toBoundProgram env → Fit env s.frames →
    Follows q (After env s) (Strays q ⟨n, .expr e, s⟩) s (evalExpr q (call q n) env e)
      (q.evalExpr (q.call n) e)
  | .lit _, _, _, _, _, _, _, _, fit =>
    unlessFolded_follows fit fun _ => .pure _ (.refl fit)
  | .name _, _, _, _, names, _, typed, _, fit =>
    unlessFolded_follows fit fun kept => read_follows ready kept names typed fit
  | .paren _ e, _, _, _, names, inside, typed, legal, fit =>
    unlessFolded_follows fit fun kept =>
      (evalExpr_follows e names (Answers.below_left inside) typed.2 legal fit).stray
        fun _ strays => strays.enter (.paren kept)
  | .unary m op e, env, t, s, names, inside, typed, legal, fit => by
    refine unlessFolded_follows fit fun kept => ?_
    obtain ⟨_, u, _, _, inner, _⟩ := typed
    have first := evalExpr_follows e names (Answers.below_left inside) inner legal fit
    refine step_follows (first.stray fun _ strays => strays.enter (.unary kept)) ?_
    exact fun v s' _ fit' => apply_follows fit' _ _
  | .bin m op a b, env, t, s, names, inside, typed, legal, fit => by
    refine unlessFolded_follows fit fun kept => ?_
    obtain ⟨_, u₁, u₂, _, _, _, left, right, _⟩ := typed
    have inside := Answers.below_left inside
    have first := evalExpr_follows a names.1 (Answers.below_left inside) left legal fit
    refine step_follows (first.stray fun _ strays => strays.enter (.left kept)) ?_
    intro v s' ran fit'
    by_cases short : (op = .and ∧ v = .bool false) ∨ (op = .or ∧ v = .bool true)
    · rw [if_pos short, if_pos short]
      exact .pure v (.refl fit')
    · rw [if_neg short, if_neg short]
      have second := evalExpr_follows b names.2 (Answers.below_right inside) right legal fit'
      refine step_follows (second.stray fun _ strays => strays.enter (.right kept ran short)) ?_
      exact fun w s'' _ fit'' => apply_follows fit'' _ _
  | .call m f args, env, t, s, names, inside, typed, legal, fit => by
    refine unlessFolded_follows fit fun kept => ?_
    have node := inside (Expr.mem_nodes (.call m f args))
    have ⟨_, _, types, _, args_typed, _⟩ := typed
    have first := evalExprs_follows args names.2
      (List.cons_subset.mp (Answers.below_left inside)).2 args_typed legal fit
    refine step_follows (first.stray fun _ strays => strays.enter (.args kept)) ?_
    exact fun vs s' ran fit' =>
      applyCall_follows ready bodies kept ran node names.1 typed legal fit'
  | .block m ss tail, env, t, s, names, inside, typed, legal, fit => by
    refine unlessFolded_follows fit fun kept => ?_
    obtain ⟨opens, stmts, last⟩ := names
    obtain ⟨_, stmts_typed, last_typed⟩ := typed
    have inside := Answers.below_left inside
    have legal' := legal.block opens stmts (s.frames.length - 1)
    change stmtsScoped q.toBoundProgram
      (visible (⟨q.declared ss, s.frames.length - 1⟩ :: env)) ss at stmts
    change tailScoped q.toBoundProgram
      (visible (⟨q.declared ss, s.frames.length - 1⟩ :: env)) tail at last
    have first := evalStmts_follows ss stmts (Answers.below_left inside) stmts_typed legal'
      (fun t member d same x target => List.mem_filterMap.mpr
        ⟨d, List.mem_filterMap.mpr ⟨t, member, same⟩, target⟩) (fit.enter (q.declared ss))
    have whole : Follows q (After (⟨q.declared ss, s.frames.length - 1⟩ :: env) s)
        (Strays q ⟨n, .expr (.block m ss tail), s⟩) s
        (do
          evalStmts q (call q n) (⟨q.declared ss, s.frames.length - 1⟩ :: env) ss
          evalTail q (call q n) (⟨q.declared ss, s.frames.length - 1⟩ :: env) tail)
        (do
          q.evalStmts (q.call n) ss
          q.evalTail (q.call n) tail) := by
      refine step_follows (first.stray fun _ strays => strays.enter (.block kept)) ?_
      intro _ s' ran fit'
      have second := evalTail_follows tail last (Answers.below_right inside) last_typed legal' fit'
      exact second.stray fun _ strays => strays.enter (.tail kept ran)
    exact whole.weaken (fun s' after => after.leave fit) fun _ => id
  | .assign m x e, env, t, s, names, inside, typed, legal, fit => by
    refine unlessFolded_follows fit fun kept => ?_
    obtain ⟨⟨⟨y, seen, target, _⟩, _⟩, inner⟩ := names
    obtain ⟨_, _, y', u, r, target', _, declared, inner_typed, _⟩ := typed
    cases target.symm.trans target'
    have home := home_of_typed ready seen (ready.cert.sound.symbolTypes y u declared).decl
    have first := evalExpr_follows e inner (List.cons_subset.mp (Answers.below_left inside)).2
      inner_typed legal fit
    refine step_follows (first.stray fun _ strays => strays.enter (.assign kept)) ?_
    intro v s' ran fit'
    refine step_follows ((write_follows target fit' home v).stray ?_)
      fun _ s'' _ fit'' => .pure _ (.refl fit'')
    rintro _ ⟨rfl, found⟩
    exact ⟨_, .refl, .write kept ran target found⟩
  | .cases m e arms, env, t, s, names, inside, typed, legal, fit => by
    refine unlessFolded_follows fit fun kept => ?_
    obtain ⟨_, ⟨u, inner⟩, arms_typed⟩ := typed
    have inside := Answers.below_left inside
    have first := evalExpr_follows e names.1 (Answers.below_left inside) inner legal fit
    refine step_follows (first.stray fun _ strays => strays.enter (.scrutinee kept)) ?_
    intro v s' ran fit'
    have second := evalArms_follows v arms names.2 (Answers.below_right inside) arms_typed legal fit'
    exact second.stray fun _ strays => strays.enter (.arms kept ran)
  | .inhabitant m ty, env, t, s, names, inside, typed, legal, fit => by
    refine unlessFolded_follows fit fun kept => ?_
    obtain ⟨_, _, w, found, _⟩ := typed
    rw [ready.like.witnesses, found]
    exact .pure _ (.refl fit)
  | .host _ _, _, _, _, _, _, _, _, fit =>
    unlessFolded_follows fit fun _ => .pure _ (.refl fit)

theorem evalExprs_follows : ∀ (es : List (Expr Mark)) {env : List LiveScope} {ts : List Ty}
    {s : Machine}, exprsScoped q.toBoundProgram (visible env) es →
    exprsNodes es ⊆ q.program.nodes → exprsTyped q.toBoundProgram F es ts →
    Legal q.toBoundProgram env → Fit env s.frames →
    Follows q (After env s) (Strays q ⟨n, .exprs es, s⟩) s (evalExprs q (call q n) env es)
      (q.evalExprs (q.call n) es)
  | [], _, _, _, _, _, _, _, fit => .pure _ (.refl fit)
  | e :: es, env, ts, s, names, inside, typed, legal, fit => by
    obtain ⟨t, ts, _, head, rest⟩ := typed
    have first := evalExpr_follows e names.1 (Answers.below_left inside) head legal fit
    refine step_follows (first.stray fun _ strays => strays.enter .arg) ?_
    intro v s' ran fit'
    have second := evalExprs_follows es names.2 (Answers.below_right inside) rest legal fit'
    refine step_follows (second.stray fun _ strays => strays.enter (.nextArgs ran)) ?_
    exact fun vs s'' _ fit'' => .pure _ (.refl fit'')

theorem evalTail_follows : ∀ (tail : Option (Expr Mark)) {env : List LiveScope} {t : Ty}
    {s : Machine}, tailScoped q.toBoundProgram (visible env) tail →
    tailNodes tail ⊆ q.program.nodes → tailTyped q.toBoundProgram F tail t →
    Legal q.toBoundProgram env → Fit env s.frames →
    Follows q (After env s) (Strays q ⟨n, .tail tail, s⟩) s (evalTail q (call q n) env tail)
      (q.evalTail (q.call n) tail)
  | none, _, _, _, _, _, _, _, fit => .pure _ (.refl fit)
  | some e, _, _, _, names, inside, typed, legal, fit =>
    (evalExpr_follows e names inside typed legal fit).stray fun _ strays => strays.enter .last

theorem evalArms_follows (v : Literal) : ∀ (arms : List (Arm Mark)) {env : List LiveScope} {t : Ty}
    {s : Machine}, armsScoped q.toBoundProgram (visible env) arms →
    armsNodes arms ⊆ q.program.nodes → armsTyped q.toBoundProgram F arms t →
    Legal q.toBoundProgram env → Fit env s.frames →
    Follows q (After env s) (Strays q ⟨n, .arms v arms, s⟩) s (evalArms q (call q n) env v arms)
      (q.evalArms (q.call n) v arms)
  | [], _, _, _, _, _, _, _, fit => .lift _ (After.refl fit)
  | ⟨m, pat, e⟩ :: arms, env, t, s, names, inside, typed, legal, fit => by
    obtain ⟨pat_names, body_names, rest_names⟩ := names
    obtain ⟨pat_typed, ⟨u, body_typed, _⟩, rest_typed⟩ := typed
    refine step_follows (matchesPat_follows ready pat_names pat_typed legal fit) ?_
    intro matched s' ran fit'
    cases matched with
    | true =>
      have second := evalExpr_follows e body_names
        (Answers.below_right (Answers.below_left (Answers.below_left inside))) body_typed legal fit'
      exact second.stray fun _ strays => strays.enter (.arm ran)
    | false =>
      have second := evalArms_follows v arms rest_names (Answers.below_right inside) rest_typed
        legal fit'
      exact second.stray fun _ strays => strays.enter (.nextArms ran)

theorem evalStmt_follows : ∀ (t : Stmt Mark) {z : LiveScope} {env : List LiveScope} {s : Machine},
    t.Scoped q.toBoundProgram (visible (z :: env)) → t.nodes ⊆ q.program.nodes →
    t.Typed q.toBoundProgram F → Legal q.toBoundProgram (z :: env) →
    (∀ d, t.decl? = some d → ∀ x, q.symbolAt? d.mark.id = some x → x ∈ z.declares) →
    Fit (z :: env) s.frames →
    Follows q (After (z :: env) s) (Strays q ⟨n, .stmt t, s⟩) s
      (evalStmt q (call q n) (z :: env) t) (q.evalStmt (q.call n) t)
  | .val ⟨m, kind, x, ty, e⟩, z, env, s, names, inside, typed, legal, own, fit => by
    obtain ⟨_, y, u, r, target, _, inner, _⟩ := typed
    have first := evalExpr_follows e names.2 (Answers.below_right (Answers.below_left inside))
      inner legal fit
    refine step_follows (first.stray fun _ strays => strays.enter .init) ?_
    intro v s' ran fit'
    rw [target]
    exact .lift _ (declare_fit legal fit' (own _ rfl y target) v)
  | .expr m e, z, env, s, names, inside, typed, legal, own, fit => by
    obtain ⟨t, inner⟩ := typed
    have first := evalExpr_follows e names (Answers.below_left inside) inner legal fit
    refine step_follows (first.stray fun _ strays => strays.enter .effect) ?_
    exact fun v s' _ fit' => .pure _ (.refl fit')
  | .typeAlias _, _, _, _, _, _, _, _, _, fit => .pure _ (.refl fit)
  | .fn _, _, _, _, _, _, _, _, _, fit => .pure _ (.refl fit)

theorem evalStmts_follows : ∀ (ss : List (Stmt Mark)) {z : LiveScope} {env : List LiveScope}
    {s : Machine}, stmtsScoped q.toBoundProgram (visible (z :: env)) ss →
    stmtsNodes ss ⊆ q.program.nodes → stmtsTyped q.toBoundProgram F ss →
    Legal q.toBoundProgram (z :: env) →
    (∀ t ∈ ss, ∀ d, t.decl? = some d → ∀ x, q.symbolAt? d.mark.id = some x → x ∈ z.declares) →
    Fit (z :: env) s.frames →
    Follows q (After (z :: env) s) (Strays q ⟨n, .stmts ss, s⟩) s
      (evalStmts q (call q n) (z :: env) ss) (q.evalStmts (q.call n) ss)
  | [], _, _, _, _, _, _, _, _, fit => .pure _ (.refl fit)
  | t :: ss, z, env, s, names, inside, typed, legal, own, fit => by
    have first := evalStmt_follows t names.1 (Answers.below_left inside) typed.1 legal
      (own t List.mem_cons_self) fit
    refine step_follows (first.stray fun _ strays => strays.enter .stmt) ?_
    intro _ s' ran fit'
    have second := evalStmts_follows ss names.2 (Answers.below_right inside) typed.2 legal
      (fun t' member => own t' (List.mem_cons_of_mem t member)) fit'
    exact second.stray fun _ strays => strays.enter (.nextStmts ran)
end

end

section
variable {q : Plan} {s : Machine} {W : SymbolId → Prop}

theorem inFrame_follows {env : List LiveScope} {frame : Frame} {lex : Run Literal}
    {run : Eval Literal}
    (follows : Follows q (After env { s with frames := frame :: s.frames }) W
      { s with frames := frame :: s.frames } lex run) :
    Follows q (fun s' => List.Forall₂ SameKeys s.frames s'.frames) W s (inFrame frame lex)
      (Eval.inFrame frame run) := by
  unfold Follows at follows ⊢
  dsimp only [Lexical.inFrame, Eval.inFrame]
  cases ran : lex { s with frames := frame :: s.frames } with
  | mk r s' =>
    rw [ran] at follows
    cases r with
    | ok v =>
      dsimp only at follows ⊢
      rw [follows.1]
      exact ⟨rfl, follows.2.2.outer⟩
    | error lapse =>
      obtain ⟨e, stray⟩ := lapse
      cases stray with
      | none =>
        dsimp only at follows ⊢
        rw [follows]
      | some x => exact follows

/-- The scopes of a new activation fit its frame on top of the others. -/
theorem Fit.call {env : List LiveScope} {d : FnDecl Mark} (vs : List Literal)
    (above : ∀ z ∈ env, ∀ x ∈ z.declares, Above z.activation x s.frames)
    (fresh : ∀ x ∈ q.paramSymbols d.params, x ∉ visible env) :
    Fit (⟨q.paramSymbols d.params, s.frames.length⟩ :: env) (q.frameOf d vs :: s.frames) where
  opened := Nat.zero_lt_succ _
  above := by
    intro z member x declared
    rcases List.mem_cons.mp member with rfl | later
    · exact .ofLength _ (Nat.le_refl _)
    · refine ⟨fun _ => frameOf_keys q d vs fun isParam => ?_, above z later x declared⟩
      exact fresh x isParam (visible_mem later declared)
  current := by
    rintro z ⟨⟩
    rfl

end

section
variable {q : Plan} {F : Checker} {P : Table NodeId Purity}

theorem bodies_follow (ready : Ready q F P) (n : Nat) : Bodies q n := by
  induction n with
  | zero => exact fun d env vs s W _ _ _ _ _ => .lift _ (sameKeys_refl _)
  | succ n ih =>
    intro d env vs s W node names legal above strays
    obtain ⟨sig, t, _, _, _, typed, _⟩ := ready.cert.fn node
    have inside := Program.body_of_fn node
    obtain ⟨m, x, params, result, e⟩ := d
    obtain ⟨opens, _, _, body⟩ := names
    have legal' := legal.params opens s.frames.length
    have fit := Fit.call (d := ⟨m, x, params, result, e⟩) vs above opens.fresh
    change e.Scoped q.toBoundProgram
      (visible (⟨q.paramSymbols params, s.frames.length⟩ :: env)) at body
    exact inFrame_follows ((evalExpr_follows ready ih e body inside typed legal' fit).stray
      fun y => strays n y rfl)

theorem run_follows (ready : Ready q F P) :
    Follows q (fun _ => True) (Strays q q.begin) ⟨[.empty], [], q.checker.names⟩ (run q) q.run := by
  have bound := ready.cert.bound
  have names : stmtsScoped q.toBoundProgram (visible [⟨q.declared q.program.stmts, 0⟩])
      q.program.stmts := bound.names
  have outermost : Legal q.toBoundProgram [] := trivial
  have legal := outermost.block bound.opens names 0
  have fit : Fit [⟨q.declared q.program.stmts, 0⟩] q.begin.machine.frames := by
    refine ⟨Nat.zero_lt_succ _, ?_, ?_⟩
    · intro z member x declared
      cases List.mem_singleton.mp member
      exact .ofLength _ (Nat.le_refl _)
    · rintro z ⟨⟩
      rfl
  have follows := evalStmts_follows ready (bodies_follow ready q.options.maxCallDepth)
    q.program.stmts names (List.subset_append_left _ _) ready.cert.stmts legal
    (fun t member d same x target => List.mem_filterMap.mpr
      ⟨d, List.mem_filterMap.mpr ⟨t, member, same⟩, target⟩) fit
  exact follows.weaken (fun _ _ => trivial) fun _ => id

end

end Lexical

/-- A run of a draft that was checked without an error ends as the evaluation with lexical scopes
does, unless that one stops at a binding of which only another activation has a value. Then the
run gets to a use of the binding and takes that value. -/
theorem run_scopes_lexically (d : Draft) (o : Options) (q : Checked) (plan : Plan)
    (passes : d.Passes o q) (plans : q.Plans plan) :
    (plan.lexicalOutcome.stray = none → plan.outcome = plan.lexicalOutcome.toOutcome) ∧
    ∀ x, plan.lexicalOutcome.stray = some x →
      plan.lexicalOutcome.error = some (.uninitialized (plan.nameOf x)) ∧
        ∃ c, plan.Reached c ∧ Lexical.Finds plan x c := by
  obtain ⟨_, ready⟩ := plans.ready passes
  have follows := Lexical.run_follows ready
  unfold Lexical.Follows at follows
  unfold Plan.lexicalOutcome Plan.outcome
  dsimp only [ExceptT.run]
  cases ran : Lexical.run plan ⟨[.empty], [], plan.checker.names⟩ with
  | mk r s =>
    rw [ran] at follows
    cases r with
    | ok u =>
      dsimp only at follows ⊢
      rw [follows.1]
      exact ⟨fun _ => rfl, nofun⟩
    | error lapse =>
      obtain ⟨e, stray⟩ := lapse
      cases stray with
      | none =>
        dsimp only at follows ⊢
        rw [follows]
        exact ⟨fun _ => rfl, nofun⟩
      | some x =>
        refine ⟨nofun, ?_⟩
        rintro _ ⟨⟩
        exact ⟨congrArg some follows.1, follows.2⟩

/-- A draft in which each activation of a function calls a function inside it, also after another
activation of it has come and gone. -/
def Draft.nested : Draft where
  text := "def f(n: Int): Int = { val a: Int = n def g(): Int = a n match { case 0 => g() case _ => f(n - 1) + g() } } println(f(2))"
  stmts :=
    [.fn ⟨[], ⟨[], "f"⟩, [⟨[], ⟨[], "n"⟩, .refer [] ⟨[], "Int"⟩⟩], some (.refer [] ⟨[], "Int"⟩),
      .block []
        [.val ⟨[], .val, ⟨[], "a"⟩, some (.refer [] ⟨[], "Int"⟩), .name ⟨[], "n"⟩⟩,
          .fn ⟨[], ⟨[], "g"⟩, [], some (.refer [] ⟨[], "Int"⟩), .name ⟨[], "a"⟩⟩]
        (some (.cases [] (.name ⟨[], "n"⟩)
          [⟨[], .lit [] ⟨[], .int 0⟩, .call [] ⟨[], "g"⟩ []⟩,
            ⟨[], .wildcard [], .bin [] (.arith .add)
              (.call [] ⟨[], "f"⟩ [.bin [] (.arith .sub) (.name ⟨[], "n"⟩) (.lit ⟨[], .int 1⟩)])
              (.call [] ⟨[], "g"⟩ [])⟩]))⟩,
      .expr [] (.call [] ⟨[], "println"⟩ [.call [] ⟨[], "f"⟩ [.lit ⟨[], .int 2⟩]])]

theorem run_scopes_lexically_nested : ∃ q plan, Draft.nested.Passes default q ∧ q.Plans plan ∧
    plan.lexicalOutcome.output = ["3"] ∧ plan.lexicalOutcome.stray = none ∧
    plan.outcome = plan.lexicalOutcome.toOutcome := by
  obtain ⟨q, plan, passes, plans, found⟩ := Draft.plan?_any .nested default
    (fun (_, plan) => plan.lexicalOutcome.output == ["3"] && plan.lexicalOutcome.stray.isNone)
    (by decide +kernel)
  obtain ⟨output, stray⟩ := Bool.and_eq_true_iff.mp found
  have none := Option.isNone_iff_eq_none.mp stray
  exact ⟨q, plan, passes, plans, eq_of_beq output, none,
    (run_scopes_lexically .nested default q plan passes plans).1 none⟩

/-- A draft whose function reads a binding before the declaration, in its second activation. -/
def Draft.stale : Draft where
  text := "def f(n: Int): Int = { val b: Int = n match { case 0 => a case _ => 0 } val a: Int = n n match { case 0 => b case _ => f(n - 1) } } println(f(1))"
  stmts :=
    [.fn ⟨[], ⟨[], "f"⟩, [⟨[], ⟨[], "n"⟩, .refer [] ⟨[], "Int"⟩⟩], some (.refer [] ⟨[], "Int"⟩),
      .block []
        [.val ⟨[], .val, ⟨[], "b"⟩, some (.refer [] ⟨[], "Int"⟩),
            .cases [] (.name ⟨[], "n"⟩)
              [⟨[], .lit [] ⟨[], .int 0⟩, .name ⟨[], "a"⟩⟩,
                ⟨[], .wildcard [], .lit ⟨[], .int 0⟩⟩]⟩,
          .val ⟨[], .val, ⟨[], "a"⟩, some (.refer [] ⟨[], "Int"⟩), .name ⟨[], "n"⟩⟩]
        (some (.cases [] (.name ⟨[], "n"⟩)
          [⟨[], .lit [] ⟨[], .int 0⟩, .name ⟨[], "b"⟩⟩,
            ⟨[], .wildcard [], .call [] ⟨[], "f"⟩
              [.bin [] (.arith .sub) (.name ⟨[], "n"⟩) (.lit ⟨[], .int 1⟩)]⟩]))⟩,
      .expr [] (.call [] ⟨[], "println"⟩ [.call [] ⟨[], "f"⟩ [.lit ⟨[], .int 1⟩]])]

/-- The second activation takes the value that the first one gave the binding. -/
theorem stale_binding_read : ∃ q plan, Draft.stale.Passes default q ∧ q.Plans plan ∧
    (plan.outcome.output = ["1"] ∧ plan.outcome.error = none) ∧
    plan.lexicalOutcome.output = [] ∧
      plan.lexicalOutcome.error = some (.uninitialized "a") := by
  obtain ⟨q, plan, passes, plans, found⟩ := Draft.plan?_any .stale default
    (fun (_, plan) => (plan.outcome.output == ["1"] && plan.outcome.error.isNone) &&
      (plan.lexicalOutcome.output == [] &&
        plan.lexicalOutcome.error == some (.uninitialized "a")))
    (by decide +kernel)
  simp only [Bool.and_eq_true, beq_iff_eq, Option.isNone_iff_eq_none] at found
  exact ⟨q, plan, passes, plans, found⟩

end Solo

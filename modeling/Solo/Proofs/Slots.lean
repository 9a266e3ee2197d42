import Solo.Proofs.Growth

/-!
# Slots of frames

What an evaluation does to the slots of the frames. It fills those of the declarations that it runs
itself, in the innermost frame, and no other ones; it empties none; and where those were empty at
first, the slot of a stable binding keeps its value. `Fills` says this of an evaluation.
-/

namespace Solo

open Lexical (slot?)

/-! ### Declarations of an evaluation -/

mutual
/-- The declarations that an evaluation runs, but for those of the functions that it calls. -/
def Expr.vals : Expr Mark → List (ValDecl Mark)
  | .lit _ => []
  | .name _ => []
  | .paren _ e => e.vals
  | .unary _ _ e => e.vals
  | .bin _ _ a b => a.vals ++ b.vals
  | .call _ _ args => exprsVals args
  | .block _ ss tail => stmtsVals ss ++ tailVals tail
  | .assign _ _ e => e.vals
  | .cases _ e arms => e.vals ++ armsVals arms
  | .inhabitant _ _ => []
  | .host _ _ => []

def exprsVals : List (Expr Mark) → List (ValDecl Mark)
  | [] => []
  | e :: es => e.vals ++ exprsVals es

def tailVals : Option (Expr Mark) → List (ValDecl Mark)
  | none => []
  | some e => e.vals

def armsVals : List (Arm Mark) → List (ValDecl Mark)
  | [] => []
  | ⟨_, _, e⟩ :: arms => e.vals ++ armsVals arms

def Stmt.vals : Stmt Mark → List (ValDecl Mark)
  | .val ⟨m, k, x, t, e⟩ => e.vals ++ [⟨m, k, x, t, e⟩]
  | .typeAlias _ => []
  | .fn _ => []
  | .expr _ e => e.vals

def stmtsVals : List (Stmt Mark) → List (ValDecl Mark)
  | [] => []
  | s :: ss => s.vals ++ stmtsVals ss
end

def Task.vals : Task → List (ValDecl Mark)
  | .expr e => e.vals
  | .exprs es => exprsVals es
  | .tail e => tailVals e
  | .arms _ rest => armsVals rest
  | .stmt s => s.vals
  | .stmts ss => stmtsVals ss

abbrev ValDecl.node (d : ValDecl Mark) : Node Mark := .stmt (.val d)

theorem vals_append {ds es : List (ValDecl Mark)} {ns ks : List (Node Mark)}
    (first : (ds.map ValDecl.node).Sublist ns) (second : (es.map ValDecl.node).Sublist ks) :
    ((ds ++ es).map ValDecl.node).Sublist (ns ++ ks) := by
  rw [List.map_append]
  exact first.append second

mutual
theorem Expr.vals_sublist : ∀ e : Expr Mark, (e.vals.map ValDecl.node).Sublist e.nodes
  | .lit _ => List.nil_sublist _
  | .name _ => List.nil_sublist _
  | .paren _ e => e.vals_sublist.trans (List.sublist_append_left _ _)
  | .unary _ _ e => e.vals_sublist.trans (List.sublist_append_left _ _)
  | .bin _ _ a b =>
    (vals_append a.vals_sublist b.vals_sublist).trans (List.sublist_append_left _ _)
  | .call _ _ args =>
    ((exprs_vals_sublist args).cons _).trans (List.sublist_append_left _ _)
  | .block _ ss tail =>
    (vals_append (stmts_vals_sublist ss) (tail_vals_sublist tail)).trans
      (List.sublist_append_left _ _)
  | .assign _ _ e => (e.vals_sublist.cons _).trans (List.sublist_append_left _ _)
  | .cases _ e arms =>
    (vals_append e.vals_sublist (arms_vals_sublist arms)).trans (List.sublist_append_left _ _)
  | .inhabitant _ _ => List.nil_sublist _
  | .host _ _ => List.nil_sublist _

theorem exprs_vals_sublist :
    ∀ es : List (Expr Mark), ((exprsVals es).map ValDecl.node).Sublist (exprsNodes es)
  | [] => List.nil_sublist _
  | e :: es => vals_append e.vals_sublist (exprs_vals_sublist es)

theorem tail_vals_sublist :
    ∀ tail : Option (Expr Mark), ((tailVals tail).map ValDecl.node).Sublist (tailNodes tail)
  | none => List.nil_sublist _
  | some e => e.vals_sublist

theorem arms_vals_sublist :
    ∀ arms : List (Arm Mark), ((armsVals arms).map ValDecl.node).Sublist (armsNodes arms)
  | [] => List.nil_sublist _
  | ⟨_, _, e⟩ :: arms =>
    vals_append ((e.vals_sublist.trans (List.sublist_append_right _ _)).trans
      (List.sublist_append_left _ _)) (arms_vals_sublist arms)

theorem Stmt.vals_sublist : ∀ s : Stmt Mark, (s.vals.map ValDecl.node).Sublist s.nodes
  | .val ⟨_, _, _, _, e⟩ =>
    vals_append (e.vals_sublist.trans (List.sublist_append_right _ _)) (List.Sublist.refl _)
  | .typeAlias _ => List.nil_sublist _
  | .fn _ => List.nil_sublist _
  | .expr _ e => e.vals_sublist.trans (List.sublist_append_left _ _)

theorem stmts_vals_sublist :
    ∀ ss : List (Stmt Mark), ((stmtsVals ss).map ValDecl.node).Sublist (stmtsNodes ss)
  | [] => List.nil_sublist _
  | s :: ss => vals_append s.vals_sublist (stmts_vals_sublist ss)
end

theorem params_sublist (ps : List (Param Mark)) :
    (ps.map Node.param).Sublist (paramsNodes ps) := by
  induction ps with
  | nil => exact List.nil_sublist _
  | cons q ps ih =>
    obtain ⟨m, x, t⟩ := q
    exact (List.sublist_append_right _ [_]).append ih

theorem locals_sublist (d : FnDecl Mark) :
    ((d.params.map Decl.param ++ d.body.vals.map Decl.val).map Decl.node).Sublist
      (Stmt.fn d).nodes := by
  obtain ⟨m, x, ps, t, e⟩ := d
  rw [List.map_append, List.map_map, List.map_map]
  refine .trans ?_ (List.sublist_append_left _ _)
  refine .append (.trans ?_ (List.sublist_append_left _ _)) e.vals_sublist
  exact (params_sublist ps).cons _

namespace BoundProgram

variable {p : BoundProgram}

def valSymbols (p : BoundProgram) (ds : List (ValDecl Mark)) : List SymbolId :=
  p.symbolsOf (ds.map .val)

theorem valSymbols_append (ds es : List (ValDecl Mark)) :
    p.valSymbols (ds ++ es) = p.valSymbols ds ++ p.valSymbols es := by
  rw [valSymbols, List.map_append]
  exact List.filterMap_append

theorem valSymbols_singleton {d : ValDecl Mark} {x : SymbolId}
    (target : p.symbolAt? d.mark.id = some x) : p.valSymbols [d] = [x] := by
  have same : (Decl.val d).mark = d.mark := rfl
  rw [valSymbols, symbolsOf, List.map_singleton, List.filterMap_cons, same, target]
  rfl

/-- A declaration in the program has its own symbol, which it shares with functions only. -/
theorem WellBound.decl_unique (bound : p.WellBound) {d e : Decl} {x : SymbolId}
    (first : d.node ∈ p.program.nodes) (second : e.node ∈ p.program.nodes)
    (other : ∀ f, d ≠ .fn f) (other' : ∀ f, e ≠ .fn f) (target : p.symbolAt? d.mark.id = some x)
    (target' : p.symbolAt? e.mark.id = some x) : d = e := by
  have declared : ∀ {d : Decl}, d.node ∈ p.program.nodes → p.symbolAt? d.mark.id = some x →
      p.Declares d x := by
    intro d node target
    have named := bound.named _ node
    have found : ∃ y, p.Declares d y := by
      cases d with
      | param q => exact named
      | _ => exact named _ rfl
    obtain ⟨y, declares⟩ := found
    cases declares.target.symm.trans target
    exact declares
  have head := (declared first target).head other
  have head' := (declared second target').head other'
  exact Option.some.inj (head.symm.trans head')

theorem WellBound.symbols_nodup (bound : p.WellBound) {ds : List Decl}
    (part : (ds.map Decl.node).Sublist p.program.nodes) (other : ∀ d ∈ ds, ∀ f, d ≠ .fn f) :
    (p.symbolsOf ds).Nodup := by
  have distinct : ds.Nodup := (part.nodup bound.distinct.of_map).of_map
  have inside : ∀ d ∈ ds, d.node ∈ p.program.nodes := fun d member =>
    part.subset (List.mem_map_of_mem member)
  refine List.pairwise_filterMap.mpr (distinct.imp_of_mem ?_)
  rintro d e member member' different x target y target' rfl
  exact different (bound.decl_unique (inside d member) (inside e member') (other d member)
    (other e member') target target')

end BoundProgram

/-! ### Slots -/

section
variable {a : Nat} {x y : SymbolId} {v w : Literal} {f : Frame} {frames frames' : List Frame}

theorem slot?_top (f : Frame) (outer : List Frame) (x : SymbolId) :
    slot? outer.length x (f :: outer) = f.find? x := by
  rw [slot?, if_pos rfl]

theorem slot?_below (f : Frame) {outer : List Frame} (x : SymbolId) (low : a ≠ outer.length) :
    slot? a x (f :: outer) = slot? a x outer := by
  rw [slot?, if_neg (Ne.symm low)]

/-- Setting a symbol that has a slot leaves all others as they are. -/
theorem slot?_write (written : writeFrames y w frames = some frames') :
    frames'.length = frames.length ∧ ∀ a x, (slot? a x frames').isSome = (slot? a x frames).isSome ∧
      (x ≠ y → slot? a x frames' = slot? a x frames) := by
  induction frames generalizing frames' with
  | nil => cases written
  | cons f outer ih =>
    rw [writeFrames] at written
    split at written
    · next held =>
      cases written
      refine ⟨rfl, fun a x => ?_⟩
      rw [slot?, slot?]
      split
      · rw [Table.find?_insert]
        split
        · next same =>
          subst same
          exact ⟨held.symm, fun other => absurd rfl other⟩
        · exact ⟨rfl, fun _ => rfl⟩
      · exact ⟨rfl, fun _ => rfl⟩
    · obtain ⟨rest, inner, rfl⟩ := Option.map_eq_some_iff.mp written
      obtain ⟨count, same⟩ := ih inner
      refine ⟨congrArg (· + 1) count, fun a x => ?_⟩
      rw [slot?, slot?, count]
      split
      · exact ⟨rfl, fun _ => rfl⟩
      · exact same a x

end

/-- There is a frame, and its slots of some symbols are empty. -/
structure Blank (xs : List SymbolId) (frames : List Frame) : Prop where
  opened : frames ≠ []
  distinct : xs.Nodup
  empty : ∀ x ∈ xs, slot? (frames.length - 1) x frames = none

namespace Blank

variable {xs ys : List SymbolId} {frames : List Frame}

theorem sub (blank : Blank ys frames) (less : xs.Sublist ys) : Blank xs frames :=
  ⟨blank.opened, less.nodup blank.distinct, fun x member => blank.empty x (less.subset member)⟩

theorem left (blank : Blank (xs ++ ys) frames) : Blank xs frames :=
  blank.sub (List.sublist_append_left _ _)

theorem right (blank : Blank (xs ++ ys) frames) : Blank ys frames :=
  blank.sub (List.sublist_append_right _ _)

theorem push {f : Frame} (distinct : xs.Nodup) (empty : ∀ x ∈ xs, f.find? x = none)
    (outer : List Frame) : Blank xs (f :: outer) := by
  refine ⟨nofun, distinct, fun x member => ?_⟩
  rw [List.length_cons, Nat.add_sub_cancel, slot?_top]
  exact empty x member

end Blank

/-- How frames may change: new slots of `xs` in the innermost frame, and no new value for a stable
binding. -/
structure Changes (p : BoundProgram) (xs : List SymbolId) (frames frames' : List Frame) :
    Prop where
  count : frames'.length = frames.length
  grows : ∀ a x, (slot? a x frames).isSome = true → (slot? a x frames').isSome = true
  adds : ∀ a x, (slot? a x frames').isSome = true →
    (slot? a x frames).isSome = true ∨ (a = frames.length - 1 ∧ x ∈ xs)
  stable : ∀ a x v, (p.symbol x).role.isStable = true → slot? a x frames = some v →
    slot? a x frames' = some v

namespace Changes

variable {p : BoundProgram} {xs ys : List SymbolId} {frames frames' frames'' : List Frame}

theorem refl (xs : List SymbolId) (frames : List Frame) : Changes p xs frames frames :=
  ⟨rfl, fun _ _ => id, fun _ _ => .inl, fun _ _ _ _ => id⟩

theorem trans (first : Changes p xs frames frames') (second : Changes p ys frames' frames'') :
    Changes p (xs ++ ys) frames frames'' where
  count := second.count.trans first.count
  grows a x held := second.grows a x (first.grows a x held)
  adds a x held := by
    rcases second.adds a x held with before | ⟨top, new⟩
    · rcases first.adds a x before with before | ⟨top, new⟩
      · exact .inl before
      · exact .inr ⟨top, List.mem_append_left _ new⟩
    · exact .inr ⟨first.count ▸ top, List.mem_append_right _ new⟩
  stable a x v isStable found := second.stable a x v isStable (first.stable a x v isStable found)

theorem mono (changes : Changes p xs frames frames') (more : xs ⊆ ys) :
    Changes p ys frames frames' :=
  { changes with adds := fun a x held => (changes.adds a x held).imp id fun ⟨top, new⟩ =>
      ⟨top, more new⟩ }

/-- What was not to be filled is still empty. -/
theorem blank (changes : Changes p xs frames frames') (blank : Blank (xs ++ ys) frames) :
    Blank ys frames' := by
  obtain ⟨_, distinct, apart⟩ := List.nodup_append'.mp blank.distinct
  refine ⟨fun none => blank.opened ?_, distinct, fun x member => ?_⟩
  · rw [← List.length_eq_zero_iff, ← changes.count, none]
    rfl
  · rw [changes.count, ← Option.not_isSome_iff_eq_none]
    intro held
    rcases changes.adds _ x held with before | ⟨_, new⟩
    · rw [blank.right.empty x member] at before
      cases before
    · exact apart new member

theorem write {y : SymbolId} {w : Literal} (written : writeFrames y w frames = some frames')
    (unstable : (p.symbol y).role.isStable = false) : Changes p xs frames frames' := by
  obtain ⟨count, same⟩ := slot?_write written
  refine ⟨count, fun a x held => (same a x).1 ▸ held, fun a x held => .inl ((same a x).1 ▸ held),
    fun a x v isStable found => ?_⟩
  have other : x ≠ y := by
    rintro rfl
    cases isStable.symm.trans unstable
  rw [(same a x).2 other, found]

theorem declare {f : Frame} {outer : List Frame} {x : SymbolId} (v : Literal)
    (blank : Blank [x] (f :: outer)) :
    Changes p [x] (f :: outer) (f.insert x v :: outer) := by
  have empty : f.find? x = none := by
    have := blank.empty x List.mem_cons_self
    rwa [List.length_cons, Nat.add_sub_cancel, slot?_top] at this
  refine ⟨rfl, fun a y held => ?_, fun a y held => ?_, fun a y w isStable found => ?_⟩
  all_goals by_cases top : a = outer.length
  · subst top
    rw [slot?_top] at held ⊢
    exact Frame.contains_insert v held
  · rwa [slot?_below _ _ top] at held ⊢
  · subst top
    rw [slot?_top, Table.find?_insert] at held
    split at held
    · next same => exact .inr ⟨rfl, List.mem_singleton.mpr same⟩
    · exact .inl (by rwa [slot?_top])
  · rw [slot?_below _ _ top] at held ⊢
    exact .inl held
  · subst top
    rw [slot?_top] at found ⊢
    rw [Table.find?_insert, if_neg, found]
    rintro rfl
    cases empty.symm.trans found
  · rwa [slot?_below _ _ top] at found ⊢

/-- A call leaves the frames below its own with the slots that they had. -/
theorem pop {f : Frame} (changes : Changes p xs (f :: frames) frames') :
    Changes p [] frames frames'.tail := by
  cases frames' with
  | nil => cases changes.count
  | cons f' outer =>
    have count : outer.length = frames.length := Nat.succ.inj changes.count
    have low : ∀ {a x}, (slot? a x frames).isSome = true → a ≠ frames.length := by
      intro a x held
      obtain ⟨v, found⟩ := Option.isSome_iff_exists.mp held
      exact Nat.ne_of_lt (Lexical.slot?_lt found)
    refine ⟨count, fun a x held => ?_, fun a x held => ?_, fun a x v isStable found => ?_⟩
    · have grown := changes.grows a x
      rw [slot?_below f x (low held), slot?_below f' x (count ▸ low held)] at grown
      exact grown held
    · obtain ⟨v, found⟩ := Option.isSome_iff_exists.mp held
      have below : a ≠ outer.length := Nat.ne_of_lt (Lexical.slot?_lt found)
      have added := changes.adds a x
      rw [slot?_below f x (count ▸ below), slot?_below f' x below] at added
      rcases added held with before | ⟨top, _⟩
      · exact .inl before
      · exact absurd (top.trans (Nat.add_sub_cancel ..)) (count ▸ below)
    · have below := low (Option.isSome_iff_exists.mpr ⟨v, found⟩)
      have kept := changes.stable a x v isStable
      rw [slot?_below f x below, slot?_below f' x (count ▸ below)] at kept
      exact kept found

end Changes

/-! ### Evaluations that fill slots -/

theorem Eval.declare_frames (x : SymbolId) (v : Literal) {s : Machine} {f : Frame}
    {outer : List Frame} (known : s.frames = f :: outer) :
    (Eval.declare x v s).2.frames = f.insert x v :: outer := by
  obtain ⟨frames, printed, names⟩ := s
  cases known
  rfl

/-- An evaluation that fills no other slots than those of `xs`, if these are empty. -/
def Eval.Fills {α : Type} (p : BoundProgram) (xs : List SymbolId) (a : Eval α) : Prop :=
  ∀ s, Blank xs s.frames → Changes p xs s.frames (a s).2.frames

namespace Eval.Fills

variable {α β : Type} {p : BoundProgram} {xs ys : List SymbolId} {a : Eval α} {f : α → Eval β}

theorem still (same : ∀ s, (a s).2.frames = s.frames) : Fills p xs a := by
  intro s _
  rw [same]
  exact .refl _ _

theorem pure (x : α) : Fills p xs (Pure.pure x) := still fun _ => rfl

theorem throw (e : EvalError) : Fills p xs (MonadExcept.throw e : Eval α) := still fun _ => rfl

theorem sub (fills : Fills p xs a) (more : xs.Sublist ys) : Fills p ys a := by
  intro s blank
  exact (fills s (blank.sub more)).mono more.subset

theorem rest (first : Fills p xs a) (second : ∀ x, Fills p ys (f x)) {s : Machine}
    (blank : Blank (xs ++ ys) s.frames) :
    Changes p ys (a s).2.frames ((a >>= f) s).2.frames := by
  have later := (first s blank.left).blank blank
  rw [Eval.bind_apply]
  split
  · next x s' run =>
    rw [run] at later ⊢
    exact second x s' later
  · next e s' run =>
    rw [run]
    exact .refl _ _

theorem bind (first : Fills p xs a) (second : ∀ x, Fills p ys (f x)) :
    Fills p (xs ++ ys) (a >>= f) :=
  fun s blank => (first s blank.left).trans (first.rest second blank)

/-- An evaluation after which nothing more is filled. -/
theorem last (first : Fills p xs a) (second : ∀ x, Fills p [] (f x)) : Fills p xs (a >>= f) := by
  have both := first.bind second
  rwa [List.append_nil] at both

theorem apply (symbol : String) (result : Except OpError Literal) :
    Fills p xs (Eval.apply symbol result) := by
  cases result with
  | error e => cases e <;> exact throw _
  | ok v => cases v <;> exact still fun _ => rfl

theorem declare (x : SymbolId) (v : Literal) : Fills p [x] (Eval.declare x v) := by
  intro s blank
  obtain ⟨f, outer, known⟩ := List.exists_cons_of_ne_nil blank.opened
  rw [Eval.declare_frames x v known, known]
  exact .declare v (known ▸ blank)

/-- A call fills slots of its own frame only. -/
theorem inFrame {action : Eval Literal} {frame : Frame} (fills : Fills p xs action)
    (distinct : xs.Nodup) (empty : ∀ x ∈ xs, frame.find? x = none) :
    Fills p [] (Eval.inFrame frame action) := by
  intro s _
  exact (fills { s with frames := frame :: s.frames } (.push distinct empty s.frames)).pop

end Eval.Fills

namespace Ready

variable {q : Plan} {F : Checker} {P : Table NodeId Purity}

theorem unlessFolded_fills {xs : List SymbolId} {node : NodeId} {find : Eval Literal}
    (fills : find.Fills q.toBoundProgram xs) :
    (q.unlessFolded node find).Fills q.toBoundProgram xs := by
  unfold Plan.unlessFolded
  split
  · exact .pure _
  · exact fills

/-- Only what is no stable binding is assigned. -/
theorem write_fills (ready : Ready q F P) {m : Mark} {x : Ident Mark} {e : Expr Mark} {t : Ty}
    (node : .expr (.assign m x e) ∈ q.program.nodes)
    (typed : (Expr.assign m x e).Typed q.toBoundProgram F t) (v : Literal) :
    (q.write x v).Fills q.toBoundProgram [] := by
  obtain ⟨_, _, y, _, _, target, isVar, _⟩ := typed
  have moving := (ready.cert.bound.named _ node).2 y target
  have unstable : (q.symbol y).role.isStable = false := by
    revert isVar moving
    cases (q.symbol y).role with
    | var frozen => cases frozen <;> simp [Role.isStable]
    | _ => nofun
  intro s _
  rw [Plan.write_apply target]
  cases written : writeFrames y v s.frames with
  | none => exact .refl _ _
  | some frames => exact .write written unstable

section
variable (ready : Ready q F P) {body : FnDecl Mark → List Literal → Eval Literal}
  (bodies : ∀ d vs, .stmt (.fn d) ∈ q.program.nodes → (body d vs).Fills q.toBoundProgram [])
include ready bodies

theorem applyCall_fills {m : Mark} {f : Ident Mark} {args : List (Expr Mark)}
    (node : .expr (.call m f args) ∈ q.program.nodes) (vs : List Literal) :
    (q.applyCall body m f vs).Fills q.toBoundProgram [] := by
  unfold Plan.applyCall
  split
  · exact .last (.still fun _ => rfl) fun _ => .pure _
  · split
    · next sig found =>
      rw [ready.like.signatures] at found
      exact bodies _ _ (ready.cert.callee node found).2
    · exact .throw _

set_option linter.unusedSectionVars false

mutual
theorem evalExpr_fills : ∀ (e : Expr Mark) {t : Ty}, e.nodes ⊆ q.program.nodes →
    e.Typed q.toBoundProgram F t →
    (q.evalExpr body e).Fills q.toBoundProgram (q.valSymbols e.vals)
  | .lit _, _, _, _ => unlessFolded_fills (.pure _)
  | .name x, _, _, _ =>
    unlessFolded_fills (.still fun s => congrArg Machine.frames (q.read_state x s))
  | .paren _ e, _, inside, typed =>
    unlessFolded_fills (evalExpr_fills e (Answers.below_left inside) typed.2)
  | .unary _ _ e, _, inside, ⟨_, _, _, _, inner, _⟩ =>
    unlessFolded_fills (.last (evalExpr_fills e (Answers.below_left inside) inner)
      fun _ => .apply _ _)
  | .bin _ _ a b, _, inside, ⟨_, _, _, _, _, _, left, right, _⟩ => by
    have inside := Answers.below_left inside
    rw [Expr.vals, BoundProgram.valSymbols_append]
    refine unlessFolded_fills (.bind (evalExpr_fills a (Answers.below_left inside) left)
      fun v => ?_)
    split
    · exact .pure _
    · exact .last (evalExpr_fills b (Answers.below_right inside) right) fun _ => .apply _ _
  | .call m f args, _, inside, ⟨_, _, _, _, typed, _⟩ =>
    unlessFolded_fills (.last (evalExprs_fills args
      (List.cons_subset.mp (Answers.below_left inside)).2 typed)
      fun vs => applyCall_fills ready bodies (inside (Expr.mem_nodes (.call m f args))) vs)
  | .block _ ss tail, _, inside, ⟨_, stmts, last⟩ => by
    have inside := Answers.below_left inside
    rw [Expr.vals, BoundProgram.valSymbols_append]
    exact unlessFolded_fills (.bind (evalStmts_fills ss (Answers.below_left inside) stmts)
      fun _ => evalTail_fills tail (Answers.below_right inside) last)
  | .assign m x e, _, inside, typed => by
    obtain ⟨_, _, _, _, _, _, _, _, inner, _⟩ := id typed
    refine unlessFolded_fills (.last (evalExpr_fills e
      (List.cons_subset.mp (Answers.below_left inside)).2 inner) fun v => ?_)
    exact .last (ready.write_fills (inside (Expr.mem_nodes (.assign m x e))) typed v)
      fun _ => .pure _
  | .cases _ e arms, _, inside, ⟨_, ⟨_, inner⟩, rest⟩ => by
    have inside := Answers.below_left inside
    rw [Expr.vals, BoundProgram.valSymbols_append]
    exact unlessFolded_fills (.bind (evalExpr_fills e (Answers.below_left inside) inner)
      fun v => evalArms_fills v arms (Answers.below_right inside) rest)
  | .inhabitant _ _, _, _, _ => by
    refine unlessFolded_fills ?_
    split
    · exact .pure _
    · exact .throw _
  | .host _ _, _, _, _ => unlessFolded_fills (.pure _)

theorem evalExprs_fills : ∀ (es : List (Expr Mark)) {ts : List Ty},
    exprsNodes es ⊆ q.program.nodes → exprsTyped q.toBoundProgram F es ts →
    (q.evalExprs body es).Fills q.toBoundProgram (q.valSymbols (exprsVals es))
  | [], _, _, _ => .pure _
  | e :: es, _, inside, ⟨_, _, _, first, rest⟩ => by
    rw [exprsVals, BoundProgram.valSymbols_append]
    exact .bind (evalExpr_fills e (Answers.below_left inside) first) fun _ =>
      .last (evalExprs_fills es (Answers.below_right inside) rest) fun _ => .pure _

theorem evalTail_fills : ∀ (tail : Option (Expr Mark)) {t : Ty},
    tailNodes tail ⊆ q.program.nodes → tailTyped q.toBoundProgram F tail t →
    (q.evalTail body tail).Fills q.toBoundProgram (q.valSymbols (tailVals tail))
  | none, _, _, _ => .pure _
  | some e, _, inside, typed => evalExpr_fills e inside typed

theorem evalArms_fills (v : Literal) : ∀ (arms : List (Arm Mark)) {t : Ty},
    armsNodes arms ⊆ q.program.nodes → armsTyped q.toBoundProgram F arms t →
    (q.evalArms body v arms).Fills q.toBoundProgram (q.valSymbols (armsVals arms))
  | [], _, _, _ => .throw _
  | ⟨_, a, e⟩ :: arms, _, inside, ⟨_, ⟨_, own, _⟩, rest⟩ => by
    rw [armsVals, BoundProgram.valSymbols_append]
    have test : (q.matchesPat v a).Fills q.toBoundProgram [] :=
      .still fun s => congrArg Machine.frames (q.matchesPat_state v a s)
    refine test.bind fun hit => ?_
    split
    · exact (evalExpr_fills e (Answers.below_right (Answers.below_left (Answers.below_left inside)))
        own).sub (List.sublist_append_left _ _)
    · exact (evalArms_fills v arms (Answers.below_right inside) rest).sub
        (List.sublist_append_right _ _)

theorem evalStmt_fills : ∀ t : Stmt Mark, t.nodes ⊆ q.program.nodes →
    t.Typed q.toBoundProgram F →
    (q.evalStmt body t).Fills q.toBoundProgram (q.valSymbols t.vals)
  | .val ⟨m, _, _, _, e⟩, inside, ⟨_, x, _, _, target, _, inner, _⟩ => by
    rw [Stmt.vals, BoundProgram.valSymbols_append]
    refine .bind (evalExpr_fills e (Answers.below_right (Answers.below_left inside)) inner)
      fun v => ?_
    rw [BoundProgram.valSymbols_singleton target, target]
    exact .declare x v
  | .expr _ e, inside, ⟨_, inner⟩ =>
    .last (evalExpr_fills e (Answers.below_left inside) inner) fun _ => .pure _
  | .typeAlias _, _, _ => .pure _
  | .fn _, _, _ => .pure _

theorem evalStmts_fills : ∀ ss : List (Stmt Mark), stmtsNodes ss ⊆ q.program.nodes →
    stmtsTyped q.toBoundProgram F ss →
    (q.evalStmts body ss).Fills q.toBoundProgram (q.valSymbols (stmtsVals ss))
  | [], _, _ => .pure _
  | t :: ss, inside, ⟨first, rest⟩ => by
    rw [stmtsVals, BoundProgram.valSymbols_append]
    exact .bind (evalStmt_fills t (Answers.below_left inside) first) fun _ =>
      evalStmts_fills ss (Answers.below_right inside) rest
end

end

/-- The parameters of a function and the declarations of its body have symbols of their own. -/
theorem locals_nodup (ready : Ready q F P) {d : FnDecl Mark}
    (node : .stmt (.fn d) ∈ q.program.nodes) :
    (q.paramSymbols d.params ++ q.valSymbols d.body.vals).Nodup := by
  have part : ((d.params.map Decl.param ++ d.body.vals.map Decl.val).map Decl.node).Sublist
      q.program.nodes := (locals_sublist d).trans (q.program.closed _ node).sublist
  have distinct := ready.cert.bound.symbols_nodup part (by
    intro e member f same
    subst same
    rcases List.mem_append.mp member with param | val
    · obtain ⟨_, _, same⟩ := List.mem_map.mp param
      cases same
    · obtain ⟨_, _, same⟩ := List.mem_map.mp val
      cases same)
  rwa [BoundProgram.symbolsOf, List.filterMap_append] at distinct

theorem call_fills (ready : Ready q F P) (n : Nat) (d : FnDecl Mark) (vs : List Literal)
    (node : .stmt (.fn d) ∈ q.program.nodes) : (q.call n d vs).Fills q.toBoundProgram [] := by
  induction n generalizing d vs with
  | zero => exact .throw _
  | succ n ih =>
    obtain ⟨_, _, _, _, _, typed, _⟩ := ready.cert.fn node
    obtain ⟨_, distinct, apart⟩ := List.nodup_append'.mp (ready.locals_nodup node)
    refine .inFrame (ready.evalExpr_fills (fun d vs node => ih d vs node) d.body
      (Program.body_of_fn node) typed) distinct fun x member => ?_
    exact Lexical.frameOf_keys q d vs fun own => apart own member

end Ready

end Solo

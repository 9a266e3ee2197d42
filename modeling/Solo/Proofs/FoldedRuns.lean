import Solo.Proofs.Settings
import Solo.Proofs.PureRuns

/-!
# Folded runs

A run with folded calls beside one without. Both go the same way and have the same values, except
that one of them leaves the folded calls out. What it misses are bindings declared inside such a
call, which nothing outside of it can name. So both print the same lines and end in the same way,
unless the evaluation of a folded call stumbles.
-/

namespace Solo

open Lexical (visible)

/-! ### Evaluations side by side -/

/-- Two evaluations with the same result and related states, unless the first one fails as `lost`
allows. -/
def Eval.Mirrors {α : Type} (rel : Machine → Machine → Prop) (lost : EvalError → Prop)
    (a a' : Eval α) (s s' : Machine) : Prop :=
  (∃ e, (a s).1 = .error e ∧ lost e) ∨ ((a' s').1 = (a s).1 ∧ rel (a s).2 (a' s').2)

namespace Eval.Mirrors

variable {rel : Machine → Machine → Prop} {lost lost' : EvalError → Prop} {α β : Type}
  {a a' : Eval α} {s s' : Machine}

theorem lose {e : EvalError} {s₁ : Machine} (run : a s = (.error e, s₁)) (holds : lost e) :
    a.Mirrors rel lost a' s s' :=
  .inl ⟨e, by rw [run], holds⟩

theorem both {r : Except EvalError α} {s₁ s₁' : Machine} (run : a s = (r, s₁))
    (run' : a' s' = (r, s₁')) (related : rel s₁ s₁') : a.Mirrors rel lost a' s s' := by
  refine .inr ⟨?_, ?_⟩ <;> rw [run, run']
  exact related

theorem pure (x : α) (related : rel s s') : Eval.Mirrors rel lost (Pure.pure x) (Pure.pure x) s s' :=
  both rfl rfl related

theorem throw (e : EvalError) (related : rel s s') :
    Eval.Mirrors rel lost (MonadExcept.throw e : Eval α) (MonadExcept.throw e) s s' :=
  both rfl rfl related

theorem weaken (mirrors : a.Mirrors rel lost' a' s s') (gives : ∀ e, lost' e → lost e) :
    a.Mirrors rel lost a' s s' := by
  rcases mirrors with ⟨e, fails, holds⟩ | same
  · exact .inl ⟨e, fails, gives e holds⟩
  · exact .inr same

theorem bind {f f' : α → Eval β} (first : a.Mirrors rel lost a' s s')
    (rest : ∀ x s₁ s₁', a s = (.ok x, s₁) → rel s₁ s₁' → (f x).Mirrors rel lost (f' x) s₁ s₁') :
    (a >>= f).Mirrors rel lost (a' >>= f') s s' := by
  cases run : a s with
  | mk r s₁ =>
    cases run' : a' s' with
    | mk r' s₁' =>
      rw [Mirrors, run, run'] at first
      rcases first with ⟨e, rfl, holds⟩ | ⟨rfl, related⟩
      · exact lose (Eval.bind_error run) holds
      · cases r' with
        | error e => exact both (Eval.bind_error run) (Eval.bind_error run') related
        | ok x =>
          rw [Mirrors, Eval.bind_ok run, Eval.bind_ok run']
          exact rest x s₁ s₁' run related

end Eval.Mirrors

/-! ### States side by side -/

/-- Frames that hold the same outside of some symbols. -/
def Alike (hidden : SymbolId → Prop) (frames frames' : List Frame) : Prop :=
  List.Forall₂ (fun f f' : Frame => ∀ x, ¬hidden x → f'.find? x = f.find? x) frames frames'

structure Machine.Alike (hidden : SymbolId → Prop) (s s' : Machine) : Prop where
  printed : s'.printed = s.printed
  frames : Solo.Alike hidden s.frames s'.frames

section
variable {hidden : SymbolId → Prop} {frames frames' : List Frame} {s s' : Machine}
  {lost : EvalError → Prop}

theorem Alike.refl (frames : List Frame) : Alike hidden frames frames := by
  induction frames with
  | nil => exact .nil
  | cons f outer ih => exact .cons (fun _ _ => rfl) ih

theorem Alike.tail (alike : Alike hidden frames frames') : Alike hidden frames.tail frames'.tail := by
  cases alike with
  | nil => exact .nil
  | cons _ rest => exact rest

theorem Alike.look (alike : Alike hidden frames frames') {x : SymbolId} (shown : ¬hidden x) :
    lookFrames x frames' = lookFrames x frames := by
  induction alike with
  | nil => rfl
  | cons same _ ih => rw [lookFrames, lookFrames, same x shown, ih]

theorem alike_insert {f f' : Frame} (same : ∀ x, ¬hidden x → f'.find? x = f.find? x) (x : SymbolId)
    (v : Literal) : ∀ y, ¬hidden y → (f'.insert x v).find? y = (f.insert x v).find? y := by
  intro y shown
  rw [Table.find?_insert, Table.find?_insert, same y shown]

theorem Alike.write (alike : Alike hidden frames frames') {x : SymbolId} (shown : ¬hidden x)
    (v : Literal) : Option.Rel (Alike hidden) (writeFrames x v frames) (writeFrames x v frames') := by
  induction alike with
  | nil => exact .none
  | @cons f f' outer outer' same rest ih =>
    have held : f'.contains x = f.contains x := by
      rw [Table.contains, Table.contains, same x shown]
    rw [writeFrames, writeFrames, held]
    split
    · exact .some (.cons (alike_insert same x v) rest)
    · generalize writeFrames x v outer = written, writeFrames x v outer' = written' at ih
      cases ih with
      | none => exact .none
      | some inner => exact .some (.cons same inner)

/-- What an evaluation touches inside hidden declarations makes no difference. -/
theorem Alike.touch {p : BoundProgram} {ns : List (Node Mark)} {frames'' : List Frame}
    (alike : Alike hidden frames frames'') (touches : Touches p ns frames frames')
    (hides : ∀ x v, (p.symbol x).decls.head? = some (.val v) → .stmt (.val v) ∈ ns → hidden x) :
    Alike hidden frames' frames'' := by
  cases touches with
  | nil => exact alike
  | cons own =>
    cases alike with
    | cons same rest =>
      refine .cons (fun x shown => ?_) rest
      rcases own x with kept | ⟨v, head, member⟩
      · rw [kept]
        exact same x shown
      · exact absurd (hides x v head member) shown

namespace Machine.Alike

theorem declare (alike : s.Alike hidden s') (x : SymbolId) (v : Literal) :
    (Eval.declare x v).Mirrors (Machine.Alike hidden) lost (Eval.declare x v) s s' := by
  obtain ⟨frames, printed, names⟩ := s
  obtain ⟨frames', printed', names'⟩ := s'
  obtain ⟨same, rest⟩ := alike
  cases rest with
  | nil => exact .both rfl rfl ⟨same, .nil⟩
  | cons own outer => exact .both rfl rfl ⟨same, .cons (alike_insert own x v) outer⟩

theorem apply (alike : s.Alike hidden s') (symbol : String) (result : Except OpError Literal) :
    (Eval.apply symbol result).Mirrors (Machine.Alike hidden) lost (Eval.apply symbol result) s s' := by
  cases result with
  | error e => cases e <;> exact .throw _ alike
  | ok v => cases v <;> exact .both rfl rfl ⟨alike.printed, alike.frames⟩

theorem print (alike : s.Alike hidden s') (line : String) :
    (Eval.print line).Mirrors (Machine.Alike hidden) lost (Eval.print line) s s' :=
  .both rfl rfl ⟨congrArg (line :: ·) alike.printed, alike.frames⟩

theorem push (alike : s.Alike hidden s') (f : Frame) :
    Machine.Alike hidden { s with frames := f :: s.frames } { s' with frames := f :: s'.frames } :=
  ⟨alike.printed, .cons (fun _ _ => rfl) alike.frames⟩

theorem inFrame {frame : Frame} {a a' : Eval Literal}
    (mirrors : a.Mirrors (Machine.Alike hidden) lost a' { s with frames := frame :: s.frames }
      { s' with frames := frame :: s'.frames }) :
    (Eval.inFrame frame a).Mirrors (Machine.Alike hidden) lost (Eval.inFrame frame a') s s' := by
  rcases mirrors with lost | ⟨same, alike⟩
  · exact .inl lost
  · exact .inr ⟨same, alike.printed, alike.frames.tail⟩

end Machine.Alike

end

/-! ### Folded calls -/

/-- A call of a program that a plan folds. -/
def Plan.Cuts (p : Plan) (e : Expr Mark) : Prop :=
  ∃ m f args, e = .call m f args ∧ .expr e ∈ p.program.nodes ∧ (p.folds.find? m.id).isSome = true

/-- A value that is declared inside a call that a plan folds. -/
def Plan.Hidden (p : Plan) (x : SymbolId) : Prop :=
  ∃ v e, (p.symbol x).decls.head? = some (.val v) ∧ p.Cuts e ∧ .stmt (.val v) ∈ e.nodes

/-- The evaluation of a call that another plan folds fails inside the call, at something that no
verdict of purity excludes. -/
def Plan.Misses (p p' : Plan) (c : Config) (err : EvalError) : Prop :=
  ∃ c' e, Relation.ReflTransGen p.Enters c c' ∧ c'.task = .expr e ∧ p'.Cuts e ∧ p.Trips c' err

/-- A failure that the run with folded calls may not have. -/
def Plan.Forfeits (p p' : Plan) (c : Config) (err : EvalError) : Prop :=
  (∃ k, err = .callDepthExceeded k) ∨ p.Misses p' c err

theorem Plan.Forfeits.enter {p p' : Plan} {c c' : Config} {err : EvalError}
    (forfeits : p.Forfeits p' c' err) (enters : p.Enters c c') : p.Forfeits p' c err := by
  refine forfeits.imp id ?_
  rintro ⟨c'', e, inside, rest⟩
  exact ⟨c'', e, .head enters inside, rest⟩

theorem Ready.inhabitant {q : Plan} {F : Checker} {P : Table NodeId Purity} (ready : Ready q F P)
    {m : Mark} {ty : TyNode Mark} {w : Witness}
    (node : .expr (.inhabitant m ty) ∈ q.program.nodes) (witness : F.witnesses.find? m.id = some w)
    (body : FnDecl Mark → List Literal → Eval Literal) :
    q.evalExpr body (.inhabitant m ty) = Pure.pure w.value := by
  rw [Plan.evalExpr, Plan.unlessFolded, ready.like.witnesses, witness]
  split
  · next v found =>
    obtain ⟨⟨owner, e⟩, inside, same, reason⟩ := ready.folds _ _ found
    cases ready.cert.bound.node_unique (Program.node_of_place inside) node same
    obtain ⟨w', witness', rfl⟩ := reason
    cases witness.symm.trans witness'
    rfl
  · rfl

/-- A plan without folded calls and one with. -/
structure Twins (p p' : Plan) (F : Checker) (P P₀ : Table NodeId Purity) : Prop where
  trusted : Trusted p F P P₀
  folded : Ready p' F P
  off : p.options.foldSingletonCalls = false
  program : p'.toBoundProgram = p.toBoundProgram
  depth : p'.options.maxCallDepth = p.options.maxCallDepth

/-- An evaluation that both plans begin. -/
structure Config.Shared (p p' : Plan) (F : Checker) (c : Config) : Prop where
  fine : c.Fine p F
  staged : ∃ owner env, Staged p.toBoundProgram p'.Cuts owner (fun _ => False) env c

namespace Twins

variable {p p' : Plan} {F : Checker} {P P₀ : Table NodeId Purity} (twins : Twins p p' F P P₀)
include twins

theorem nodeTypes : p'.checker.nodeTypes = p.checker.nodeTypes :=
  twins.folded.like.nodeTypes.trans twins.trusted.ready.like.nodeTypes.symm

theorem signatures : p'.checker.signatures = p.checker.signatures :=
  twins.folded.like.signatures.trans twins.trusted.ready.like.signatures.symm

theorem plain {e : Expr Mark} (node : .expr e ∈ p.program.nodes)
    (other : ∀ m ty, e ≠ .inhabitant m ty) : p.folds.find? e.id = none := by
  cases found : p.folds.find? e.id with
  | none => rfl
  | some v =>
    obtain ⟨⟨owner, e'⟩, inside, same, reason⟩ := twins.trusted.ready.folds _ _ found
    cases twins.trusted.ready.cert.bound.node_unique (Program.node_of_place inside) node same
    cases e' with
    | inhabitant m ty => exact absurd rfl (other m ty)
    | call m f args => cases reason.1.symm.trans twins.off
    | _ => exact reason.elim

theorem reason {owner : Option (FnDecl Mark)} {m : Mark} {f : Ident Mark} {args : List (Expr Mark)}
    {v : Literal} (place : ⟨owner, .call m f args⟩ ∈ p.program.places)
    (found : p'.folds.find? m.id = some v) :
    ∃ sig, F.signatures.find? m.id = some sig ∧ Sole p.toBoundProgram F sig.result v ∧
      (Expr.call m f args).Pure p.toBoundProgram F P owner fun _ => False := by
  obtain ⟨place', inside, same, reason⟩ := twins.folded.folds _ _ found
  rw [Place.Folded, twins.program] at reason
  rw [twins.program] at inside
  cases twins.trusted.ready.cert.bound.place_unique inside place same
  exact reason.2

theorem uncut {e : Expr Mark} (node : .expr e ∈ p.program.nodes)
    (other : ∀ m ty, e ≠ .inhabitant m ty) (uncut : ¬p'.Cuts e) : p'.folds.find? e.id = none := by
  cases found : p'.folds.find? e.id with
  | none => rfl
  | some v =>
    obtain ⟨⟨owner, e'⟩, inside, same, reason⟩ := twins.folded.folds _ _ found
    rw [← twins.program] at node
    cases twins.folded.cert.bound.node_unique (Program.node_of_place inside) node same
    cases e' with
    | inhabitant m ty => exact absurd rfl (other m ty)
    | call m f args =>
      exact absurd ⟨m, f, args, rfl, node, Option.isSome_iff_exists.mpr ⟨v, found⟩⟩ uncut
    | _ => exact reason.elim

/-- An evaluation begins shared ones only, if it is not that of a folded call. -/
theorem enters {c c' : Config} (shared : c.Shared p p' F) (enters : p.Enters c c')
    (uncut : ∀ e, c.task = .expr e → ¬p'.Cuts e) : c'.Shared p p' F := by
  have ready := twins.trusted.ready
  have spaced := twins.trusted.spaced
  refine ⟨ready.enters shared.fine enters, ?_⟩
  obtain ⟨owner, env, staged⟩ := shared.staged
  by_cases same : c'.left = c.left
  · obtain ⟨env', inner⟩ := staged.inside spaced ready.cert.bound enters same uncut
    exact ⟨owner, env', inner⟩
  · cases enters with
    | @body n s s' m f args vs sig kept first own found =>
      obtain ⟨x, target, overload, count⟩ := ready.called shared.fine first own found
      have reads : ∀ x ∈ visible env, ∀ d, p.Binds x d → False → Held x s'.frames := nofun
      obtain ⟨env', inner⟩ := staged.enterBody spaced ready.cert.bound target overload count reads
      exact ⟨_, env', inner⟩
    | _ => exact absurd rfl same

theorem shown {owner : Option (FnDecl Mark)} {R : SymbolId → Prop} {env : List LiveScope}
    {c : Config} (staged : Staged p.toBoundProgram p'.Cuts owner R env c) {x : SymbolId}
    (seen : x ∈ visible env) : ¬p'.Hidden x := by
  rintro ⟨v, e, head, cut, member⟩
  rw [twins.program] at head
  exact staged.bare x seen v head e cut member

/-! ### Names -/

theorem lookup {s s' : Machine} {lost : EvalError → Prop} (alike : s.Alike p'.Hidden s')
    {x : SymbolId} (shown : ¬p'.Hidden x) :
    (p.lookup x).Mirrors (Machine.Alike p'.Hidden) lost (p'.lookup x) s s' := by
  have run := p.lookup_apply x s
  have run' := p'.lookup_apply x s'
  rw [alike.frames.look shown, twins.program] at run'
  cases found : lookFrames x s.frames with
  | none =>
    rw [found] at run run'
    exact .both run run' alike
  | some v =>
    rw [found] at run run'
    exact .both run run' alike

theorem read {n : Nat} {s s' : Machine} {x : Ident Mark}
    (shared : Config.Shared p p' F ⟨n, .expr (.name x), s⟩) (alike : s.Alike p'.Hidden s')
    {lost : EvalError → Prop} :
    (p.read x).Mirrors (Machine.Alike p'.Hidden) lost (p'.read x) s s' := by
  obtain ⟨owner, env, staged⟩ := shared.staged
  obtain ⟨y, seen, target, _⟩ := staged.names
  rw [Plan.read, Plan.read, twins.program, target]
  exact twins.lookup alike (twins.shown staged seen)

theorem write {n : Nat} {s s₁ s₁' : Machine} {m : Mark} {x : Ident Mark} {e : Expr Mark}
    (shared : Config.Shared p p' F ⟨n, .expr (.assign m x e), s⟩) (alike : s₁.Alike p'.Hidden s₁')
    (v : Literal) {lost : EvalError → Prop} :
    (p.write x v).Mirrors (Machine.Alike p'.Hidden) lost (p'.write x v) s₁ s₁' := by
  obtain ⟨owner, env, staged⟩ := shared.staged
  obtain ⟨y, seen, target, _⟩ := staged.names.1.1
  have target' : p'.symbolAt? x.mark.id = some y := by rw [twins.program, target]
  have run := Plan.write_apply target v s₁
  have run' := Plan.write_apply target' v s₁'
  have written := alike.frames.write (twins.shown staged seen) v
  rw [twins.program] at run'
  generalize writeFrames y v s₁.frames = frames at run written
  generalize writeFrames y v s₁'.frames = frames' at run' written
  cases written with
  | none => exact .both run run' alike
  | some inner => exact .both run run' ⟨alike.printed, inner⟩

theorem matchesPat {n : Nat} {s s' : Machine} {v : Literal} {m : Mark} {a : Pat Mark} {e : Expr Mark}
    {arms : List (Arm Mark)} (shared : Config.Shared p p' F ⟨n, .arms v (⟨m, a, e⟩ :: arms), s⟩)
    (alike : s.Alike p'.Hidden s') {lost : EvalError → Prop} :
    (p.matchesPat v a).Mirrors (Machine.Alike p'.Hidden) lost (p'.matchesPat v a) s s' := by
  cases a with
  | wildcard => exact .pure _ alike
  | lit => exact .pure _ alike
  | typed m' ty =>
    obtain ⟨⟨_, _, ⟨t, noted, denotes⟩, _⟩, _⟩ := shared.fine
    obtain ⟨owner, env, staged⟩ := shared.staged
    rw [← twins.trusted.ready.like.nodeTypes] at noted
    rw [Plan.matchesPat, Plan.matchesPat, twins.nodeTypes, noted]
    cases t with
    | literal w => exact .pure _ alike
    | intrinsic k => cases k <;> exact .pure _ alike
    | path x =>
      have seen := Lexical.visible_of_denotes twins.trusted.ready.cert.bound denotes staged.legal
        staged.names.1 rfl
      exact .bind (twins.lookup alike (twins.shown staged seen))
        fun _ _ _ _ alike => .pure _ alike

/-! ### Trees -/

/-- A part that is mirrored for itself is mirrored for the whole. -/
theorem part {α : Type} {c c' : Config} {a a' : Eval α} {s s' : Machine} (shared : c.Shared p p' F)
    (uncut : ∀ e, c.task = .expr e → ¬p'.Cuts e) (enters : p.Enters c c')
    (mirrors : c'.Shared p p' F →
      a.Mirrors (Machine.Alike p'.Hidden) (p.Forfeits p' c') a' s s') :
    a.Mirrors (Machine.Alike p'.Hidden) (p.Forfeits p' c) a' s s' :=
  (mirrors (twins.enters shared enters uncut)).weaken fun _ forfeits => forfeits.enter enters

/-- The evaluation of a folded call has the value that the call was folded to. -/
theorem call {n : Nat} {s s' : Machine} {m : Mark} {f : Ident Mark} {args : List (Expr Mark)}
    {v : Literal} (shared : Config.Shared p p' F ⟨n, .expr (.call m f args), s⟩)
    (alike : s.Alike p'.Hidden s') (found : p'.folds.find? m.id = some v) :
    (p.evalExpr (p.call n) (.call m f args)).Mirrors (Machine.Alike p'.Hidden)
      (p.Forfeits p' ⟨n, .expr (.call m f args), s⟩) (Pure.pure v) s s' := by
  have ready := twins.trusted.ready
  obtain ⟨owner, env, staged⟩ := shared.staged
  have node : .expr (.call m f args) ∈ p.program.nodes := shared.fine.typed.1 (Expr.mem_nodes _)
  have cut : p'.Cuts (.call m f args) :=
    ⟨m, f, args, rfl, twins.program ▸ node, Option.isSome_iff_exists.mpr ⟨v, found⟩⟩
  obtain ⟨sig, signed, sole, pure⟩ :=
    twins.reason (staged.places (Expr.mem_places owner _)) found
  have sober : Config.Sober p F P ⟨n, .expr (.call m f args), s⟩ :=
    ⟨shared.fine, owner, _, env, staged.mono nofun, pure⟩
  have tidy := twins.trusted.tidy n _ s sober
  obtain ⟨⟨inside, t, typed⟩, fit⟩ := shared.fine
  have keeps := ready.evalExpr (ready.bodies n) _ inside typed s fit
  cases run : p.evalExpr (p.call n) (.call m f args) s with
  | mk r s₁ =>
    rw [Eval.Tidy, run] at tidy
    rw [run] at keeps
    cases r with
    | error err =>
      refine .lose run (tidy.imp id fun trips => ?_)
      exact ⟨_, _, .refl, rfl, cut, trips⟩
    | ok w =>
      have fits := (keeps.2 w rfl).1
      obtain ⟨_, x, types, target, _, ⟨role, _⟩ | ⟨_, sig', signed', _, _, rfl⟩⟩ := typed
      · obtain ⟨⟨x', target', role', _⟩, _⟩ := ready.cert.callee node signed
        cases target.symm.trans target'
        cases role.symm.trans role'
      · cases signed.symm.trans signed'
        obtain rfl := fits.eq_of_sole sole
        refine .both run rfl ⟨alike.printed.trans tidy.printed.symm, ?_⟩
        refine alike.frames.touch tidy.frames fun x d head member => ?_
        exact ⟨d, _, twins.program ▸ head, cut, member⟩

theorem unlessFolded {n : Nat} {s s' : Machine} {e : Expr Mark} {find find' : Eval Literal}
    (shared : Config.Shared p p' F ⟨n, .expr e, s⟩) (alike : s.Alike p'.Hidden s')
    (other : ∀ m ty, e ≠ .inhabitant m ty)
    (whole : p.evalExpr (p.call n) e = p.unlessFolded e.id find)
    (mirrors : (∀ e', Task.expr e = .expr e' → ¬p'.Cuts e') → p.folds.find? e.id = none →
      find.Mirrors (Machine.Alike p'.Hidden) (p.Forfeits p' ⟨n, .expr e, s⟩) find' s s') :
    (p.unlessFolded e.id find).Mirrors (Machine.Alike p'.Hidden) (p.Forfeits p' ⟨n, .expr e, s⟩)
      (p'.unlessFolded e.id find') s s' := by
  have node : .expr e ∈ p.program.nodes := shared.fine.typed.1 (Expr.mem_nodes _)
  by_cases cut : p'.Cuts e
  · obtain ⟨m, f, args, rfl, _, some⟩ := cut
    obtain ⟨v, found⟩ := Option.isSome_iff_exists.mp some
    have folded : p'.unlessFolded (Expr.call m f args).id find' = Pure.pure v := by
      change p'.unlessFolded m.id find' = _
      rw [Plan.unlessFolded, found]
    rw [← whole, folded]
    exact twins.call shared alike found
  · have kept := twins.plain node other
    rw [Plan.unlessFolded_kept _ kept, Plan.unlessFolded_kept _ (twins.uncut node other cut)]
    refine mirrors ?_ kept
    rintro _ ⟨⟩
    exact cut

theorem frameOf (d : FnDecl Mark) (vs : List Literal) : p'.frameOf d vs = p.frameOf d vs := by
  rw [Plan.frameOf, Plan.frameOf, twins.program]

section
variable {n : Nat}
  (bodies : ∀ k, n = k + 1 → ∀ e s s', Config.Shared p p' F ⟨k, .expr e, s⟩ → s.Alike p'.Hidden s' →
    (p.evalExpr (p.call k) e).Mirrors (Machine.Alike p'.Hidden) (p.Forfeits p' ⟨k, .expr e, s⟩)
      (p'.evalExpr (p'.call k) e) s s')
include bodies

theorem applyCall {s s₁ s₁' : Machine} {m : Mark} {f : Ident Mark} {args : List (Expr Mark)}
    {vs : List Literal} (shared : Config.Shared p p' F ⟨n, .expr (.call m f args), s⟩)
    (uncut : ∀ e, Task.expr (.call m f args) = .expr e → ¬p'.Cuts e)
    (kept : p.folds.find? m.id = none) (first : p.evalExprs (p.call n) args s = (.ok vs, s₁))
    (alike : s₁.Alike p'.Hidden s₁') :
    (p.applyCall (p.call n) m f vs).Mirrors (Machine.Alike p'.Hidden)
      (p.Forfeits p' ⟨n, .expr (.call m f args), s⟩) (p'.applyCall (p'.call n) m f vs) s₁ s₁' := by
  rw [Plan.applyCall, Plan.applyCall, twins.program, twins.signatures]
  split
  · exact .bind (alike.print _) fun _ _ _ _ alike => .pure _ alike
  · next own =>
    split
    · next sig found =>
      cases n with
      | zero => exact .lose rfl (.inl ⟨_, rfl⟩)
      | succ k =>
        have enters := Plan.Enters.body kept first ((Bool.not_eq_true _).mp own) found
        rw [Plan.call, Plan.call, twins.frameOf]
        refine Machine.Alike.inFrame (twins.part shared uncut enters fun inner => ?_)
        exact bodies k rfl _ _ _ inner (alike.push _)
    · exact .throw _ alike

set_option linter.unusedSectionVars false

mutual
theorem evalExpr : ∀ (e : Expr Mark) (s s' : Machine), Config.Shared p p' F ⟨n, .expr e, s⟩ →
    s.Alike p'.Hidden s' →
    (p.evalExpr (p.call n) e).Mirrors (Machine.Alike p'.Hidden) (p.Forfeits p' ⟨n, .expr e, s⟩)
      (p'.evalExpr (p'.call n) e) s s'
  | .lit l, s, s', shared, alike =>
    twins.unlessFolded (e := .lit l) shared alike nofun rfl fun _ _ => .pure _ alike
  | .name x, s, s', shared, alike =>
    twins.unlessFolded (e := .name x) shared alike nofun rfl fun _ _ => twins.read shared alike
  | .paren m e, s, s', shared, alike =>
    twins.unlessFolded (e := .paren m e) shared alike nofun rfl fun uncut kept =>
      twins.part shared uncut (.paren kept) fun inner => evalExpr e s s' inner alike
  | .unary m op e, s, s', shared, alike =>
    twins.unlessFolded (e := .unary m op e) shared alike nofun rfl fun uncut kept =>
      .bind (twins.part shared uncut (.unary kept) fun inner => evalExpr e s s' inner alike)
        fun _ _ _ _ alike => alike.apply _ _
  | .bin m op a b, s, s', shared, alike =>
    twins.unlessFolded (e := .bin m op a b) shared alike nofun rfl fun uncut kept => by
      refine .bind (twins.part shared uncut (.left kept) fun inner => evalExpr a s s' inner alike)
        fun v s₁ s₁' left alike => ?_
      split
      · exact .pure _ alike
      · next both =>
        exact .bind (twins.part shared uncut (.right kept left both) fun inner =>
          evalExpr b s₁ s₁' inner alike) fun _ _ _ _ alike => alike.apply _ _
  | .call m f args, s, s', shared, alike =>
    twins.unlessFolded (e := .call m f args) shared alike nofun rfl fun uncut kept =>
      .bind (twins.part shared uncut (.args kept) fun inner => evalExprs args s s' inner alike)
        fun _ _ _ first alike => twins.applyCall bodies shared uncut kept first alike
  | .block m ss last, s, s', shared, alike =>
    twins.unlessFolded (e := .block m ss last) shared alike nofun rfl fun uncut kept =>
      .bind (twins.part shared uncut (.block kept) fun inner => evalStmts ss s s' inner alike)
        fun _ s₁ s₁' first alike =>
          twins.part shared uncut (.tail kept first) fun inner => evalTail last s₁ s₁' inner alike
  | .assign m x e, s, s', shared, alike =>
    twins.unlessFolded (e := .assign m x e) shared alike nofun rfl fun uncut kept =>
      .bind (twins.part shared uncut (.assign kept) fun inner => evalExpr e s s' inner alike)
        fun v _ _ _ alike => .bind (twins.write shared alike v) fun _ _ _ _ alike => .pure _ alike
  | .cases m e arms, s, s', shared, alike =>
    twins.unlessFolded (e := .cases m e arms) shared alike nofun rfl fun uncut kept =>
      .bind (twins.part shared uncut (.scrutinee kept) fun inner => evalExpr e s s' inner alike)
        fun v s₁ s₁' first alike => twins.part shared uncut (.arms kept first) fun inner =>
          evalArms v arms s₁ s₁' inner alike
  | .inhabitant m ty, s, s', shared, alike => by
    have node : .expr (.inhabitant m ty) ∈ p.program.nodes := shared.fine.typed.1 (Expr.mem_nodes _)
    obtain ⟨⟨_, _, _, _, w, witness, _⟩, _⟩ := shared.fine
    rw [twins.trusted.ready.inhabitant node witness, twins.folded.inhabitant ?_ witness]
    · exact .pure _ alike
    · rw [twins.program]
      exact node
  | .host m text, s, s', shared, alike =>
    twins.unlessFolded (e := .host m text) shared alike nofun rfl fun _ _ => .pure _ alike

theorem evalExprs : ∀ (es : List (Expr Mark)) (s s' : Machine),
    Config.Shared p p' F ⟨n, .exprs es, s⟩ → s.Alike p'.Hidden s' →
    (p.evalExprs (p.call n) es).Mirrors (Machine.Alike p'.Hidden) (p.Forfeits p' ⟨n, .exprs es, s⟩)
      (p'.evalExprs (p'.call n) es) s s'
  | [], _, _, _, alike => .pure _ alike
  | e :: es, s, s', shared, alike =>
    .bind (twins.part shared nofun .arg fun inner => evalExpr e s s' inner alike)
      fun _ s₁ s₁' first alike =>
        .bind (twins.part shared nofun (.nextArgs first) fun inner => evalExprs es s₁ s₁' inner alike)
          fun _ _ _ _ alike => .pure _ alike

theorem evalTail : ∀ (last : Option (Expr Mark)) (s s' : Machine),
    Config.Shared p p' F ⟨n, .tail last, s⟩ → s.Alike p'.Hidden s' →
    (p.evalTail (p.call n) last).Mirrors (Machine.Alike p'.Hidden)
      (p.Forfeits p' ⟨n, .tail last, s⟩) (p'.evalTail (p'.call n) last) s s'
  | none, _, _, _, alike => .pure _ alike
  | some e, s, s', shared, alike =>
    twins.part shared nofun .last fun inner => evalExpr e s s' inner alike

theorem evalArms (v : Literal) : ∀ (arms : List (Arm Mark)) (s s' : Machine),
    Config.Shared p p' F ⟨n, .arms v arms, s⟩ → s.Alike p'.Hidden s' →
    (p.evalArms (p.call n) v arms).Mirrors (Machine.Alike p'.Hidden)
      (p.Forfeits p' ⟨n, .arms v arms, s⟩) (p'.evalArms (p'.call n) v arms) s s'
  | [], _, _, _, alike => .throw _ alike
  | ⟨m, a, e⟩ :: arms, s, s', shared, alike => by
    refine .bind (twins.matchesPat shared alike) fun hit s₁ s₁' first alike => ?_
    cases hit with
    | true =>
      exact twins.part shared nofun (.arm first) fun inner => evalExpr e s₁ s₁' inner alike
    | false =>
      exact twins.part shared nofun (.nextArms first) fun inner => evalArms v arms s₁ s₁' inner alike

theorem evalStmt : ∀ (t : Stmt Mark) (s s' : Machine), Config.Shared p p' F ⟨n, .stmt t, s⟩ →
    s.Alike p'.Hidden s' →
    (p.evalStmt (p.call n) t).Mirrors (Machine.Alike p'.Hidden) (p.Forfeits p' ⟨n, .stmt t, s⟩)
      (p'.evalStmt (p'.call n) t) s s'
  | .val ⟨m, kind, name, ty, e⟩, s, s', shared, alike => by
    rw [Plan.evalStmt, Plan.evalStmt, twins.program]
    refine .bind (twins.part shared nofun .init fun inner => evalExpr e s s' inner alike)
      fun v _ _ _ alike => ?_
    split
    · exact alike.declare _ v
    · exact .pure _ alike
  | .expr m e, s, s', shared, alike =>
    .bind (twins.part shared nofun .effect fun inner => evalExpr e s s' inner alike)
      fun _ _ _ _ alike => .pure _ alike
  | .typeAlias _, _, _, _, alike => .pure _ alike
  | .fn _, _, _, _, alike => .pure _ alike

theorem evalStmts : ∀ (ss : List (Stmt Mark)) (s s' : Machine),
    Config.Shared p p' F ⟨n, .stmts ss, s⟩ → s.Alike p'.Hidden s' →
    (p.evalStmts (p.call n) ss).Mirrors (Machine.Alike p'.Hidden) (p.Forfeits p' ⟨n, .stmts ss, s⟩)
      (p'.evalStmts (p'.call n) ss) s s'
  | [], _, _, _, alike => .pure _ alike
  | t :: ss, s, s', shared, alike =>
    .bind (twins.part shared nofun .stmt fun inner => evalStmt t s s' inner alike)
      fun _ s₁ s₁' first alike => twins.part shared nofun (.nextStmts first) fun inner =>
        evalStmts ss s₁ s₁' inner alike
end

end

theorem mirrors (n : Nat) (e : Expr Mark) (s s' : Machine)
    (shared : Config.Shared p p' F ⟨n, .expr e, s⟩) (alike : s.Alike p'.Hidden s') :
    (p.evalExpr (p.call n) e).Mirrors (Machine.Alike p'.Hidden) (p.Forfeits p' ⟨n, .expr e, s⟩)
      (p'.evalExpr (p'.call n) e) s s' := by
  induction n generalizing e s s' with
  | zero => exact twins.evalExpr (fun k same => absurd same (Nat.succ_ne_zero k).symm) e s s' shared alike
  | succ n ih =>
    refine twins.evalExpr ?_ e s s' shared alike
    rintro _ ⟨⟩ e s s' shared alike
    exact ih e s s' shared alike

theorem start : p.begin.Shared p p' F := by
  refine ⟨twins.trusted.ready.reached .refl, none, _, Staged.start twins.trusted.spaced
    twins.trusted.ready.cert.bound ?_⟩
  rintro e ⟨_, _, _, rfl, node, _⟩
  rw [twins.program] at node
  exact ((stmts_closed _) _ (Program.mem_stmtsNodes node nofun)).subset

/-- Both runs print the same and end in the same way, unless the one without folded calls forfeits
that. -/
theorem outcome : (∃ err, p.outcome.error = some err ∧ p.Forfeits p' p.begin err) ∨
    (p'.outcome.output = p.outcome.output ∧ p'.outcome.error = p.outcome.error) := by
  have bodies : ∀ k, p.options.maxCallDepth = k + 1 → ∀ e s s', Config.Shared p p' F ⟨k, .expr e, s⟩ →
      s.Alike p'.Hidden s' → (p.evalExpr (p.call k) e).Mirrors (Machine.Alike p'.Hidden)
        (p.Forfeits p' ⟨k, .expr e, s⟩) (p'.evalExpr (p'.call k) e) s s' :=
    fun k _ e s s' shared alike => twins.mirrors k e s s' shared alike
  have alike : p.begin.machine.Alike p'.Hidden p'.begin.machine := ⟨rfl, .refl _⟩
  have same : p'.run = p'.evalStmts (p'.call p.options.maxCallDepth) p.program.stmts := by
    rw [Plan.run, twins.depth, twins.program]
  have runs : p.run.Mirrors (Machine.Alike p'.Hidden) (p.Forfeits p' p.begin) p'.run p.begin.machine
      p'.begin.machine := by
    rw [same]
    exact twins.evalStmts bodies p.program.stmts _ _ twins.start alike
  rcases runs with ⟨err, fails, forfeits⟩ | ⟨result, state⟩
  · refine .inl ⟨err, ?_, forfeits⟩
    rw [p.outcome_error, Eval.failure?, fails]
  · refine .inr ⟨congrArg List.reverse state.printed, ?_⟩
    rw [p.outcome_error, p'.outcome_error, Eval.failure?, Eval.failure?, result]

end Twins

/-! ### Runs of checked drafts -/

/-- The plans of a draft with the switch off and on. -/
theorem Draft.twins {d : Draft} {o : Options} {q : Checked} {plain folded : Plan}
    (legible : (d.context o).program.Legible) (passes : d.Passes (o.switch false) q)
    (plans : q.Plans plain) (plans' : (q.switch true).Plans folded) :
    Twins plain folded q.checker folded.checker.purities plain.checker.purities := by
  have passes' : d.Passes (o.switch true) (q.switch true) := passes.switch true
  obtain ⟨context, ready⟩ := plans.ready passes
  obtain ⟨context', ready'⟩ := plans'.ready passes'
  have same : folded.toBoundProgram = plain.toBoundProgram := by
    rw [context, context']
    rfl
  have verdicts := plans'.verdicts passes'
  rw [same] at verdicts
  refine ⟨⟨ready, ?_, verdicts⟩, ready', ?_, same, ?_⟩
  · rw [context]
    exact d.spaced _ legible
  · rw [context]
    rfl
  · rw [context, context']
    rfl

/-- A draft that was checked without an error is checked without one, and has a run, with the switch
for folding on as with the switch off. If the run with the switch off does not go too many calls
deep then both print the same lines and end in the same way, unless that run fails inside of a
folded call: at a pattern that asks for a binding without a value, or at a null string that is
joined to what is no string. -/
theorem folding_keeps_runs (d : Draft) (o : Options) (legible : (d.context o).program.Legible)
    (q : Checked) (plain : Plan) (passes : d.Passes (o.switch false) q) (plans : q.Plans plain)
    (shallow : ∀ k, plain.outcome.error ≠ some (.callDepthExceeded k)) :
    ∃ q' folded, d.Passes (o.switch true) q' ∧ q'.Plans folded ∧
      q'.allDiagnostics = q.allDiagnostics ∧
      ((folded.outcome.output = plain.outcome.output ∧
          folded.outcome.error = plain.outcome.error) ∨
        ∃ c e c' err, plain.Reached c ∧ c.task = .expr e ∧ folded.Cuts e ∧
          Relation.ReflTransGen plain.Enters c c' ∧ plain.Stumbles c' err ∧
          plain.outcome.error = some err) := by
  have passes' : d.Passes (o.switch true) (q.switch true) := passes.switch true
  obtain ⟨folded, plans'⟩ := passes'.plans
  refine ⟨q.switch true, folded, passes', plans', rfl, ?_⟩
  rcases (Draft.twins legible passes plans plans').outcome with ⟨err, fails, forfeits⟩ | same
  · rcases forfeits with ⟨k, rfl⟩ | ⟨c, e, reached, task, cut, c', inside, stumbles⟩
    · exact absurd fails (shallow k)
    · exact .inr ⟨c, e, c', err, reached, task, cut, inside, stumbles, fails⟩
  · exact .inl same

/-- A draft with a call that is folded, whose argument declares a value. -/
def Draft.leftOut : Draft where
  text := "def one(n: Int): 1 = 1 println(one({ val k = 2 k + 1 }))"
  stmts :=
    [.fn ⟨[], ⟨[], "one"⟩, [⟨[], ⟨[], "n"⟩, .refer [] ⟨[], "Int"⟩⟩],
        some (.lit [] ⟨[], .int 1⟩ false), .lit ⟨[], .int 1⟩⟩,
      .expr [] (.call [] ⟨[], "println"⟩ [.call [] ⟨[], "one"⟩
        [.block [] [.val ⟨[], .val, ⟨[], "k"⟩, none, .lit ⟨[], .int 2⟩⟩]
          (some (.bin [] (.arith .add) (.name ⟨[], "k"⟩) (.lit ⟨[], .int 1⟩)))]])]

theorem folding_keeps_runs_leftOut : ∃ q folded,
    Draft.leftOut.Passes ((default : Options).switch true) q ∧ q.Plans folded ∧
      folded.outcome.output = ["1"] ∧ folded.outcome.error = none := by
  obtain ⟨q, plain, passes, plans, found⟩ := Draft.plan?_any .leftOut ((default : Options).switch false)
    (fun (_, plan) => plan.outcome.output == ["1"] && plan.outcome.error.isNone) (by decide +kernel)
  simp only [Bool.and_eq_true, beq_iff_eq, Option.isNone_iff_eq_none] at found
  obtain ⟨output, error⟩ := found
  have legible : (Draft.leftOut.context default).program.Legible := by decide +kernel
  have shallow : ∀ k, plain.outcome.error ≠ some (.callDepthExceeded k) := by
    rw [error]
    exact nofun
  obtain ⟨q', folded, passes', plans', _, same | ⟨_, _, _, err, _, _, _, _, _, fails⟩⟩ :=
    folding_keeps_runs .leftOut default legible q plain passes plans shallow
  · exact ⟨q', folded, passes', plans', same.1.trans output, same.2.trans error⟩
  · cases error.symm.trans fails

/-- A draft with a call that is folded, though a pattern in it asks for a binding that has no value
yet. -/
def Draft.unsetPattern : Draft where
  text := "def f(): 7 = 1 match { case _: y.type => 7 case _ => 7 } println(f()) val y: Int = 1"
  stmts :=
    [.fn ⟨[], ⟨[], "f"⟩, [], some (.lit [] ⟨[], .int 7⟩ false),
        .cases [] (.lit ⟨[], .int 1⟩)
          [⟨[], .typed [] (.singleton [] (.name ⟨[], "y"⟩)), .lit ⟨[], .int 7⟩⟩,
            ⟨[], .wildcard [], .lit ⟨[], .int 7⟩⟩]⟩,
      .expr [] (.call [] ⟨[], "println"⟩ [.call [] ⟨[], "f"⟩ []]),
      .val ⟨[], .val, ⟨[], "y"⟩, some (.refer [] ⟨[], "Int"⟩), .lit ⟨[], .int 1⟩⟩]

/-- Its run fails, and with the call folded it does not. -/
theorem folding_hides_failure :
    (∀ n ∈ (Draft.unsetPattern.context default).program.nodes, n.Shown) ∧
    (∃ q plain, Draft.unsetPattern.Passes ((default : Options).switch false) q ∧ q.Plans plain ∧
      plain.outcome.output = [] ∧ plain.outcome.error = some (.uninitialized "y")) ∧
    ∃ q folded, Draft.unsetPattern.Passes ((default : Options).switch true) q ∧ q.Plans folded ∧
      folded.outcome.output = ["7"] ∧ folded.outcome.error = none := by
  refine ⟨by decide +kernel, ?_, ?_⟩
  · obtain ⟨q, plain, passes, plans, found⟩ := Draft.plan?_any .unsetPattern
      ((default : Options).switch false) (fun (_, plan) => plan.outcome.output == [] &&
        plan.outcome.error == some (.uninitialized "y")) (by decide +kernel)
    simp only [Bool.and_eq_true, beq_iff_eq] at found
    exact ⟨q, plain, passes, plans, found⟩
  · obtain ⟨q, folded, passes, plans, found⟩ := Draft.plan?_any .unsetPattern
      ((default : Options).switch true) (fun (_, plan) => plan.outcome.output == ["7"] &&
        plan.outcome.error.isNone) (by decide +kernel)
    simp only [Bool.and_eq_true, beq_iff_eq, Option.isNone_iff_eq_none] at found
    exact ⟨q, folded, passes, plans, found⟩

end Solo

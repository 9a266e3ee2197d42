import Solo.Proofs.Failures
import Solo.Proofs.Slots

/-!
# Histories of runs

A run in the order of time. An evaluation has a beginning and an end; `Leads` says which of them
comes after which, so that a path of it is a part of the run's history. A frame is there along a
path as long as the frames never get fewer than to hold it. Along such a path the stable bindings
of the frame keep their values, and no binding of it is declared a second time.
-/

namespace Solo

open Lexical (slot?)

/-- The beginning or the end of an evaluation. -/
inductive Instant where
  | begun (c : Config)
  | ended (c : Config)

namespace Plan

section
variable (p : Plan)

def framesAt : Instant → List Frame
  | .begun c => c.machine.frames
  | .ended c => (p.after c).frames

/-- The innermost activation, counted from the outermost one. -/
def innermostAt (t : Instant) : Nat := (p.framesAt t).length - 1

/-- An evaluation begins another one and, when that is over, a second one. -/
inductive Turns : Config → Config → Config → Prop
  | right {n : Nat} {s s' : Machine} {m : Mark} {op : BinOp} {a b : Expr Mark} {v : Literal}
      (kept : p.folds.find? m.id = none) (first : p.evalExpr (p.call n) a s = (.ok v, s'))
      (both : ¬op.Short v) :
    Turns ⟨n, .expr (.bin m op a b), s⟩ ⟨n, .expr a, s⟩ ⟨n, .expr b, s'⟩
  | body {n : Nat} {s s' : Machine} {m : Mark} {f : Ident Mark} {args : List (Expr Mark)}
      {vs : List Literal} {sig : Signature} (kept : p.folds.find? m.id = none)
      (first : p.evalExprs (p.call (n + 1)) args s = (.ok vs, s'))
      (own : (p.symbolAt? f.mark.id).any (fun x => (p.symbol x).role = .builtin) = false)
      (found : p.checker.signatures.find? m.id = some sig) :
    Turns ⟨n + 1, .expr (.call m f args), s⟩ ⟨n + 1, .exprs args, s⟩
      ⟨n, .expr sig.decl.body, { s' with frames := p.frameOf sig.decl vs :: s'.frames }⟩
  | tail {n : Nat} {s s' : Machine} {m : Mark} {ss : List (Stmt Mark)} {tail : Option (Expr Mark)}
      (kept : p.folds.find? m.id = none) (first : p.evalStmts (p.call n) ss s = (.ok (), s')) :
    Turns ⟨n, .expr (.block m ss tail), s⟩ ⟨n, .stmts ss, s⟩ ⟨n, .tail tail, s'⟩
  | arms {n : Nat} {s s' : Machine} {m : Mark} {e : Expr Mark} {arms : List (Arm Mark)} {v : Literal}
      (kept : p.folds.find? m.id = none) (first : p.evalExpr (p.call n) e s = (.ok v, s')) :
    Turns ⟨n, .expr (.cases m e arms), s⟩ ⟨n, .expr e, s⟩ ⟨n, .arms v arms, s'⟩
  | nextArgs {n : Nat} {s s' : Machine} {e : Expr Mark} {es : List (Expr Mark)} {v : Literal}
      (first : p.evalExpr (p.call n) e s = (.ok v, s')) :
    Turns ⟨n, .exprs (e :: es), s⟩ ⟨n, .expr e, s⟩ ⟨n, .exprs es, s'⟩
  | nextStmts {n : Nat} {s s' : Machine} {t : Stmt Mark} {ss : List (Stmt Mark)}
      (first : p.evalStmt (p.call n) t s = (.ok (), s')) :
    Turns ⟨n, .stmts (t :: ss), s⟩ ⟨n, .stmt t, s⟩ ⟨n, .stmts ss, s'⟩

/-- What comes next in the history of a run. -/
inductive Leads : Instant → Instant → Prop
  /-- An evaluation begins another one. -/
  | enter {c c' : Config} (reached : p.Reached c) (enters : p.Enters c c') :
    Leads (.begun c) (.begun c')
  /-- What is begun is over in the end. -/
  | leave {c : Config} (reached : p.Reached c) : Leads (.begun c) (.ended c)
  /-- When one part is over, the next one is begun. -/
  | turn {c first second : Config} (reached : p.Reached c) (turns : p.Turns c first second) :
    Leads (.ended first) (.begun second)
  /-- When its parts are over, an evaluation gets to its own end. -/
  | rise {c c' : Config} (reached : p.Reached c) (enters : p.Enters c c') :
    Leads (.ended c') (.ended c)

/-- A part of the history of a run in which the frame of an activation is not taken away. -/
def Lasts (a : Nat) (t t' : Instant) : Prop :=
  a < (p.framesAt t).length ∧
    Relation.ReflTransGen (fun t t' => p.Leads t t' ∧ a < (p.framesAt t').length) t t'

/-- In the history of a run, symbols are bound in the innermost frame: by a declaration when its
initializer is over, or by a call when its arguments are. -/
inductive Initializes : Instant → Instant → List SymbolId → Prop
  | declare {n : Nat} {s s' : Machine} {d : ValDecl Mark} {v : Literal} {x : SymbolId}
      (reached : p.Reached ⟨n, .stmt (.val d), s⟩)
      (init : p.evalExpr (p.call n) d.init s = (.ok v, s'))
      (target : p.symbolAt? d.mark.id = some x) :
    Initializes (.ended ⟨n, .expr d.init, s⟩) (.ended ⟨n, .stmt (.val d), s⟩) [x]
  | params {n : Nat} {s s' : Machine} {m : Mark} {f : Ident Mark} {args : List (Expr Mark)}
      {vs : List Literal} {sig : Signature} (reached : p.Reached ⟨n + 1, .expr (.call m f args), s⟩)
      (kept : p.folds.find? m.id = none)
      (first : p.evalExprs (p.call (n + 1)) args s = (.ok vs, s'))
      (own : (p.symbolAt? f.mark.id).any (fun x => (p.symbol x).role = .builtin) = false)
      (found : p.checker.signatures.find? m.id = some sig) :
    Initializes (.ended ⟨n + 1, .exprs args, s⟩)
      (.begun ⟨n, .expr sig.decl.body, { s' with frames := p.frameOf sig.decl vs :: s'.frames }⟩)
      (p.paramSymbols sig.decl.params)

end

end Plan

theorem Plan.Lasts.there {p : Plan} {a : Nat} {t t' : Instant} (lasts : p.Lasts a t t') :
    a < (p.framesAt t').length := by
  obtain ⟨start, path⟩ := lasts
  cases path with
  | refl => exact start
  | tail _ step => exact step.2

/-! ### Blank evaluations -/

/-- The slots of the declarations that an evaluation is going to run are empty. -/
def Config.Blank (q : Plan) (c : Config) : Prop :=
  Solo.Blank (q.valSymbols c.task.vals) c.machine.frames

namespace Ready

variable {q : Plan} {F : Checker} {P : Table NodeId Purity} {c c' : Config}

theorem changes (ready : Ready q F P) (fine : c.Fine q F) (blank : c.Blank q) :
    Changes q.toBoundProgram (q.valSymbols c.task.vals) c.machine.frames (q.after c).frames := by
  obtain ⟨n, task, s⟩ := c
  obtain ⟨typed, -⟩ := fine
  have bodies := ready.call_fills n
  cases task with
  | expr e =>
    obtain ⟨inside, t, typed⟩ := typed
    exact ready.evalExpr_fills bodies e inside typed s blank
  | exprs es =>
    obtain ⟨inside, ts, typed⟩ := typed
    exact ready.evalExprs_fills bodies es inside typed s blank
  | tail tail =>
    obtain ⟨inside, t, typed⟩ := typed
    exact ready.evalTail_fills bodies tail inside typed s blank
  | arms v arms =>
    obtain ⟨inside, t, typed⟩ := typed
    exact ready.evalArms_fills bodies v arms inside typed s blank
  | stmt t => exact ready.evalStmt_fills bodies t typed.1 typed.2 s blank
  | stmts ss => exact ready.evalStmts_fills bodies ss typed.1 typed.2 s blank

/-- What comes second finds the slots as the first part left them. -/
theorem blank_second (ready : Ready q F P) {first : Config} (fine : first.Fine q F)
    {rest : List (ValDecl Mark)} {s' : Machine} (ending : q.after first = s')
    (blank : Solo.Blank (q.valSymbols (first.task.vals ++ rest)) first.machine.frames) :
    Solo.Blank (q.valSymbols rest) s'.frames := by
  rw [BoundProgram.valSymbols_append] at blank
  exact ending ▸ (ready.changes fine blank.left).blank blank

theorem blank_first {ds es : List (ValDecl Mark)} {frames : List Frame}
    (blank : Solo.Blank (q.valSymbols (ds ++ es)) frames) : Solo.Blank (q.valSymbols ds) frames := by
  rw [BoundProgram.valSymbols_append] at blank
  exact blank.left

theorem blank_rest {ds es : List (ValDecl Mark)} {frames : List Frame}
    (blank : Solo.Blank (q.valSymbols (ds ++ es)) frames) : Solo.Blank (q.valSymbols es) frames := by
  rw [BoundProgram.valSymbols_append] at blank
  exact blank.right

theorem blank_enters (ready : Ready q F P) (fine : c.Fine q F) (blank : c.Blank q)
    (enters : q.Enters c c') : c'.Blank q := by
  cases enters with
  | paren | unary | args | assign | last | effect => exact blank
  | left | block | scrutinee | arg | stmt => exact blank_first blank
  | @init n s d =>
    obtain ⟨m, kind, x, ty, e⟩ := d
    exact blank_first blank
  | right kept first =>
    exact ready.blank_second (ready.enters fine (.left kept)) (congrArg Prod.snd first) blank
  | tail kept first =>
    exact ready.blank_second (ready.enters fine (.block kept)) (congrArg Prod.snd first) blank
  | arms kept first =>
    exact ready.blank_second (ready.enters fine (.scrutinee kept)) (congrArg Prod.snd first) blank
  | nextArgs first =>
    exact ready.blank_second (ready.enters fine .arg) (congrArg Prod.snd first) blank
  | nextStmts first =>
    exact ready.blank_second (ready.enters fine .stmt) (congrArg Prod.snd first) blank
  | @arm n s s' m a e arms v first =>
    obtain rfl : s = s' := (q.matchesPat_state v a s).symm.trans (congrArg Prod.snd first)
    exact blank_first blank
  | @nextArms n s s' m a e arms v first =>
    obtain rfl : s = s' := (q.matchesPat_state v a s).symm.trans (congrArg Prod.snd first)
    exact blank_rest blank
  | @body n s s' m f args vs sig kept first own found =>
    obtain ⟨inside, -⟩ := fine.typed
    rw [ready.like.signatures] at found
    have node := (ready.cert.callee (inside (Expr.mem_nodes (.call m f args))) found).2
    obtain ⟨_, distinct, apart⟩ := List.nodup_append'.mp (ready.locals_nodup node)
    exact .push distinct (fun x member => Lexical.frameOf_keys q sig.decl vs fun own =>
      apart own member) s'.frames

theorem blank_reached (ready : Ready q F P) (reached : q.Reached c) : c.Blank q := by
  induction reached with
  | refl =>
    have part : ((stmtsVals q.program.stmts).map ValDecl.node).Sublist q.program.nodes :=
      (stmts_vals_sublist _).trans (List.sublist_append_left _ _)
    have distinct : (q.valSymbols (stmtsVals q.program.stmts)).Nodup := by
      refine ready.cert.bound.symbols_nodup ?_ ?_
      · rw [List.map_map]
        exact part
      · intro d member f same
        subst same
        obtain ⟨_, _, same⟩ := List.mem_map.mp member
        cases same
    exact .push distinct (fun _ _ => rfl) []
  | tail before step ih => exact ready.blank_enters (ready.reached before) ih step

end Ready

/-! ### Steps of a history -/

/-- What lasts from one moment to another: the slots of the frames that are still there, and in
them the values of the stable bindings. -/
structure Preserves (p : BoundProgram) (frames frames' : List Frame) : Prop where
  grows : ∀ a x, a < frames'.length → (slot? a x frames).isSome = true →
    (slot? a x frames').isSome = true
  stable : ∀ a x v, a < frames'.length → (p.symbol x).role.isStable = true →
    slot? a x frames = some v → slot? a x frames' = some v

namespace Preserves

variable {p : BoundProgram} {frames frames' : List Frame}

theorem ofChanges {xs : List SymbolId} (changes : Changes p xs frames frames') :
    Preserves p frames frames' :=
  ⟨fun a x _ => changes.grows a x, fun a x v _ => changes.stable a x v⟩

theorem refl (frames : List Frame) : Preserves p frames frames := ofChanges (.refl [] frames)

theorem push {xs : List SymbolId} (changes : Changes p xs frames frames') (f : Frame) :
    Preserves p frames (f :: frames') := by
  have same : ∀ {a x v}, slot? a x frames' = some v → slot? a x (f :: frames') = some v := by
    intro a x v found
    rwa [slot?_below _ _ (Nat.ne_of_lt (Lexical.slot?_lt found))]
  refine ⟨fun a x _ held => ?_, fun a x v _ isStable found => ?_⟩
  · obtain ⟨v, found⟩ := Option.isSome_iff_exists.mp (changes.grows a x held)
    exact Option.isSome_iff_exists.mpr ⟨v, same found⟩
  · exact same (changes.stable a x v isStable found)

theorem pop (frames : List Frame) : Preserves p frames frames.tail := by
  cases frames with
  | nil => exact refl []
  | cons f outer =>
    rw [List.tail_cons]
    refine ⟨fun a x low held => ?_, fun a x v low _ found => ?_⟩
    · rwa [slot?_below _ _ (Nat.ne_of_lt low)] at held
    · rwa [slot?_below _ _ (Nat.ne_of_lt low)] at found

end Preserves

/-- Frames that change as some evaluation changes them. -/
def Evolves (p : BoundProgram) (frames frames' : List Frame) : Prop :=
  ∃ xs, Changes p xs frames frames'

namespace Evolves

variable {α β : Type} {p : BoundProgram} {a : Eval α} {f : α → Eval β} {s : Machine}

theorem still {frames frames' : List Frame} (same : frames' = frames) : Evolves p frames frames' :=
  same ▸ ⟨[], .refl _ _⟩

theorem rest (later : ∀ x s', a s = (.ok x, s') → Evolves p s'.frames (f x s').2.frames) :
    Evolves p (a s).2.frames ((a >>= f) s).2.frames := by
  rw [Eval.bind_apply]
  split
  · next x s' run =>
    rw [run]
    exact later x s' run
  · next e s' run =>
    rw [run]
    exact still rfl

theorem bind (first : Evolves p s.frames (a s).2.frames)
    (later : ∀ x s', a s = (.ok x, s') → Evolves p s'.frames (f x s').2.frames) :
    Evolves p s.frames ((a >>= f) s).2.frames := by
  obtain ⟨xs, first⟩ := first
  obtain ⟨ys, second⟩ := rest later
  exact ⟨xs ++ ys, first.trans second⟩

theorem apply (symbol : String) (result : Except OpError Literal) (s : Machine) :
    Evolves p s.frames (Eval.apply symbol result s).2.frames := by
  refine still ?_
  cases result with
  | error e => cases e <;> rfl
  | ok v => cases v <;> rfl

theorem preserves {frames frames' : List Frame} (evolves : Evolves p frames frames') :
    Preserves p frames frames' :=
  .ofChanges evolves.choose_spec

end Evolves

namespace Ready

variable {q : Plan} {F : Checker} {P : Table NodeId Purity} {c c' : Config}

/-- From the beginning of a part to its end. -/
theorem evolves (ready : Ready q F P) (fine : c.Fine q F) (blank : c.Blank q)
    (enters : q.Enters c c') :
    Evolves q.toBoundProgram c'.machine.frames (q.after c').frames :=
  ⟨_, ready.changes (ready.enters fine enters) (ready.blank_enters fine blank enters)⟩

/-- From the end of a part to the end of the whole. -/
theorem rises (ready : Ready q F P) (fine : c.Fine q F) (blank : c.Blank q)
    (enters : q.Enters c c') :
    Preserves q.toBoundProgram (q.after c').frames (q.after c).frames := by
  cases enters with
  | paren kept =>
    dsimp only [Plan.after]
    rw [Plan.evalExpr, Plan.unlessFolded_kept _ kept]
    exact .refl _
  | unary kept =>
    dsimp only [Plan.after]
    rw [Plan.evalExpr, Plan.unlessFolded_kept _ kept]
    exact (Evolves.rest fun v s' _ => .apply _ _ s').preserves
  | left kept =>
    dsimp only [Plan.after]
    rw [Plan.evalExpr, Plan.unlessFolded_kept _ kept]
    refine (Evolves.rest fun v s' first => ?_).preserves
    split
    · exact .still rfl
    · next both =>
      exact .bind (ready.evolves fine blank (.right kept first both)) fun w s'' _ => .apply _ _ s''
  | right kept first both =>
    dsimp only [Plan.after]
    rw [Plan.evalExpr, Plan.unlessFolded_kept _ kept, Eval.bind_ok first]
    rw [BinOp.Short] at both
    rw [if_neg both]
    exact (Evolves.rest fun w s'' _ => .apply _ _ s'').preserves
  | @args n s m f args kept =>
    dsimp only [Plan.after]
    rw [Plan.evalExpr, Plan.unlessFolded_kept _ kept]
    refine (Evolves.rest fun vs s' first => ?_).preserves
    have node := fine.typed.1 (Expr.mem_nodes (.call m f args))
    have opened : Solo.Blank (q.valSymbols []) s'.frames := ready.blank_second
      (ready.enters fine (.args kept)) (congrArg Prod.snd first) (by rwa [List.append_nil])
    exact ⟨[], ready.applyCall_fills (ready.call_fills n) node vs s' opened⟩
  | body kept first own found =>
    dsimp only [Plan.after]
    rw [Plan.evalExpr, Plan.unlessFolded_kept _ kept, Eval.bind_ok first, Plan.applyCall, own, found]
    exact .pop _
  | block kept =>
    dsimp only [Plan.after]
    rw [Plan.evalExpr, Plan.unlessFolded_kept _ kept]
    exact (Evolves.rest fun _ s' first => ready.evolves fine blank (.tail kept first)).preserves
  | tail kept first | arms kept first =>
    dsimp only [Plan.after]
    rw [Plan.evalExpr, Plan.unlessFolded_kept _ kept, Eval.bind_ok first]
    exact .refl _
  | @assign n s m x e kept =>
    dsimp only [Plan.after]
    rw [Plan.evalExpr, Plan.unlessFolded_kept _ kept]
    refine (Evolves.rest fun v s' first => ?_).preserves
    obtain ⟨inside, t, typed⟩ := fine.typed
    have opened : Solo.Blank (q.valSymbols []) s'.frames := ready.blank_second
      (ready.enters fine (.assign kept)) (congrArg Prod.snd first) (by rwa [List.append_nil])
    have written := ready.write_fills (inside (Expr.mem_nodes (.assign m x e))) typed v s' opened
    exact .bind ⟨[], written⟩ fun _ _ _ => .still rfl
  | scrutinee kept =>
    dsimp only [Plan.after]
    rw [Plan.evalExpr, Plan.unlessFolded_kept _ kept]
    exact (Evolves.rest fun _ s' first => ready.evolves fine blank (.arms kept first)).preserves
  | arg =>
    dsimp only [Plan.after]
    rw [Plan.evalExprs]
    exact (Evolves.rest fun _ s' first =>
      .bind (ready.evolves fine blank (.nextArgs first)) fun _ _ _ => .still rfl).preserves
  | nextArgs first =>
    dsimp only [Plan.after]
    rw [Plan.evalExprs, Eval.bind_ok first]
    exact (Evolves.rest fun _ _ _ => .still rfl).preserves
  | last => exact .refl _
  | arm first | nextArms first =>
    dsimp only [Plan.after]
    rw [Plan.evalArms, Eval.bind_ok first]
    exact .refl _
  | @init n s d =>
    obtain ⟨m, kind, x, ty, e⟩ := d
    obtain ⟨_, _, y, _, _, target, _⟩ := id fine.typed
    dsimp only [Plan.after]
    rw [Plan.evalStmt]
    refine (Evolves.rest fun v s' first => ?_).preserves
    have own : Solo.Blank (q.valSymbols [⟨m, kind, x, ty, e⟩]) s'.frames :=
      ready.blank_second (ready.enters fine .init) (congrArg Prod.snd first) blank
    rw [BoundProgram.valSymbols_singleton target] at own
    rw [target]
    exact ⟨[y], Eval.Fills.declare y v s' own⟩
  | effect =>
    dsimp only [Plan.after]
    rw [Plan.evalStmt]
    exact (Evolves.rest fun _ _ _ => .still rfl).preserves
  | stmt =>
    dsimp only [Plan.after]
    rw [Plan.evalStmts]
    exact (Evolves.rest fun _ s' first => ready.evolves fine blank (.nextStmts first)).preserves
  | nextStmts first =>
    dsimp only [Plan.after]
    rw [Plan.evalStmts, Eval.bind_ok first]
    exact .refl _

/-- From the beginning of an evaluation to that of a part. -/
theorem falls (ready : Ready q F P) (fine : c.Fine q F) (blank : c.Blank q)
    (enters : q.Enters c c') :
    Preserves q.toBoundProgram c.machine.frames c'.machine.frames := by
  have later : ∀ {first : Config} {s' : Machine}, q.Enters c first → q.after first = s' →
      Evolves q.toBoundProgram first.machine.frames s'.frames := by
    rintro first s' enters rfl
    exact ready.evolves fine blank enters
  cases enters with
  | paren | unary | left | args | block | assign | scrutinee | arg | last | init | effect | stmt =>
    exact .refl _
  | right kept first => exact (later (.left kept) (congrArg Prod.snd first)).preserves
  | tail kept first => exact (later (.block kept) (congrArg Prod.snd first)).preserves
  | arms kept first => exact (later (.scrutinee kept) (congrArg Prod.snd first)).preserves
  | nextArgs first => exact (later .arg (congrArg Prod.snd first)).preserves
  | nextStmts first => exact (later .stmt (congrArg Prod.snd first)).preserves
  | @arm n s s' m a e arms v first | @nextArms n s s' m a e arms v first =>
    obtain rfl : s = s' := (q.matchesPat_state v a s).symm.trans (congrArg Prod.snd first)
    exact .refl _
  | body kept first =>
    exact .push (later (.args kept) (congrArg Prod.snd first)).choose_spec _

/-- From one instant to the next, the frames that are still there keep their stable bindings. -/
theorem leads (ready : Ready q F P) {t t' : Instant} (leads : q.Leads t t') :
    Preserves q.toBoundProgram (q.framesAt t) (q.framesAt t') := by
  cases leads with
  | enter reached enters =>
    exact ready.falls (ready.reached reached) (ready.blank_reached reached) enters
  | leave reached =>
    exact .ofChanges (ready.changes (ready.reached reached) (ready.blank_reached reached))
  | turn reached turns =>
    cases turns with
    | right _ first | tail _ first | arms _ first | nextArgs first | nextStmts first =>
      exact (Evolves.still (congrArg (Machine.frames ∘ Prod.snd) first).symm).preserves
    | body _ first =>
      exact .push (Evolves.still (congrArg (Machine.frames ∘ Prod.snd) first).symm).choose_spec _
  | rise reached enters =>
    exact ready.rises (ready.reached reached) (ready.blank_reached reached) enters

theorem lasts (ready : Ready q F P) {a : Nat} {t t' : Instant} (lasts : q.Lasts a t t')
    (x : SymbolId) :
    ((slot? a x (q.framesAt t)).isSome = true → (slot? a x (q.framesAt t')).isSome = true) ∧
      ∀ v, (q.symbol x).role.isStable = true → slot? a x (q.framesAt t) = some v →
        slot? a x (q.framesAt t') = some v := by
  obtain ⟨_, path⟩ := lasts
  induction path with
  | refl => exact ⟨id, fun _ _ => id⟩
  | tail _ step ih =>
    obtain ⟨grows, stable⟩ := ready.leads step.1
    exact ⟨fun held => grows a x step.2 (ih.1 held), fun v isStable found =>
      stable a x v step.2 isStable (ih.2 v isStable found)⟩

/-! ### Symbols that are bound -/

/-- What a declaration finds when its initializer is over. -/
theorem blank_declare (ready : Ready q F P) {n : Nat} {s s' : Machine} {d : ValDecl Mark}
    {v : Literal} {x : SymbolId} (reached : q.Reached ⟨n, .stmt (.val d), s⟩)
    (init : q.evalExpr (q.call n) d.init s = (.ok v, s'))
    (target : q.symbolAt? d.mark.id = some x) :
    Solo.Blank [x] s'.frames ∧
      (q.after ⟨n, .stmt (.val d), s⟩).frames = (Eval.declare x v s').2.frames := by
  have fine := ready.reached reached
  have blank := ready.blank_reached reached
  obtain ⟨m, kind, name, ty, e⟩ := d
  constructor
  · have own : Solo.Blank (q.valSymbols [⟨m, kind, name, ty, e⟩]) s'.frames :=
      ready.blank_second (ready.enters fine .init) (congrArg Prod.snd init) blank
    rwa [BoundProgram.valSymbols_singleton target] at own
  · dsimp only [Plan.after]
    rw [Plan.evalStmt, Eval.bind_ok init, target]

/-- A call has as many arguments as its function has parameters. -/
theorem args_count (ready : Ready q F P) {n : Nat} {s s' : Machine} {m : Mark} {f : Ident Mark}
    {args : List (Expr Mark)} {vs : List Literal} {sig : Signature}
    (reached : q.Reached ⟨n, .expr (.call m f args), s⟩)
    (first : q.evalExprs (q.call n) args s = (.ok vs, s'))
    (own : (q.symbolAt? f.mark.id).any (fun x => (q.symbol x).role = .builtin) = false)
    (found : q.checker.signatures.find? m.id = some sig) :
    .stmt (.fn sig.decl) ∈ q.program.nodes ∧ vs.length = sig.decl.params.length := by
  obtain ⟨⟨inside, _, _, x, types, target, typed, resolved⟩, fit⟩ := ready.reached reached
  have node := inside (Expr.mem_nodes (.call m f args))
  have keeps := ready.evalExprs (ready.bodies n) args
    (List.cons_subset.mp (Answers.below_left inside)).2 typed s fit
  rw [first] at keeps
  rw [ready.like.signatures] at found
  have fn := (ready.cert.callee node found).2
  refine ⟨fn, ?_⟩
  rcases resolved with ⟨role, _⟩ | ⟨_, sig', found', offers, below, _⟩
  · rw [target] at own
    simp [role] at own
  · cases found.symm.trans found'
    obtain ⟨sig', _, known, _, params, _⟩ := ready.cert.fn fn
    cases known.symm.trans offers.known
    rw [(keeps.2 vs rfl).length_eq, below.length_eq, params.length_eq]

/-- The symbols that are bound at once are different, and have their slots afterwards. -/
theorem initializes_held (ready : Ready q F P) {t t' : Instant} {xs : List SymbolId}
    (binds : q.Initializes t t' xs) :
    xs.Nodup ∧ ∀ x ∈ xs, (slot? (q.innermostAt t') x (q.framesAt t')).isSome = true := by
  cases binds with
  | @declare n s s' d v x reached init target =>
    obtain ⟨blank, after⟩ := ready.blank_declare reached init target
    refine ⟨List.nodup_singleton x, fun y member => ?_⟩
    obtain rfl := List.mem_singleton.mp member
    obtain ⟨f, outer, known⟩ := List.exists_cons_of_ne_nil blank.opened
    rw [Plan.innermostAt, Plan.framesAt, after, Eval.declare_frames y v known, List.length_cons,
      Nat.add_sub_cancel, slot?_top, Table.find?_insert_self]
    rfl
  | @params n s s' m f args vs sig reached kept first own found =>
    obtain ⟨fn, count⟩ := ready.args_count reached first own found
    refine ⟨(List.nodup_append'.mp (ready.locals_nodup fn)).1, fun x member => ?_⟩
    rw [Plan.innermostAt, Plan.framesAt, List.length_cons, Nat.add_sub_cancel, slot?_top]
    exact frameOf_contains count member

theorem initializes_blank (ready : Ready q F P) {t t' : Instant} {xs : List SymbolId}
    (binds : q.Initializes t t' xs) (there : q.innermostAt t' < (q.framesAt t).length) :
    ∀ x ∈ xs, slot? (q.innermostAt t') x (q.framesAt t) = none := by
  cases binds with
  | @declare n s s' d v x reached init target =>
    obtain ⟨blank, after⟩ := ready.blank_declare reached init target
    obtain ⟨f, outer, known⟩ := List.exists_cons_of_ne_nil blank.opened
    have before : q.framesAt (.ended ⟨n, .expr d.init, s⟩) = s'.frames :=
      congrArg (Machine.frames ∘ Prod.snd) init
    have same : q.innermostAt (.ended ⟨n, .stmt (.val d), s⟩) = s'.frames.length - 1 := by
      rw [Plan.innermostAt, Plan.framesAt, after, Eval.declare_frames x v known, known]
      rfl
    rw [before, same]
    exact blank.empty
  | @params n s s' m f args vs sig reached kept first own found =>
    have before : q.framesAt (.ended ⟨n + 1, .exprs args, s⟩) = s'.frames :=
      congrArg (Machine.frames ∘ Prod.snd) first
    rw [before, Plan.innermostAt, Plan.framesAt, List.length_cons, Nat.add_sub_cancel] at there
    exact absurd there (Nat.lt_irrefl _)

end Ready

/-- In every run of a draft that was checked without an error, as long as the frame of an activation
lasts, its slot of a stable binding keeps its value. What a declaration or a call binds are
different symbols, which have their slots from then on, and as long as their frame lasts none of
them is bound in it again. -/
theorem run_keeps_stable_slots (d : Draft) (o : Options) (q : Checked) (plan : Plan)
    (passes : d.Passes o q) (plans : q.Plans plan) :
    (∀ a t t', plan.Lasts a t t' → ∀ x v, (plan.symbol x).role.isStable = true →
      slot? a x (plan.framesAt t) = some v → slot? a x (plan.framesAt t') = some v) ∧
    ∀ t t' xs, plan.Initializes t t' xs →
      xs.Nodup ∧ (∀ x ∈ xs, (slot? (plan.innermostAt t') x (plan.framesAt t')).isSome = true) ∧
      ∀ u u' ys, plan.Lasts (plan.innermostAt t') t' u → plan.Initializes u u' ys →
        plan.innermostAt u' = plan.innermostAt t' → xs.Disjoint ys := by
  obtain ⟨_, ready⟩ := plans.ready passes
  refine ⟨fun a t t' lasts x v => (ready.lasts lasts x).2 v, fun t t' xs binds => ?_⟩
  obtain ⟨distinct, held⟩ := ready.initializes_held binds
  refine ⟨distinct, held, fun u u' ys lasts again same x first second => ?_⟩
  have still := (ready.lasts lasts x).1 (held x first)
  rw [← same] at still lasts
  rw [ready.initializes_blank again lasts.there x second] at still
  cases still

/-- A binding that is declared first has its value up to the end of the run. -/
theorem run_keeps_stable_slots_singletons : ∃ q plan t x,
    Draft.singletons.Passes default q ∧ q.Plans plan ∧ plan.Lasts 0 t (.ended plan.begin) ∧
    (plan.symbol x).role.isStable = true ∧ slot? 0 x (plan.framesAt t) = some (.int 2) ∧
    slot? 0 x (plan.framesAt (.ended plan.begin)) = some (.int 2) := by
  obtain ⟨q, plan, passes, plans, found⟩ := Draft.plan?_any .singletons default
    (fun (_, plan) => plan.program.stmts.head?.any fun s =>
      (plan.symbolAt? s.mark.id).any fun x =>
        (plan.symbol x).role.isStable &&
          slot? 0 x (plan.framesAt (.ended { plan.begin with task := .stmt s })) == some (.int 2) &&
          decide (0 < (plan.framesAt (.ended plan.begin)).length))
    (by decide +kernel)
  obtain ⟨s, first, found⟩ := (Option.any_eq_true _ _).mp found
  obtain ⟨x, _, found⟩ := (Option.any_eq_true _ _).mp found
  simp only [Bool.and_eq_true, beq_iff_eq, decide_eq_true_eq] at found
  obtain ⟨⟨stable, slot⟩, there⟩ := found
  obtain ⟨ss, stmts⟩ := List.head?_eq_some_iff.mp first
  have enters : plan.Enters plan.begin { plan.begin with task := .stmt s } := by
    rw [Plan.begin, stmts]
    exact .stmt
  have lasts : plan.Lasts 0 (.ended { plan.begin with task := .stmt s }) (.ended plan.begin) :=
    ⟨Lexical.slot?_lt slot, .single ⟨.rise .refl enters, there⟩⟩
  exact ⟨q, plan, _, x, passes, plans, lasts, stable, slot,
    (run_keeps_stable_slots .singletons default q plan passes plans).1 0 _ _ lasts x _ stable slot⟩

end Solo

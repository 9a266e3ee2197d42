import Solo.Proofs.Nesting
import Solo.Proofs.Courses
import Solo.Proofs.InternCache

/-!
# Expressions under way

While an expression is typed, demands lead elsewhere and back. The expressions that are begun and
not ended form a trail: each lies inside expressions that are begun before it or ended. A type can
name a binding only after everything around the binding's declaration is begun. So a demand never
leads back into an expression under way, and an entry that an expression under way will write is
not there yet. `Tidy` states this of a checker, and every single step keeps it.
-/

namespace Solo

/-- An entry that is written without a look whether it is there. -/
inductive Entry where
  | signature (call : NodeId)
  | witness (inhabitant : NodeId)
  | pattern (pat : NodeId)

/-- The entries that the typing of an expression writes. -/
def Expr.entries : Expr Mark → List Entry
  | .call m _ _ => [.signature m.id]
  | .inhabitant m _ => [.witness m.id]
  | .cases _ _ arms => arms.map fun a => .pattern a.pat.mark.id
  | _ => []

/-- The types that the typing of a pattern writes. -/
def Pat.Admits : Pat Mark → Ty → Prop
  | .wildcard _, _ => False
  | .lit _ l, t => t = .literal l.value
  | .typed _ _, _ => True

namespace Checker

def noted (c : Checker) (i : NodeId) : Bool := c.nodeTypes.contains i

def has (c : Checker) : Entry → Bool
  | .signature i => c.signatures.contains i
  | .witness i => c.witnesses.contains i
  | .pattern i => c.nodeTypes.contains i

/-- A goal is settled or in progress. -/
def Handled (c : Checker) (g : Goal) : Prop :=
  c.isSettled g = true ∨ g ∈ c.pursuits.map (·.goal)

/-- The same answers, the same goals in progress, and no new singleton of a binding. -/
structure SameAnswers (c c' : Checker) : Prop where
  symbolTypes : c'.symbolTypes = c.symbolTypes
  aliasTargets : c'.aliasTargets = c.aliasTargets
  nodeTypes : c'.nodeTypes = c.nodeTypes
  signatures : c'.signatures = c.signatures
  witnesses : c'.witnesses = c.witnesses
  pursuits : c'.pursuits = c.pursuits
  paths : ∀ x, .path x ∈ c'.types → .path x ∈ c.types

/-- A later state with the same goals in progress. -/
structure Later (c c' : Checker) : Prop where
  noted : ∀ i, c.noted i = true → c'.noted i = true
  settled : ∀ g, c.isSettled g = true → c'.isSettled g = true
  goals : c'.pursuits.map (·.goal) = c.pursuits.map (·.goal)

end Checker

/-- An expression is begun: it is under way, or it has its type. -/
def Entered (A : List (Expr Mark)) (c : Checker) (n : Node Mark) : Prop :=
  ∀ e, n = .expr e → e ∈ A ∨ c.noted e.id = true

namespace BoundProgram

variable (p : BoundProgram)

/-- The goal that the expression right below a declaration is typed for. -/
def inferred? : Node Mark → Option Goal
  | .stmt (.val d) => if d.ty.isNone then (p.symbolAt? d.mark.id).map .typeOf else none
  | .stmt (.fn d) => if d.result.isNone then some (.resultOf d.mark.id) else none
  | _ => none

/-- Everything around the declarations of a symbol is in `E`. -/
def Live (E : Node Mark → Prop) (x : SymbolId) : Prop :=
  ∀ d ∈ (p.symbol x).decls, ∃ L, p.At L d.node ∧ ∀ n ∈ L, E n

def LiveTy (E : Node Mark → Prop) (t : Ty) : Prop := ∀ x, t = .path x → p.Live E x

structure LiveSignature (E : Node Mark → Prop) (sig : Signature) : Prop where
  params : ∀ t ∈ sig.params, p.LiveTy E t
  result : p.LiveTy E sig.result

/-- All types that a checker has found or entered are live. -/
structure LiveTables (E : Node Mark → Prop) (c : Checker) : Prop where
  symbolTypes : ∀ x t, c.symbolTypes.find? x = some t → p.LiveTy E t
  aliasTargets : ∀ x t, c.aliasTargets.find? x = some t → p.LiveTy E t
  nodeTypes : ∀ i t, c.nodeTypes.find? i = some t → p.LiveTy E t
  signatures : ∀ i sig, c.signatures.find? i = some sig → p.LiveSignature E sig
  paths : ∀ x, .path x ∈ c.types → p.Live E x

/-- The expressions under way, innermost first. -/
inductive Underway (c : Checker) : List (Expr Mark) → Prop
  | nil : Underway c []
  | cons {e : Expr Mark} {L : List (Node Mark)} {A : List (Expr Mark)} :
    Underway c A → p.At L (.expr e) → (∀ n ∈ L, Entered A c n) → e ∉ A → c.noted e.id = false →
      (∀ g, L.head?.bind p.inferred? = some g → c.Handled g) → Underway c (e :: A)

end BoundProgram

/-- The expressions `A` are under way, and the entries `W` will be written. -/
structure Context.Tidy (cx : Context) (A : List (Expr Mark)) (W : List Entry) (c : Checker) :
    Prop where
  orderly : cx.Orderly c
  trail : cx.Underway c A
  distinct : W.Nodup
  awaited : ∀ w ∈ W, c.has w = false
  awaiting : ∀ w ∈ W, ∃ e ∈ A, w ∈ e.entries
  written : ∀ L e, cx.At L (.expr e) → ∀ w ∈ e.entries, c.has w = true → Entered A c (.expr e)
  live : cx.LiveTables (Entered A c) c
  patterns : ∀ q, .pat q ∈ cx.program.nodes → ∀ t, c.nodeTypes.find? q.mark.id = some t → q.Admits t

/-! ### Live types -/

section
variable {p : BoundProgram} {E E' : Node Mark → Prop} {c c₁ c₂ : Checker} {A : List (Expr Mark)}

namespace BoundProgram

theorem Live.mono {x : SymbolId} (live : p.Live E x) (wider : ∀ n, E n → E' n) : p.Live E' x := by
  intro d member
  obtain ⟨L, place, inside⟩ := live d member
  exact ⟨L, place, fun n around => wider n (inside n around)⟩

theorem LiveTy.mono {t : Ty} (live : p.LiveTy E t) (wider : ∀ n, E n → E' n) : p.LiveTy E' t :=
  fun x same => (live x same).mono wider

theorem LiveSignature.mono {sig : Signature} (live : p.LiveSignature E sig)
    (wider : ∀ n, E n → E' n) : p.LiveSignature E' sig :=
  ⟨fun t member => (live.params t member).mono wider, live.result.mono wider⟩

theorem LiveTables.mono (live : p.LiveTables E c) (wider : ∀ n, E n → E' n) : p.LiveTables E' c where
  symbolTypes x t found := (live.symbolTypes x t found).mono wider
  aliasTargets x t found := (live.aliasTargets x t found).mono wider
  nodeTypes i t found := (live.nodeTypes i t found).mono wider
  signatures i sig found := (live.signatures i sig found).mono wider
  paths x entered := (live.paths x entered).mono wider

@[simp] theorem LiveTy.intrinsic (k : Kind) : p.LiveTy E (.intrinsic k) := nofun

@[simp] theorem LiveTy.literal (v : Literal) : p.LiveTy E (.literal v) := nofun

theorem LiveTy.path {x : SymbolId} (live : p.Live E x) : p.LiveTy E (.path x) := by
  intro y same
  cases same
  exact live

theorem LiveTy.widenLiteral {t : Ty} (live : p.LiveTy E t) : p.LiveTy E t.widenLiteral := by
  cases t with
  | literal v => exact .intrinsic _
  | _ => exact live

/-- What is seen from a place inside `E` is live. -/
theorem Sees.live {L : List (Node Mark)} {x : SymbolId} (sees : p.Sees L x)
    (inside : ∀ n ∈ L, E n) : p.Live E x := by
  intro d member
  obtain ⟨K, place, within⟩ := sees d member
  exact ⟨K, place, fun n around => inside n (within around)⟩

end BoundProgram

namespace Checker

theorem Later.refl (c : Checker) : c.Later c := ⟨fun _ => id, fun _ => id, rfl⟩

theorem Later.trans (first : c.Later c₁) (second : c₁.Later c₂) : c.Later c₂ where
  noted i before := second.noted i (first.noted i before)
  settled g before := second.settled g (first.settled g before)
  goals := second.goals.trans first.goals

theorem SameAnswers.trans (first : c.SameAnswers c₁) (second : c₁.SameAnswers c₂) :
    c.SameAnswers c₂ where
  symbolTypes := second.symbolTypes.trans first.symbolTypes
  aliasTargets := second.aliasTargets.trans first.aliasTargets
  nodeTypes := second.nodeTypes.trans first.nodeTypes
  signatures := second.signatures.trans first.signatures
  witnesses := second.witnesses.trans first.witnesses
  pursuits := second.pursuits.trans first.pursuits
  paths x entered := first.paths x (second.paths x entered)

theorem SameAnswers.later (same : c.SameAnswers c₁) : c.Later c₁ where
  noted i before := by rwa [Checker.noted, same.nodeTypes]
  settled g before := by
    cases g with
    | typeOf x => rwa [isSettled, same.symbolTypes]
    | targetOf x => rwa [isSettled, same.aliasTargets]
    | resultOf d => rwa [isSettled, same.signatures]
  goals := by rw [same.pursuits]

theorem Later.handled (later : c.Later c₁) {g : Goal} (handled : c.Handled g) : c₁.Handled g :=
  handled.imp (later.settled g) fun member => later.goals ▸ member

end Checker

theorem Entered.mono {n : Node Mark} (entered : Entered A c n)
    (noted : ∀ i, c.noted i = true → c₁.noted i = true) : Entered A c₁ n :=
  fun e same => (entered e same).imp id (noted e.id)

theorem Entered.stmt {s : Stmt Mark} : Entered A c (.stmt s) := nofun

theorem Entered.param {q : Param Mark} : Entered A c (.param q) := nofun

theorem Entered.later {n : Node Mark} (entered : Entered A c n) (later : c.Later c₁) :
    Entered A c₁ n :=
  entered.mono later.noted

/-! ### Trails -/

namespace BoundProgram.Underway

theorem place (trail : p.Underway c A) {e : Expr Mark} (member : e ∈ A) : ∃ L, p.At L (.expr e) := by
  induction trail with
  | nil => cases member
  | cons _ place _ _ _ _ ih =>
    rcases List.mem_cons.mp member with rfl | outer
    · exact ⟨_, place⟩
    · exact ih outer

theorem unnoted (trail : p.Underway c A) {e : Expr Mark} (member : e ∈ A) : c.noted e.id = false := by
  induction trail with
  | nil => cases member
  | cons _ _ _ _ new _ ih =>
    rcases List.mem_cons.mp member with rfl | outer
    · exact new
    · exact ih outer

theorem mono (trail : p.Underway c A) (noted : ∀ i, c.noted i = true → c₁.noted i = true)
    (unnoted : ∀ e ∈ A, c₁.noted e.id = false) (handled : ∀ g, c.Handled g → c₁.Handled g) :
    p.Underway c₁ A := by
  induction trail with
  | nil => exact .nil
  | cons _ place around new _ owned ih =>
    refine .cons (ih fun e member => unnoted e (List.mem_cons_of_mem _ member)) place
      (fun n inside => (around n inside).mono noted) new (unnoted _ List.mem_cons_self)
      fun g inferred => handled g (owned g inferred)

/-- The goal that an expression under way is typed for is handled. -/
theorem handled (trail : p.Underway c A) (ground : p.Grounded) {e : Expr Mark} (member : e ∈ A)
    {L : List (Node Mark)} (place : p.At L (.expr e)) {g : Goal}
    (inferred : L.head?.bind p.inferred? = some g) : c.Handled g := by
  induction trail with
  | nil => cases member
  | cons _ place' _ _ _ owned ih =>
    rcases List.mem_cons.mp member with rfl | outer
    · obtain ⟨rfl, _⟩ := ground.place_unique place place' rfl
      exact owned g inferred
    · exact ih outer

/-- What is around an expression under way is under way or has its type. -/
theorem around (trail : p.Underway c A) (ground : p.Grounded) {e : Expr Mark} (member : e ∈ A)
    {L : List (Node Mark)} (place : p.At L (.expr e)) : ∀ n ∈ L, Entered A c n := by
  induction trail with
  | nil => cases member
  | cons _ place' around _ _ _ ih =>
    intro n inside f same
    rcases List.mem_cons.mp member with rfl | outer
    · obtain ⟨rfl, _⟩ := ground.place_unique place place' rfl
      exact (around n inside f same).imp (List.mem_cons_of_mem _) id
    · exact (ih outer n inside f same).imp (List.mem_cons_of_mem _) id

/-- No expression inside the innermost one is under way. -/
theorem clear {e f : Expr Mark} (trail : p.Underway c (e :: A)) (ground : p.Grounded)
    {L : List (Node Mark)} (place : p.At L (.expr f)) (inside : .expr e ∈ L) : f ∉ e :: A := by
  cases trail with
  | @cons _ K _ outer place' around new unnoted _ =>
    -- Whatever is under way outside lies in nothing but what was begun before `e`.
    have fresh : ¬Entered A c (.expr e) := by
      intro entered
      rcases entered e rfl with under | noted
      · exact new under
      · rw [unnoted] at noted
        cases noted
    intro member
    rcases List.mem_cons.mp member with rfl | earlier
    · obtain ⟨rfl, _⟩ := ground.place_unique place place' rfl
      exact fresh (around _ inside)
    · exact fresh (outer.around ground earlier place _ inside)

end BoundProgram.Underway

end

/-! ### Entries and their expressions -/

theorem Expr.entry_cases {e : Expr Mark} {w : Entry} (entry : w ∈ e.entries) :
    (w = .signature e.id ∨ w = .witness e.id) ∨
      ∃ m f arms a, e = .cases m f arms ∧ a ∈ arms ∧ w = .pattern a.pat.mark.id := by
  cases e with
  | call m f args => exact .inl (.inl (List.mem_singleton.mp entry))
  | inhabitant m t => exact .inl (.inr (List.mem_singleton.mp entry))
  | cases m f arms =>
    obtain ⟨a, member, same⟩ := List.mem_map.mp entry
    exact .inr ⟨m, f, arms, a, rfl, member, same.symm⟩
  | _ => cases entry

theorem patterns_sublist (arms : List (Arm Mark)) :
    (arms.map fun a => Node.pat a.pat).Sublist (armsNodes arms) := by
  induction arms with
  | nil => exact .refl _
  | cons a arms ih =>
    obtain ⟨m, q, e⟩ := a
    have own : [Node.pat q].Sublist q.nodes := (Node.below_suffix (.pat q)).sublist
    have arm : [Node.pat q].Sublist (Arm.nodes ⟨m, q, e⟩) :=
      own.trans ((List.sublist_append_left _ _).trans (List.sublist_append_left _ _))
    exact arm.append ih

section
variable {p : BoundProgram} {L K : List (Node Mark)} {e f : Expr Mark}

theorem BoundProgram.At.pattern {m : Mark} {arms : List (Arm Mark)}
    (place : p.At L (.expr (.cases m e arms))) {a : Arm Mark} (member : a ∈ arms) :
    p.At (.expr (.cases m e arms) :: L) (.pat a.pat) := by
  refine place.part (List.mem_cons_of_mem _ (List.mem_flatMap.mpr ⟨a, member, ?_⟩))
  exact List.mem_cons_self

/-- A node whose type is an entry is a pattern. -/
theorem BoundProgram.At.pattern_entry (place : p.At L (.expr e)) {i : NodeId}
    (entry : .pattern i ∈ e.entries) :
    ∃ q : Pat Mark, q.mark.id = i ∧ p.At (.expr e :: L) (.pat q) := by
  rcases Expr.entry_cases entry with (same | same) | ⟨m, f, arms, a, rfl, member, same⟩ <;> cases same
  exact ⟨a.pat, rfl, place.pattern member⟩

namespace BoundProgram.Grounded

variable (ground : p.Grounded)
include ground

theorem expr_unique (first : p.At L (.expr e)) (second : p.At K (.expr f)) (same : e.id = f.id) :
    e = f := by
  cases (ground.place_unique first second same).2
  rfl

theorem entry_unique (first : p.At L (.expr e)) (second : p.At K (.expr f)) {w : Entry}
    (entry : w ∈ e.entries) (entry' : w ∈ f.entries) : e = f := by
  cases w with
  | pattern i =>
    obtain ⟨q, rfl, place⟩ := first.pattern_entry entry
    obtain ⟨q', same, place'⟩ := second.pattern_entry entry'
    cases (ground.place_unique place place' same.symm).1
    rfl
  | _ =>
    rcases Expr.entry_cases entry with (same | same) | ⟨_, _, _, _, _, _, same⟩ <;> cases same
    rcases Expr.entry_cases entry' with (same | same) | ⟨_, _, _, _, _, _, same⟩ <;> injection same
    next same => exact ground.expr_unique first second same

theorem entries_nodup (place : p.At L (.expr e)) : e.entries.Nodup := by
  cases e with
  | cases m e arms =>
    have nodes : (armsNodes arms).Sublist p.program.nodes :=
      ((List.sublist_append_right e.nodes _).trans (List.sublist_append_left _ _)).trans
        (p.program.closed _ place.node).sublist
    have distinct := ground.distinct.sublist (((patterns_sublist arms).trans nodes).map (·.mark.id))
    rw [List.map_map] at distinct
    have entries : (Expr.cases m e arms).entries =
        (arms.map ((·.mark.id) ∘ fun a => Node.pat a.pat)).map Entry.pattern := by
      rw [List.map_map]
      rfl
    rw [entries]
    exact distinct.map fun i j same => by cases same; rfl
  | _ => simp [Expr.entries]

/-- The type of an expression is no entry. -/
theorem pattern_ne (first : p.At L (.expr e)) {n : Node Mark} (second : p.At K n)
    (other : ∀ q, n ≠ .pat q) : .pattern n.mark.id ∉ e.entries := by
  intro entry
  obtain ⟨q, same, place⟩ := first.pattern_entry entry
  exact other q (ground.place_unique place second same).2.symm

/-- The signature of a function is no signature of an expression. -/
theorem signature_apart {d : FnDecl Mark} (first : p.At L (.stmt (.fn d)))
    (second : p.At K (.expr e)) {signatures : Table NodeId Signature} {sig : Signature} :
    (signatures.insertNew d.mark.id sig).contains e.id = signatures.contains e.id := by
  rw [Table.contains, Table.contains, Table.find?_insertNew_other]
  intro same
  cases (ground.place_unique second first same).2

end BoundProgram.Grounded

end

/-! ### Steps -/

namespace Context.Tidy

variable {cx : Context} {A : List (Expr Mark)} {V W : List Entry} {c c₁ : Checker}

theorem step (tidy : cx.Tidy A V c) (orderly : cx.Orderly c₁) (rest : W.Sublist V)
    (noted : ∀ i, c.noted i = true → c₁.noted i = true)
    (handled : ∀ g, c.Handled g → c₁.Handled g)
    (under : ∀ e ∈ A, c₁.noted e.id = c.noted e.id)
    (free : ∀ w ∈ W, c₁.has w = c.has w)
    (written : ∀ L e, cx.At L (.expr e) → ∀ w ∈ e.entries, c₁.has w = true →
      c.has w = true ∨ e ∈ A)
    (live : cx.LiveTables (Entered A c₁) c₁)
    (patterns : ∀ q, .pat q ∈ cx.program.nodes → ∀ t, c₁.nodeTypes.find? q.mark.id = some t →
      c.nodeTypes.find? q.mark.id = some t ∨ q.Admits t) : cx.Tidy A W c₁ where
  orderly := orderly
  trail := tidy.trail.mono noted (fun e member => (under e member).trans (tidy.trail.unnoted member))
    handled
  distinct := tidy.distinct.sublist rest
  awaited w member := (free w member).trans (tidy.awaited w (rest.subset member))
  awaiting w member := tidy.awaiting w (rest.subset member)
  written L e place w entry present := by
    rcases written L e place w entry present with before | own
    · exact (tidy.written L e place w entry before).mono noted
    · intro f same
      cases same
      exact .inl own
  live := live
  patterns q node t found := (patterns q node t found).elim (tidy.patterns q node t) id

theorem drop (tidy : cx.Tidy A V c) (rest : W.Sublist V) : cx.Tidy A W c :=
  { tidy with
    distinct := tidy.distinct.sublist rest
    awaited := fun w member => tidy.awaited w (rest.subset member)
    awaiting := fun w member => tidy.awaiting w (rest.subset member) }

/-- Rosters, subtypes and reports say nothing about what is under way. -/
theorem alike (tidy : cx.Tidy A W c) (same : c.SameAnswers c₁) : cx.Tidy A W c₁ := by
  obtain ⟨names, interns, symbolTypes, aliasTargets, nodeTypes, signatures, witnesses, subtypes,
    purities, pursuits, evaluating, diagnostics⟩ := c₁
  obtain ⟨rfl, rfl, rfl, rfl, rfl, rfl, paths⟩ := same
  exact tidy.step { tidy.orderly with } (.refl W) (fun _ => id) (fun _ => id) (fun _ _ => rfl)
    (fun w _ => by cases w <;> rfl) (fun _ _ _ w _ present => .inl (by cases w <;> exact present))
    { tidy.live with paths := fun x entered => tidy.live.paths x (paths x entered) }
    fun _ _ _ => .inl

theorem enterPath (tidy : cx.Tidy A W c) {x : SymbolId} (live : cx.Live (Entered A c) x) :
    cx.Tidy A W { c with interns := (c.interns.pathType x).2 } := by
  refine tidy.step { tidy.orderly with } (.refl W) (fun _ => id) (fun _ => id) (fun _ _ => rfl)
    (fun w _ => by cases w <;> rfl) (fun _ _ _ w _ present => .inl (by cases w <;> exact present))
    { tidy.live with paths := fun y entered => ?_ } fun _ _ _ => .inl
  obtain ⟨e, member, own⟩ := Array.mem_map.mp entered
  rcases InternCache.mem_pathType member with old | new
  · exact tidy.live.paths y (Array.mem_map.mpr ⟨e, old, own⟩)
  · cases new.symm.trans own
    exact live

theorem enter (tidy : cx.Tidy A W c) (ground : cx.Grounded) {e : Expr Mark} {L : List (Node Mark)}
    (place : cx.At L (.expr e)) (around : ∀ n ∈ L, Entered A c n) (new : e ∉ A)
    (unnoted : c.noted e.id = false)
    (owned : ∀ g, L.head?.bind cx.inferred? = some g → c.Handled g) :
    cx.Tidy (e :: A) (e.entries ++ W) c where
  orderly := tidy.orderly
  trail := .cons tidy.trail place around new unnoted owned
  distinct := by
    rw [List.nodup_append]
    refine ⟨ground.entries_nodup place, tidy.distinct, fun w own w' outer same => ?_⟩
    subst same
    obtain ⟨f, under, entry⟩ := tidy.awaiting w outer
    obtain ⟨K, place'⟩ := tidy.trail.place under
    exact new (ground.entry_unique place place' own entry ▸ under)
  awaited w member := by
    rcases List.mem_append.mp member with own | outer
    · by_contra present
      rcases tidy.written L e place w own (Bool.of_not_eq_false present) e rfl with under | noted
      · exact new under
      · rw [unnoted] at noted
        cases noted
    · exact tidy.awaited w outer
  awaiting w member := by
    rcases List.mem_append.mp member with own | outer
    · exact ⟨e, List.mem_cons_self, own⟩
    · obtain ⟨f, under, entry⟩ := tidy.awaiting w outer
      exact ⟨f, List.mem_cons_of_mem e under, entry⟩
  written K f place' w entry present g same :=
    (tidy.written K f place' w entry present g same).imp (List.mem_cons_of_mem e) id
  live := tidy.live.mono fun _ entered f same => (entered f same).imp (List.mem_cons_of_mem e) id
  patterns := tidy.patterns

/-- An expression that will write an entry is under way. -/
theorem owner (tidy : cx.Tidy A W c) (ground : cx.Grounded) {w : Entry} (member : w ∈ W)
    {L : List (Node Mark)} {e : Expr Mark} (place : cx.At L (.expr e)) (entry : w ∈ e.entries) :
    e ∈ A := by
  obtain ⟨f, under, entry'⟩ := tidy.awaiting w member
  obtain ⟨K, place'⟩ := tidy.trail.place under
  exact ground.entry_unique place place' entry entry' ▸ under

/-- No entry that is awaited is the type of a node that is no pattern. -/
theorem awaited_ne (tidy : cx.Tidy A W c) {i : NodeId}
    (free : ∀ L e, cx.At L (.expr e) → .pattern i ∉ e.entries) {w : Entry} (member : w ∈ W) :
    w ≠ .pattern i := by
  rintro rfl
  obtain ⟨e, inside, entry⟩ := tidy.awaiting _ member
  obtain ⟨L, place⟩ := tidy.trail.place inside
  exact free L e place entry

end Context.Tidy

/-! ### Types of nodes -/

namespace Checker

abbrev note (c : Checker) (i : NodeId) (t : Ty) : Checker :=
  { c with nodeTypes := c.nodeTypes.insertNew i t }

variable {c : Checker} {i j : NodeId} {t : Ty}

theorem noted_note (before : c.noted j = true) : (c.note i t).noted j = true :=
  Table.contains_insertNew.mpr (.inl before)

theorem noted_note_self : (c.note i t).noted i = true := Table.contains_insertNew.mpr (.inr rfl)

theorem noted_note_other (other : j ≠ i) : (c.note i t).noted j = c.noted j := by
  rw [noted, noted, Table.contains, Table.contains, Table.find?_insertNew_other other]

theorem has_note {w : Entry} (other : w ≠ .pattern i) : (c.note i t).has w = c.has w := by
  cases w with
  | pattern j =>
    refine noted_note_other ?_
    rintro rfl
    exact other rfl
  | _ => rfl

theorem later_note : c.Later (c.note i t) :=
  ⟨fun _ => noted_note, fun g => by cases g <;> exact id, rfl⟩

end Checker

/-- An expression that gets its type is no longer under way, but begun. -/
theorem Entered.ended {A : List (Expr Mark)} {c : Checker} {e : Expr Mark} {n : Node Mark} (t : Ty)
    (entered : Entered (e :: A) c n) : Entered A (c.note e.id t) n := by
  intro f same
  rcases entered f same with under | noted
  · rcases List.mem_cons.mp under with rfl | outer
    · exact .inr Checker.noted_note_self
    · exact .inl outer
  · exact .inr (Checker.noted_note noted)

theorem BoundProgram.LiveTables.note {p : BoundProgram} {E : Node Mark → Prop} {c : Checker}
    {i : NodeId} {t : Ty} (tables : p.LiveTables E c) (live : p.LiveTy E t) :
    p.LiveTables E (c.note i t) where
  symbolTypes := tables.symbolTypes
  aliasTargets := tables.aliasTargets
  signatures := tables.signatures
  paths := tables.paths
  nodeTypes j u found := by
    rcases Table.find?_insertNew_cases found with before | rfl
    · exact tables.nodeTypes j u before
    · exact live

theorem BoundProgram.LiveTables.keep {p : BoundProgram} {E : Node Mark → Prop} {c : Checker}
    {i : NodeId} {sig : Signature} (tables : p.LiveTables E c) (live : p.LiveSignature E sig) :
    p.LiveTables E { c with signatures := c.signatures.insertNew i sig } where
  symbolTypes := tables.symbolTypes
  aliasTargets := tables.aliasTargets
  nodeTypes := tables.nodeTypes
  paths := tables.paths
  signatures j s found := by
    rcases Table.find?_insertNew_cases found with before | rfl
    · exact tables.signatures j s before
    · exact live

namespace Context.Tidy

variable {cx : Context} {A : List (Expr Mark)} {V W : List Entry} {c c₁ : Checker}

/-- The type of a node that is no pattern is the type of no pattern. -/
theorem pattern_apart (ground : cx.Grounded) {n : Node Mark} {K : List (Node Mark)}
    (place : cx.At K n) (other : ∀ q, n ≠ .pat q) {q : Pat Mark} (node : .pat q ∈ cx.program.nodes)
    {t : Ty} : (c.note n.mark.id t).nodeTypes.find? q.mark.id = c.nodeTypes.find? q.mark.id := by
  refine Table.find?_insertNew_other fun same => ?_
  exact other q (ground.node_unique node place.node same).symm

/-- A node gets its type that is neither an expression under way nor a pattern. -/
theorem note (ground : cx.Grounded) (tidy : cx.Tidy A W c) {n : Node Mark} {K : List (Node Mark)}
    (place : cx.At K n) (other : ∀ q, n ≠ .pat q) (under : ∀ e ∈ A, e.id ≠ n.mark.id) {t : Ty}
    (live : cx.LiveTy (Entered A c) t) : cx.Tidy A W (c.note n.mark.id t) := by
  have free : ∀ L e, cx.At L (.expr e) → .pattern n.mark.id ∉ e.entries :=
    fun L e place' => ground.pattern_ne place' place other
  have has : ∀ L e, cx.At L (.expr e) → ∀ w ∈ e.entries, (c.note n.mark.id t).has w = c.has w := by
    intro L e place w entry
    refine Checker.has_note ?_
    rintro rfl
    exact free L e place entry
  refine tidy.step { tidy.orderly with } (.refl W) (fun _ => Checker.noted_note) (fun _ => id)
    (fun e member => Checker.noted_note_other (under e member))
    (fun w member => Checker.has_note (tidy.awaited_ne free member))
    (fun L e place w entry present => .inl (has L e place w entry ▸ present)) ?_
    fun q node u found => .inl (pattern_apart ground place other node ▸ found)
  exact (tidy.live.note live).mono fun n entered => entered.mono fun _ => Checker.noted_note

/-- An expression is ended: it gets its type. -/
theorem leave (ground : cx.Grounded) {e : Expr Mark} (tidy : cx.Tidy (e :: A) W c)
    (outer : ∀ w ∈ W, ∃ f ∈ A, w ∈ f.entries) {t : Ty} (live : cx.LiveTy (Entered (e :: A) c) t) :
    cx.Tidy A W (c.note e.id t) := by
  obtain ⟨L, place⟩ := tidy.trail.place List.mem_cons_self
  have free : ∀ K f, cx.At K (.expr f) → .pattern e.id ∉ f.entries :=
    fun K f place' => ground.pattern_ne place' place nofun
  cases tidy.trail with
  | cons trail _ _ new _ _ =>
    refine ⟨{ tidy.orderly with }, ?_, tidy.distinct, fun w member => ?_, outer,
      fun K f place' w entry present => ?_, (tidy.live.note live).mono fun n => .ended t,
      fun q node u found => tidy.patterns q node u
        (pattern_apart ground (n := .expr e) place nofun node ▸ found)⟩
    · refine trail.mono (fun _ => Checker.noted_note) (fun f member => ?_) fun _ => id
      rw [Checker.noted_note_other]
      · exact trail.unnoted member
      · intro same
        obtain ⟨K, place'⟩ := trail.place member
        exact new (ground.expr_unique place' place same ▸ member)
    · rw [Checker.has_note (tidy.awaited_ne free member)]
      exact tidy.awaited w member
    · refine Entered.ended t (tidy.written K f place' w entry ?_)
      rwa [Checker.has_note] at present
      rintro rfl
      exact free K f place' entry

/-! ### Entries are written -/

/-- An awaited entry is written and nothing else. -/
theorem write (ground : cx.Grounded) {w : Entry} (tidy : cx.Tidy A (w :: W) c)
    (orderly : cx.Orderly c₁) (noted : ∀ i, c.noted i = true → c₁.noted i = true)
    (handled : ∀ g, c.Handled g → c₁.Handled g) (under : ∀ e ∈ A, c₁.noted e.id = c.noted e.id)
    (others : ∀ v, v ≠ w → c₁.has v = c.has v) (live : cx.LiveTables (Entered A c) c₁)
    (patterns : ∀ q, .pat q ∈ cx.program.nodes → ∀ t, c₁.nodeTypes.find? q.mark.id = some t →
      c.nodeTypes.find? q.mark.id = some t ∨ q.Admits t) : cx.Tidy A W c₁ := by
  obtain ⟨single, _⟩ := List.nodup_cons.mp tidy.distinct
  refine tidy.step orderly (List.sublist_cons_self w W) noted handled under (fun v member => ?_)
    (fun L e place v entry present => ?_) (live.mono fun n entered => entered.mono noted) patterns
  · refine others v ?_
    rintro rfl
    exact single member
  · by_cases same : v = w
    · subst same
      exact .inr (tidy.owner ground List.mem_cons_self place entry)
    · exact .inl (others v same ▸ present)

theorem recordType (ground : cx.Grounded) {q : Pat Mark} {K : List (Node Mark)} {t : Ty}
    (tidy : cx.Tidy A (.pattern q.mark.id :: W) c) (place : cx.At K (.pat q))
    (live : cx.LiveTy (Entered A c) t) (admits : q.Admits t) :
    cx.Tidy A W (c.note q.mark.id t) := by
  refine tidy.write ground { tidy.orderly with } (fun _ => Checker.noted_note) (fun _ => id)
    (fun e member => Checker.noted_note_other fun same => ?_) (fun v other => Checker.has_note other)
    (tidy.live.note live) fun q' node u found => ?_
  · obtain ⟨L, place'⟩ := tidy.trail.place member
    cases (ground.place_unique place' place same).2
  · by_cases same : q'.mark.id = q.mark.id
    · cases ground.node_unique node place.node same
      rcases Table.find?_insertNew_cases found with before | rfl
      · exact .inl before
      · exact .inr admits
    · exact .inl (Table.find?_insertNew_other same ▸ found)

theorem recordWitness (ground : cx.Grounded) {i : NodeId} {value : Witness}
    (tidy : cx.Tidy A (.witness i :: W) c) :
    cx.Tidy A W { c with witnesses := c.witnesses.insert i value } := by
  refine tidy.write ground { tidy.orderly with } (fun _ => id) (fun _ => id) (fun _ _ => rfl)
    (fun v other => ?_) { tidy.live with } fun _ _ _ => .inl
  cases v with
  | witness j =>
    have apart : j ≠ i := by
      rintro rfl
      exact other rfl
    simp [Checker.has, Table.contains, Table.find?_insert_other _ _ apart]
  | _ => rfl

/-- A call gets the signature that it is resolved to. -/
theorem recordSignature (ground : cx.Grounded) {m : Mark} {f : Ident Mark} {args : List (Expr Mark)}
    {K : List (Node Mark)} {sig : Signature} (tidy : cx.Tidy A (.signature m.id :: W) c)
    (place : cx.At K (.expr (.call m f args))) (live : cx.LiveSignature (Entered A c) sig) :
    cx.Tidy A W { c with signatures := c.signatures.insert m.id sig } := by
  have frame : cx.Frame c { c with signatures := c.signatures.insert m.id sig } :=
    ⟨rfl, rfl, rfl, fun i other => Table.find?_insert_other _ _ (other m f args place.node).symm⟩
  have signatures := tidy.live.signatures
  refine tidy.write ground (frame.follows ground tidy.orderly).orderly (fun _ => id)
    (fun g handled => handled.imp (fun settled => ?_) id) (fun _ _ => rfl) (fun v other => ?_)
    { tidy.live with signatures := fun i s found => ?_ } fun _ _ _ => .inl
  · cases g with
    | resultOf d => exact Table.contains_insert.mpr (.inl settled)
    | _ => exact settled
  · cases v with
    | signature j =>
      have apart : j ≠ m.id := by
        rintro rfl
        exact other rfl
      simp [Checker.has, Table.contains, Table.find?_insert_other _ _ apart]
    | _ => rfl
  · rw [Table.find?_insert] at found
    split at found
    · cases found
      exact live
    · exact signatures i s found

/-! ### Goals -/

theorem settle (tidy : cx.Tidy A W c) (orderly : cx.Orderly c₁)
    (handled : ∀ g, c.Handled g → c₁.Handled g) (nodeTypes : c₁.nodeTypes = c.nodeTypes)
    (witnesses : c₁.witnesses = c.witnesses)
    (signatures : ∀ L e, cx.At L (.expr e) →
      c₁.signatures.contains e.id = c.signatures.contains e.id)
    (live : cx.LiveTables (Entered A c) c₁) : cx.Tidy A W c₁ := by
  have noted : ∀ i, c₁.noted i = c.noted i := fun i => by rw [Checker.noted, nodeTypes]; rfl
  have has : ∀ L e, cx.At L (.expr e) → ∀ w ∈ e.entries, c₁.has w = c.has w := by
    intro L e place w entry
    rcases Expr.entry_cases entry with (rfl | rfl) | ⟨_, _, _, a, rfl, _, rfl⟩
    · exact signatures L e place
    · rw [Checker.has, witnesses]; rfl
    · exact noted a.pat.mark.id
  refine tidy.step orderly (.refl W) (fun i before => (noted i).trans before) handled
    (fun e _ => noted e.id) (fun w member => ?_)
    (fun L e place w entry present => .inl (has L e place w entry ▸ present))
    (live.mono fun n entered => entered.mono fun i before => (noted i).trans before)
    fun _ _ _ found => .inl (nodeTypes ▸ found)
  obtain ⟨e, inside, entry⟩ := tidy.awaiting w member
  obtain ⟨L, place⟩ := tidy.trail.place inside
  exact has L e place w entry

theorem marked (tidy : cx.Tidy A W c) {ps : List Pursuit} (marks : Checker.Marks c.pursuits ps) :
    cx.Tidy A W { c with pursuits := ps } :=
  tidy.settle (tidy.orderly.marked marks)
    (fun _ handled => handled.imp id fun member => marks.goals ▸ member) rfl rfl (fun _ _ _ => rfl)
    { tidy.live with }

theorem begun (tidy : cx.Tidy A W c) {g : Goal}
    (orderly : cx.Orderly { c with pursuits := ⟨g, false⟩ :: c.pursuits }) :
    cx.Tidy A W { c with pursuits := ⟨g, false⟩ :: c.pursuits } :=
  tidy.settle orderly (fun _ handled => handled.imp id (List.mem_cons_of_mem _)) rfl rfl
    (fun _ _ _ => rfl) { tidy.live with }

end Context.Tidy

/-- The innermost goal is settled and given up. -/
theorem Checker.Handled.concluded {c c₁ : Checker} {g : Goal} (handled : c.Handled g) {p : Pursuit}
    {outer : List Pursuit} (pursuits : c.pursuits = p :: outer) (left : c₁.pursuits = outer)
    (settled : ∀ g, c.isSettled g = true → c₁.isSettled g = true)
    (own : c₁.isSettled p.goal = true) : c₁.Handled g := by
  rcases handled with before | member
  · exact .inl (settled g before)
  · rw [pursuits, List.map_cons] at member
    rcases List.mem_cons.mp member with rfl | outside
    · exact .inl own
    · exact .inr (left ▸ outside)

end Solo

import Solo.Proofs.Sharing
import Solo.Proofs.Supplied

/-!
# Accepted checks

An error-free check leaves proper tables, and its course is short. So it is made
again when other demands come first.
-/

namespace Solo

/-! ### Declarations have places -/

namespace Node

/-- No singleton is that of an expression but a literal or a name. -/
def IsPlain : Node Mark → Prop
  | .ty (.singleton _ e) => (∃ l, e = .lit l) ∨ ∃ x, e = .name x
  | _ => True

/-- A child is a part, or an arm whose pattern and body are parts, or there is no declaration in it
but in the operand of a singleton. -/
theorem child_cases {n j : Node Mark} (child : j ∈ n.children) : j ∈ n.parts ∨
    (∃ a, j = .arm a ∧ .pat a.pat ∈ n.parts ∧ .expr a.body ∈ n.parts) ∨ (∃ x, j = .ident x) ∨
    (∃ l, j = .lit l) ∨ (∃ a, n = .arm a) ∨ ∃ m e, n = .ty (.singleton m e) ∧ j = .expr e := by
  cases n with
  | expr e =>
    cases e <;> simp_all [parts, children]
    all_goals grind
  | pat q => cases q <;> simp_all [parts, children]
  | ty t => cases t <;> simp_all [parts, children]
  | stmt s =>
    cases s <;> simp_all [parts, children]
    all_goals grind
  | param q =>
    simp_all [parts, children]
    grind
  | _ => simp_all [parts, children]

theorem part_of_parts {n j : Node Mark} (part : j ∈ n.parts) : ∀ a, j ≠ .arm a := by
  cases n with
  | expr e =>
    cases e <;> simp_all [parts]
    all_goals grind
  | pat q => cases q <;> simp_all [parts]
  | ty t => cases t <;> simp_all [parts]
  | stmt s =>
    cases s <;> simp_all [parts]
    all_goals grind
  | program q =>
    simp_all [parts]
    grind
  | _ => simp_all [parts]

theorem length_of_part {n j : Node Mark} (part : j ∈ n.parts) :
    j.below.length < n.below.length := by
  have whole := n.parts_sublist.length_le
  have own := (List.sublist_flatten_of_mem (List.mem_map_of_mem (f := below) part)).length_le
  rw [List.length_append, List.length_singleton, List.flatMap_def] at whole
  omega

theorem not_decl {n : Node Mark} (plain : n.decl? = none) (d : Decl) : d.node ≠ n := by
  rintro rfl
  rw [decl?_node] at plain
  cases plain

/-- A declaration below a node is a part of it or of its parts, unless it is in the operand of a
singleton. -/
theorem stands {p : BoundProgram} {n : Node Mark} {L : List (Node Mark)} (place : p.At L n)
    (noArm : ∀ a, n ≠ .arm a) (plain : ∀ k ∈ n.below, k.IsPlain) {d : Decl}
    (below : d.node ∈ n.below) : ∃ K, p.At K d.node := by
  induction size : n.below.length using Nat.strongRecOn generalizing n L with
  | ind size ih =>
    have part : ∀ j ∈ n.parts, d.node ∈ j.below → ∃ K, p.At K d.node := by
      intro j part inside
      refine ih _ (size ▸ length_of_part part) (place.part part) (part_of_parts part)
        (fun k under => plain k ?_) inside rfl
      exact n.parts_sublist.subset (List.mem_append_left _ (List.mem_flatMap.mpr ⟨j, part, under⟩))
    rw [n.below_eq] at below
    rcases List.mem_append.mp below with inner | self
    · obtain ⟨j, child, inside⟩ := List.mem_flatMap.mp inner
      rcases child_cases child with isPart | ⟨a, rfl, pat, body⟩ | ⟨x, rfl⟩ | ⟨l, rfl⟩ | ⟨a, rfl⟩ |
        ⟨m, e, rfl, rfl⟩
      · exact part j isPart inside
      · rw [(Node.arm a).below_eq] at inside
        simp only [children, List.flatMap_cons, List.flatMap_nil, List.append_nil, List.mem_append,
          List.mem_singleton] at inside
        rcases inside with (inPat | inBody) | own
        · exact part _ pat inPat
        · exact part _ body inBody
        · exact absurd own (not_decl rfl d)
      · exact absurd (List.mem_singleton.mp inside) (not_decl rfl d)
      · exact absurd (List.mem_singleton.mp inside) (not_decl rfl d)
      · exact absurd rfl (noArm a)
      · rcases plain (.ty (.singleton m e)) (below_suffix _ |>.subset List.mem_cons_self) with
          ⟨l, rfl⟩ | ⟨x, rfl⟩
        all_goals exact absurd (List.mem_singleton.mp inside) (not_decl rfl d)
    · exact ⟨L, List.mem_singleton.mp self ▸ place⟩

end Node

/-! ### Tables of accepted checks -/

section
variable {cx : Context} {F c c' : Checker} {gs : List Finding} {early : List Demand}

theorem Sane.isError {p : BoundProgram} {t : Ty} (sane : Sane p t) : t.isError = false :=
  beq_eq_false_iff_ne.mpr sane.1

theorem Certified.proper (cert : Certified cx.toBoundProgram F) (nested : cx.WellNested)
    (typed : ∀ x u, F.symbolTypes.find? x = some u → cx.Typable x) : cx.Proper F where
  nested := nested
  typed := typed
  spotless := by
    intro L n t place isTyped found
    cases n with
    | expr e => exact (cert.sound.exprs e place.node t found).2.isError
    | ty node => exact (cert.sound.types node place.node t found).sane.isError
    | _ => cases isTyped
  stands := by
    refine fun d below => Node.stands .here nofun (fun k inside => ?_) below
    cases k with
    | ty node =>
      obtain ⟨t, denotes⟩ := cert.settled inside
      cases denotes with
      | literal => exact .inl ⟨_, rfl⟩
      | path => exact .inr ⟨_, rfl⟩
      | _ => trivial
    | _ => trivial

theorem Lawful.meetAll {qs : List Demand} (posed : ∀ q ∈ qs, cx.Poses q) :
    Lawful cx fun o => o.meetAll qs := by
  induction qs with
  | nil => exact .pure ()
  | cons q qs ih =>
    obtain ⟨own, others⟩ := List.forall_mem_cons.mp posed
    exact ((Lawful.thorough cx).ask q own).bind fun _ => ih others

theorem Demand.kept_of_settled {q : Demand} (settled : F.isSettled q.goal = true) :
    ∃ a, q.Kept F a := by
  cases q <;> exact Option.isSome_iff_exists.mp settled

namespace Context

theorem Proper.mono (proper : cx.Proper F) (symbolTypes : c.symbolTypes.Within F.symbolTypes)
    (nodeTypes : c.nodeTypes.Within F.nodeTypes) : cx.Proper c where
  nested := proper.nested
  typed x u found := proper.typed x u (symbolTypes x u found)
  spotless L n t place isTyped found := proper.spotless L n t place isTyped (nodeTypes _ t found)
  stands := proper.stands

/-- All findings about the symbols and the nodes of the program. -/
def findings (cx : Context) : List Finding :=
  (List.range cx.symbols.size).map (fun x => .goal (.typeOf x)) ++
    (List.range cx.symbols.size).map (fun x => .goal (.targetOf x)) ++
    cx.program.nodes.map (fun n => .goal (.resultOf n.mark.id)) ++ cx.program.nodes.map .node

theorem Placed.mem_findings {i : Finding} (placed : cx.Placed i) : i ∈ cx.findings := by
  cases i with
  | node n =>
    obtain ⟨L, place⟩ := placed
    exact List.mem_append_right _ (List.mem_map_of_mem place.node)
  | goal g => cases g <;> simpa [findings, Placed] using placed

/-- There are two findings for each symbol and each node at most. -/
theorem Course.short (course : cx.Course F gs c) :
    gs.length ≤ 2 * (cx.symbols.size + cx.program.nodes.length) := by
  have inside : gs ⊆ cx.findings := fun i member => (course.placed i member).mem_findings
  have fits := course.distinct.length_le_of_subset inside
  simp only [findings, List.length_append, List.length_map, List.length_range] at fits
  omega

theorem Course.start (names : Roster String) : cx.Course F [] (.start names) where
  repeated ks i before := by
    have few := before.length_le
    simp at few
  distinct := .nil
  placed := nofun
  settled q _ settled := by cases q <;> cases settled
  noted L n _ _ := ⟨fun noted => (by cases noted), nofun⟩
  compared := nofun

namespace Charts

theorem meetAll {o : Oracle} {P : Prop} {N : List (Node Mark)} (guides : cx.Guides F o)
    {qs : List Demand} (concern : ∀ q ∈ qs, cx.Concerns q) :
    cx.Charts F o P [] N (fun o => o.meetAll qs) fun _ => True := by
  induction qs generalizing P with
  | nil => exact done ()
  | cons q qs ih =>
    obtain ⟨own, others⟩ := List.forall_mem_cons.mp concern
    exact bind (X := []) (ask guides own) fun _ => ih others

end Charts

/-- A demand that the tables answer. -/
def Answered (cx : Context) (F : Checker) (q : Demand) : Prop :=
  F.isSettled q.goal = true ∨ ∃ x, q = .typeOf x ∧ ¬cx.Typable x

theorem Replays.answered {N : List (Node Mark)} (course : cx.Course F gs F) (proper : cx.Proper F)
    {q : Demand} (concerns : cx.Concerns q) (answered : cx.Answered F q) :
    ∃ a, cx.Replays F gs [] N [] (fun o => o q) a := by
  rcases answered with settled | ⟨x, rfl, untyped⟩
  · obtain ⟨a, kept⟩ := Demand.kept_of_settled settled
    exact ⟨a, .ask concerns.poses (course.settled q concerns settled) kept⟩
  · refine ⟨Ty.error, .untyped untyped ?_⟩
    by_contra some
    obtain ⟨u, found⟩ := Option.ne_none_iff_exists'.mp some
    exact untyped (proper.typed x u found)

theorem Replays.meetAll {N : List (Node Mark)} (course : cx.Course F gs F) (proper : cx.Proper F)
    {qs : List Demand} (concern : ∀ q ∈ qs, cx.Concerns q) (answered : ∀ q ∈ qs, cx.Answered F q) :
    cx.Replays F gs [] N [] (fun o => o.meetAll qs) () := by
  induction qs with
  | nil => exact .pure ()
  | cons q qs ih =>
    obtain ⟨own, others⟩ := List.forall_mem_cons.mp concern
    obtain ⟨first, rest⟩ := List.forall_mem_cons.mp answered
    obtain ⟨a, replays⟩ := Replays.answered course proper own first
    exact replays.bind (Y := []) ((Lawful.thorough cx).ask q own.poses)
      (fun _ => .meetAll fun p member => (others p member).poses) (ih others rest)

/-- An accepted check that early demands come before. The check alone can be made again. -/
theorem Proper.course (proper : cx.Proper F) (bound : cx.WellBound)
    (concern : ∀ q ∈ early, cx.Concerns q) {n : Nat}
    (run : cx.visit early [] (cx.oracle n) (.start cx.names) = .ok ((), F))
    (mild : ∀ d ∈ F.diagnostics, d.isError = false) :
    ∃ gs, cx.Course F gs F ∧ cx.Replays F gs [] (stmtsNodes cx.program.stmts) []
      (fun o => (cx.asking o).checkStmts cx.program.stmts) () := by
  have guides : cx.Guides F (cx.oracle n) := .oracle proper bound n
  have demands : cx.Charts F (cx.oracle n) True [] [] (fun o => o.meetAll early) fun _ => True :=
    .meetAll guides concern
  have check : cx.Charts F (cx.oracle n) True [] (stmtsNodes cx.program.stmts)
      (fun o => (cx.asking o).checkStmts cx.program.stmts) fun _ => True :=
    .checkStmts guides proper.nested proper.typed proper.spotless fun s member =>
      Under.here.part (List.mem_map_of_mem member)
  obtain ⟨_, c₁, run₁, rest⟩ := Check.bind_ok run
  obtain ⟨_, c₂, run₂, ended⟩ := Check.bind_ok rest
  cases ended
  have grows := check.grows c₁ () F run₂
  have idle : F.pursuits = [] :=
    List.forall₂_nil_left_iff.mp ((demands.grows _ () c₁ run₁).trans grows).pursuits
  have accepted : F.Accepted F :=
    { within := (Checker.Grows.refl F).toWithin, told := fun _ => id, mild,
      straight := by simp [idle] }
  obtain ⟨gs, demanded, _⟩ :=
    demands.leads trivial _ () c₁ run₁ (accepted.before grows) [] (.start cx.names)
  obtain ⟨ls, checked, replays, _⟩ := check.leads trivial c₁ () F run₂ accepted _ demanded.course
  exact ⟨_, checked.course, replays⟩

/-- An accepted check is made again when other demands come before it, or one leads astray. -/
theorem Proper.visits (proper : cx.Proper F) (bound : cx.WellBound)
    (sized : cx.program.nodes.length ≤ cx.nodeCount) (concern : ∀ q ∈ early, cx.Concerns q)
    (run : cx.visit early [] (cx.oracle cx.questionBound) (.start cx.names) = .ok ((), F))
    (mild : ∀ d ∈ F.diagnostics, d.isError = false) {qs : List Demand}
    (concern' : ∀ q ∈ qs, cx.Concerns q)
    (answered : ∀ q ∈ qs, cx.Answered F q) :
    (∃ c, cx.visit qs [] (cx.oracle cx.questionBound) (.start cx.names) = .ok ((), c) ∧
      cx.Concurs F [] [] c) ∨
    ∃ x, (∃ n q s, cx.Occurs qs [] n q s ∧ .typeOf x ∈ q.goal :: s.pursuits.map (·.goal) ∧
        cx.Writes (cx.seen q) x) ∧
      ∀ c, cx.visit qs [] (cx.oracle cx.questionBound) (.start cx.names) = .ok ((), c) →
        cx.Tripped x c := by
  obtain ⟨gs, course, check⟩ := proper.course bound concern run mild
  have lawful := Lawful.thorough cx
  have posed : ∀ q ∈ qs, cx.Poses q := fun q member => (concern' q member).poses
  have replays : cx.Replays F gs [] (stmtsNodes cx.program.stmts) [] (cx.visit qs []) () :=
    (Replays.meetAll course proper concern' answered).bind (Y := []) (.meetAll posed)
      (fun _ => (lawful.check proper.nested.toGrounded).bind fun _ => .pure ())
      (check.bind (Y := []) (lawful.check proper.nested.toGrounded) (fun _ => .pure ()) (.pure ()))
  have deep : gs.length < cx.questionBound := by
    have short := course.short
    rw [questionBound]
    omega
  have supplies := proper.supplies bound course.distinct course.repeated deep
  rcases replays _ _ supplies [] [] _ (.start cx.names) (.start cx.names) with
    ⟨c, run', concurs, _⟩ | ⟨x, ⟨_, pursued | none⟩ | ⟨q, s, heeds, astray⟩, effect⟩
  · exact .inl ⟨c, run', concurs⟩
  · cases pursued
  · cases none
  · obtain ⟨m, p, t, moment, needed, written⟩ := astray.cause
    exact .inr ⟨x, ⟨m, p, t, moment.through heeds.asks, needed, written⟩, effect ()⟩

end Context

end

end Solo

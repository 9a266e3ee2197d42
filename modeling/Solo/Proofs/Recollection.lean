import Solo.Proofs.Accepted
import Solo.Proofs.Comparisons

/-!
# What tables yield

The tables `F` of an accepted check answer every demand, and they tell the types of all nodes. What
an action finds by itself, given these, is what the tables yield: the type of a node from the types
of its parts, the type of a binding from that of its initializer, and no error on the way.
-/

namespace Solo

theorem Table.exists_restrict {κ ν : Type} [DecidableEq κ] (t : Table κ ν) (p : κ → Prop) :
    ∃ u : Table κ ν, (∀ k v, u.find? k = some v ↔ t.find? k = some v ∧ p k) := by
  classical
  refine ⟨⟨t.entries.filter fun e => p e.1⟩, fun k v => ?_⟩
  have look : ∀ es : List (κ × ν), Table.look k (es.filter fun e => p e.1) = some v ↔
      Table.look k es = some v ∧ p k := by
    intro es
    induction es with
    | nil => simp [Table.look]
    | cons e es ih =>
      obtain ⟨k', v'⟩ := e
      by_cases same : k' = k
      · subst same
        by_cases holds : p k'
        · simp [Table.look, holds]
        · simp [holds, ih]
      · by_cases holds : p k' <;> simp [Table.look, holds, same, ih]
  exact look t.entries

/-! ### Typed parts -/

section
variable {p : BoundProgram} {c : Checker}

theorem mem_exprsTyped {es : List (Expr Mark)} {ts : List Ty} (typed : exprsTyped p c es ts) :
    ∀ e ∈ es, ∃ t, e.Typed p c t := by
  induction es generalizing ts with
  | nil => nofun
  | cons e es ih =>
    obtain ⟨t, rest, _, first, others⟩ := typed
    exact List.forall_mem_cons.mpr ⟨⟨t, first⟩, ih others⟩

theorem mem_armsTyped {arms : List (Arm Mark)} {t : Ty} (typed : armsTyped p c arms t) :
    ∀ a ∈ arms, ∃ s, a.body.Typed p c s := by
  induction arms with
  | nil => nofun
  | cons a arms ih =>
    obtain ⟨m, q, e⟩ := a
    obtain ⟨_, ⟨s, first, _⟩, others⟩ := typed
    exact List.forall_mem_cons.mpr ⟨⟨s, first⟩, ih others⟩

theorem mem_stmtsTyped {ss : List (Stmt Mark)} (typed : stmtsTyped p c ss) :
    ∀ s ∈ ss, s.Typed p c := by
  induction ss with
  | nil => exact fun s member => absurd member List.not_mem_nil
  | cons s ss ih => exact List.forall_mem_cons.mpr ⟨typed.1, ih typed.2⟩

variable (p c) in
def Node.Judged : Node Mark → Prop
  | .expr e => ∃ t, e.Typed p c t
  | .stmt s => s.Typed p c
  | .program q => stmtsTyped p c q.stmts
  | _ => True

theorem Node.Judged.part {n k : Node Mark} (judged : n.Judged p c) (part : k ∈ n.parts) :
    k.Judged p c := by
  cases n with
  | program q =>
    obtain ⟨s, member, rfl⟩ := List.mem_map.mp part
    exact mem_stmtsTyped judged s member
  | stmt s =>
    rcases s with ⟨m, k, x, ty, e⟩ | ⟨m, x, t⟩ | ⟨m, x, qs, ty, e⟩ | ⟨m, e⟩
    · obtain ⟨_, _, _, s, _, _, typed, _⟩ := judged
      rcases List.mem_append.mp part with inType | init
      · obtain ⟨t, _, rfl⟩ := List.mem_map.mp inType
        trivial
      · obtain rfl := List.mem_singleton.mp init
        exact ⟨s, typed⟩
    · obtain rfl := List.mem_singleton.mp part
      trivial
    · obtain ⟨_, _, s, _, _, _, typed, _⟩ := judged
      rcases List.mem_append.mp part with param | later
      · obtain ⟨q, _, rfl⟩ := List.mem_map.mp param
        trivial
      · rcases List.mem_append.mp later with inType | body
        · obtain ⟨t, _, rfl⟩ := List.mem_map.mp inType
          trivial
        · obtain rfl := List.mem_singleton.mp body
          exact ⟨s, typed⟩
    · obtain rfl := List.mem_singleton.mp part
      exact judged
  | expr e =>
    obtain ⟨t, typed⟩ := judged
    cases e with
    | paren m e =>
      obtain rfl := List.mem_singleton.mp part
      exact ⟨t, typed.2⟩
    | unary m op e =>
      obtain rfl := List.mem_singleton.mp part
      obtain ⟨_, s, _, _, inner, _⟩ := typed
      exact ⟨s, inner⟩
    | bin m op a b =>
      obtain ⟨_, s₁, s₂, _, _, _, left, right, _⟩ := typed
      rcases List.mem_cons.mp part with rfl | later
      · exact ⟨s₁, left⟩
      · obtain rfl := List.mem_singleton.mp later
        exact ⟨s₂, right⟩
    | call m f args =>
      obtain ⟨a, member, rfl⟩ := List.mem_map.mp part
      obtain ⟨_, _, _, _, inner, _⟩ := typed
      exact mem_exprsTyped inner a member
    | block m ss tail =>
      obtain ⟨_, stmts, last⟩ := typed
      rcases List.mem_append.mp part with stmt | end'
      · obtain ⟨s, member, rfl⟩ := List.mem_map.mp stmt
        exact mem_stmtsTyped stmts s member
      · obtain ⟨e, member, rfl⟩ := List.mem_map.mp end'
        cases tail <;> cases member
        · exact ⟨t, last⟩
        · next inside => cases inside
    | assign m x e =>
      obtain rfl := List.mem_singleton.mp part
      obtain ⟨_, _, _, _, s, _, _, _, inner, _⟩ := typed
      exact ⟨s, inner⟩
    | cases m e arms =>
      obtain ⟨_, ⟨s, first⟩, rest⟩ := typed
      rcases List.mem_cons.mp part with rfl | later
      · exact ⟨s, first⟩
      · obtain ⟨a, member, inArm⟩ := List.mem_flatMap.mp later
        rcases List.mem_cons.mp inArm with rfl | body
        · trivial
        · obtain rfl := List.mem_singleton.mp body
          exact mem_armsTyped rest a member
    | inhabitant m node =>
      obtain rfl := List.mem_singleton.mp part
      trivial
    | _ => cases part
  | pat q =>
    cases q with
    | typed m node =>
      obtain rfl := List.mem_singleton.mp part
      trivial
    | _ => cases part
  | ty node =>
    cases node with
    | paren m node =>
      obtain rfl := List.mem_singleton.mp part
      trivial
    | _ => cases part
  | param q =>
    obtain rfl := List.mem_singleton.mp part
    trivial
  | _ => cases part

theorem Under.judged {L K : List (Node Mark)} {n k : Node Mark} (under : Under L n K k)
    (judged : n.Judged p c) : k.Judged p c := by
  induction under with
  | here => exact judged
  | down part _ ih => exact ih (judged.part part)

theorem Certified.noted (cert : Certified p c) {L : List (Node Mark)} {e : Expr Mark}
    (place : p.At L (.expr e)) : ∃ t, c.nodeTypes.find? e.id = some t := by
  obtain ⟨t, typed⟩ := Under.judged place (p := p) (c := c) cert.stmts
  exact Option.isSome_iff_exists.mp typed.noted

end

/-! ### Given types -/

section
variable (cx : Context) (F : Checker)

/-- A checker that is told the types of all nodes but the one with the number `skip`, and whose kept
answers about subtypes are those of the tables. -/
structure Context.Primed (skip : Option NodeId) (c : Checker) : Prop where
  told : ∀ L n, cx.At L n → n.isTyped = true → some n.mark.id ≠ skip →
    ∀ t, F.nodeTypes.find? n.mark.id = some t → c.nodeTypes.find? n.mark.id = some t
  compared : ∀ s t b, c.subtypes.find? (s, t) = some b → cx.Compares F s t b

/-- A checker with entries of the tables and without an error. -/
structure Checker.Mild (c : Checker) : Prop where
  nodeTypes : c.nodeTypes.Within F.nodeTypes
  signatures : c.signatures.Within F.signatures
  clean : ∀ d ∈ c.diagnostics, d.isError = false

/-- An action that keeps to the tables, whichever types are given. -/
def Context.Abides {α : Type} (a : Check α) : Prop :=
  ∀ skip, Check.Proceeds (cx.Primed F skip) (fun c c₁ => c.Touches (fun _ => True) c₁) a

/-- Given the types of all nodes but `skip`, an action has the answer `x`. -/
def Context.Yields (skip : Option NodeId) {α : Type} (a : Check α) (x : α) : Prop :=
  ∃ c c', cx.Primed F skip c ∧ a c = .ok (x, c') ∧ F.Mild c'

/-- Tables that an accepted check leaves, with its course. -/
structure Context.Recalled (gs : List Finding) : Prop where
  proper : cx.Proper F
  bound : cx.WellBound
  bindings : ∀ x, (cx.symbol x).role.isBinding = true → ∃ t, F.symbolTypes.find? x = some t
  functions : ∀ d, .stmt (.fn d) ∈ cx.program.nodes → ∃ sig, F.signatures.find? d.mark.id = some sig
  noted : ∀ L e, cx.At L (.expr e) → ∃ t, F.nodeTypes.find? e.id = some t
  denoted : ∀ node, .ty node ∈ cx.program.nodes → ∃ t, Denotes cx.toBoundProgram node t
  denotes : ∀ node, .ty node ∈ cx.program.nodes → ∀ t, F.nodeTypes.find? node.mark.id = some t →
    Denotes cx.toBoundProgram node t
  arities : ∀ L m f args x, cx.At L (.expr (.call m f args)) → cx.symbolAt? f.mark.id = some x →
    (cx.symbol x).role = .function → ∃ sig ∈ cx.overloads F x, sig.params.length = args.length
  idle : F.pursuits = []
  mild : ∀ d ∈ F.diagnostics, d.isError = false
  course : cx.Course F gs F
  check : cx.Replays F gs [] (stmtsNodes cx.program.stmts) []
    (fun o => (cx.asking o).checkStmts cx.program.stmts) ()

end

theorem Resolver.typeOfNode_once (r : Resolver) (node : TyNode Mark) :
    ∃ find, r.typeOfNode node = Check.once node.mark.id find := by
  cases node <;> exact ⟨_, rfl⟩

section
variable {cx : Context} {F c c₁ : Checker} {skip : Option NodeId} {gs hs : List Finding}
  {N : List (Node Mark)} {α β : Type} {a : Check α} {f : α → Check β}

theorem Checker.Mild.before (mild : F.Mild c₁) (touches : c.Touches (fun _ => True) c₁) :
    F.Mild c where
  nodeTypes i t found := by
    rcases touches.nodeTypes i with same | ⟨none, _⟩
    · exact mild.nodeTypes i t (same.trans found)
    · cases none.symm.trans found
  signatures i sig found := by
    rcases touches.signatures i with same | ⟨none, _⟩
    · exact mild.signatures i sig (same.trans found)
    · cases none.symm.trans found
  clean d member := mild.clean d (touches.kept d member)

theorem Checker.Mild.not_error (mild : F.Mild c) {span : Span} {problem : Problem}
    (error : problem.severity = .error) (told : ⟨span, problem⟩ ∈ c.diagnostics) : False := by
  have clean := mild.clean _ told
  rw [Diagnostic.isError, error] at clean
  cases clean

theorem Context.Primed.later (primed : cx.Primed F skip c)
    (touches : c.Touches (fun _ => True) c₁) (same : c₁.subtypes = c.subtypes) :
    cx.Primed F skip c₁ where
  told L n place typed other t found := by
    have before := primed.told L n place typed other t found
    rcases touches.nodeTypes n.mark.id with same | ⟨none, _⟩
    · exact same.trans before
    · cases none.symm.trans before
  compared s t b found := primed.compared s t b (same ▸ found)

theorem Context.Abides.ite {p : Prop} [Decidable p] {a b : Check α} (yes : cx.Abides F a)
    (no : cx.Abides F b) : cx.Abides F (if p then a else b) := by
  split
  · exact yes
  · exact no

theorem Context.Abides.bind (own : cx.Abides F a) (own' : ∀ x, cx.Abides F (f x)) :
    cx.Abides F (a >>= f) := by
  intro skip c primed y c₂ run
  obtain ⟨x, c₁, first, rest⟩ := Check.bind_ok run
  obtain ⟨primed₁, touches⟩ := own skip c primed x c₁ first
  obtain ⟨primed₂, touches'⟩ := own' x skip c₁ primed₁ y c₂ rest
  exact ⟨primed₂, touches.trans touches'⟩

/-! ### What is yielded -/

namespace Context.Yields

theorem pure {x y : α} (yields : cx.Yields F skip (Pure.pure x : Check α) y) :
    y = x := by
  obtain ⟨c, c', _, run, _⟩ := yields
  cases run
  rfl

theorem bind {y : β} (own : cx.Abides F a) (own' : ∀ x, cx.Abides F (f x))
    (yields : cx.Yields F skip (a >>= f) y) :
    ∃ x, cx.Yields F skip a x ∧ cx.Yields F skip (f x) y := by
  obtain ⟨c, c', primed, run, mild⟩ := yields
  obtain ⟨x, c₁, first, rest⟩ := Check.bind_ok run
  obtain ⟨primed₁, _⟩ := own skip c primed x c₁ first
  obtain ⟨_, touches⟩ := own' x skip c₁ primed₁ y c' rest
  exact ⟨x, ⟨c, c₁, primed, first, mild.before touches⟩, c₁, c', primed₁, rest, mild⟩

theorem enters {x y : α} (enters : Check.Enters a x) (yields : cx.Yields F skip a y) : y = x := by
  obtain ⟨c, _, _, run, _⟩ := yields
  obtain ⟨_, _, entered⟩ := enters c
  cases entered.symm.trans run
  rfl

theorem not_report {span : Span} {problem : Problem} {x : Unit}
    (error : problem.severity = .error)
    (yields : cx.Yields F skip (Check.report span problem) x) : False := by
  obtain ⟨c, c', _, run, mild⟩ := yields
  cases run
  exact mild.not_error error Array.mem_push_self

theorem not_reject {span : Span} {problem : Problem} {x y : α}
    (error : problem.severity = .error)
    (yields : cx.Yields F skip (do Check.report span problem; return x) y) : False := by
  obtain ⟨c, c', _, run, mild⟩ := yields
  cases run
  exact mild.not_error error Array.mem_push_self

end Context.Yields

namespace Context.Recalled

variable (recalled : cx.Recalled F gs)
include recalled

/-! ### The tables as a judge -/

theorem orderly : cx.Orderly F where
  once := by rw [recalled.idle]; exact .nil
  unsettled := by rw [recalled.idle]; nofun
  inferring := by rw [recalled.idle]; nofun
  typable := recalled.proper.typed

theorem bindingType_eq {x : SymbolId} (binding : (cx.symbol x).role.isBinding = true) :
    F.symbolTypes.find? x = some (F.bindingType x) := by
  obtain ⟨t, found⟩ := recalled.bindings x binding
  rw [found, Checker.bindingType, found, Option.getD_some]

theorem promised (x : SymbolId) : cx.TypePromised F x (F.bindingType x) := by
  by_cases typable : cx.Typable x
  · exact .inl (recalled.bindingType_eq typable.1)
  · refine .inr ⟨?_, .inl typable⟩
    have none : F.symbolTypes.find? x = none := by
      by_contra some
      obtain ⟨t, found⟩ := Option.ne_none_iff_exists'.mp some
      exact typable (recalled.proper.typed x t found)
    rw [Checker.bindingType, none, Option.getD_none]

theorem rises {x : SymbolId} {u : Ty} (rises : cx.Rises F (.path x) u) : u = F.bindingType x :=
  recalled.orderly.type_unique rises (recalled.promised x)

theorem judges : cx.Judges (cx.asking F.recall) (cx.Primed F skip)
    (fun c c₁ => c.Touches (fun _ => True) c₁) fun _ => F where
  refl c _ := .refl _ c
  trans _ _ _ := .trans
  follows _ _ _ := .refl recalled.orderly
  compared _ primed := primed.compared
  widen c primed s u c₁ run := by
    cases s with
    | path x =>
      cases run
      exact ⟨primed, .refl _ c, recalled.promised x⟩
    | _ =>
      cases run
      exact ⟨primed, .refl _ c, rfl⟩
  keep c primed s t b compares := by
    refine ⟨{ told := primed.told, compared := fun s' t' b' found => ?_ }, .of_eq rfl rfl rfl⟩
    rw [Table.find?_insert] at found
    split at found
    · next same =>
      cases same
      cases found
      exact compares
    · exact primed.compared s' t' b' found

/-- All of checking by the tables keeps to them. -/
theorem located : Located cx (fun _ => True) fun act => cx.Abides F (act F.recall) where
  still still skip c primed x c' run :=
    ⟨primed.later (still.touches c x c' run) (still.subtypes c x c' run),
      still.touches c x c' run⟩
  bind first rest skip := recalled.judges.bind (first skip) fun x => rest x skip
  ask q _ _ skip c primed a c' run := by
    obtain rfl := Checker.recall_still run
    exact ⟨primed, .refl _ _⟩
  isSubtype s t skip := recalled.judges.isSubtype s t
  lub s t skip := recalled.judges.lubWithin (cx.symbols.size + 2 + 1) s t

/-! ### What is found again -/

/-- There is a primed checker that concurs with the tables. -/
theorem exists_primed (skip : Option NodeId) : ∃ c, cx.Primed F skip c ∧
    cx.Concurs F [] [] c ∧ c.pursuits = [] ∧ c.evaluating = [] ∧
      ∀ i, some i = skip → c.nodeTypes.find? i = none := by
  obtain ⟨types, restricted⟩ := F.nodeTypes.exists_restrict fun i =>
    some i ≠ skip ∧ ∃ L n, cx.At L n ∧ n.isTyped = true ∧ n.mark.id = i
  refine ⟨{ Checker.start cx.names with nodeTypes := types },
    { told := fun L n place typed other t found =>
        (restricted _ t).mpr ⟨found, other, L, n, place, typed, rfl⟩
      compared := nofun },
    { Concurs.start cx.names with
      nodeTypes := fun i t found => ((restricted i t).mp found).1
      awaited := nofun
      written := fun L e place w entry present => ?_ }, rfl, rfl, fun i same => ?_⟩
  · cases w with
    | pattern i =>
      obtain ⟨t, found⟩ := Option.isSome_iff_exists.mp present
      obtain ⟨_, _, _, n, place', typed, rfl⟩ := (restricted i t).mp found
      refine absurd entry (pattern_free recalled.proper.nested.toGrounded place'.node ?_ place)
      rintro q rfl
      cases typed
    | _ => cases present
  · by_contra some
    obtain ⟨t, found⟩ := Option.ne_none_iff_exists'.mp some
    exact ((restricted i t).mp found).2.1 same

theorem mild_of_concurs {D W : List Entry} (concurs : cx.Concurs F D W c) : F.Mild c where
  nodeTypes := concurs.nodeTypes
  signatures := concurs.signatures
  clean d member := recalled.mild d (concurs.told d member)

/-- What is found again is what the tables yield. -/
theorem yields {act : Oracle → Check α} {x : α} (replays : cx.Replays F hs [] N [] act x)
    (skip : Option NodeId) : cx.Yields F skip (act F.recall) x := by
  obtain ⟨c, primed, concurs, pursuits, evaluating, _⟩ := recalled.exists_primed skip
  obtain ⟨c', run, concurs'⟩ := replays.recalled recalled.proper.typed concurs pursuits evaluating
  exact ⟨c, c', primed, run, recalled.mild_of_concurs concurs'⟩

/-- The type of a node at a place is what the tables yield of its parts. -/
theorem yields_node {L : List (Node Mark)} {n : Node Mark} {t : Ty} {find : Check Ty}
    (place : cx.At L n) (typed : n.isTyped = true) (found : F.nodeTypes.find? n.mark.id = some t)
    (visits : cx.visitAt F L n F.recall = Check.once n.mark.id find) :
    cx.Yields F (some n.mark.id) find t := by
  have listed := (recalled.course.noted L n place typed).mp (Option.isSome_of_eq_some found)
  obtain ⟨u, kept, replays⟩ := recalled.course.visited place listed
  cases found.symm.trans kept
  obtain ⟨c, primed, concurs, pursuits, evaluating, new⟩ :=
    recalled.exists_primed (some n.mark.id)
  obtain ⟨c', run, concurs'⟩ := replays.recalled recalled.proper.typed concurs pursuits evaluating
  rw [visits] at run
  rcases Check.once_ok run with ⟨known, _⟩ | ⟨_, c₁, finds, rfl⟩
  · cases (new n.mark.id rfl).symm.trans known
  · exact ⟨c, c₁, primed, finds, (recalled.mild_of_concurs concurs').before (.noteNew trivial t)⟩

/-- The type of a binding is what the tables yield of its declaration. -/
theorem yields_binding {x : SymbolId} {d : Decl} (typable : cx.Typable x)
    (head : (cx.symbol x).decls.head? = some d) :
    cx.Yields F none ((cx.asking F.recall).typeOfDecl d) (F.bindingType x) := by
  have found := recalled.bindingType_eq typable.1
  have settled : F.isSettled (.typeOf x) = true := Option.isSome_of_eq_some found
  have listed := recalled.course.settled (.typeOf x) trivial settled
  obtain ⟨ks, _, repeated⟩ := recalled.course.again listed
  obtain ⟨t, kept, _, d', head', replays⟩ := repeated (.typeOf x) trivial rfl
  cases head.symm.trans head'
  cases found.symm.trans kept
  exact recalled.yields replays none

omit recalled in
/-- What is typed once is told, if its type is given. -/
theorem yields_once {L : List (Node Mark)} {n : Node Mark} {find : Check Ty} {t : Ty}
    (place : cx.At L n) (typed : n.isTyped = true) (other : some n.mark.id ≠ skip)
    (yields : cx.Yields F skip (Check.once n.mark.id find) t) :
    F.nodeTypes.find? n.mark.id = some t := by
  obtain ⟨c, c', primed, run, mild⟩ := yields
  rcases Check.once_ok run with ⟨known, rfl⟩ | ⟨new, c₁, _, rfl⟩
  · exact mild.nodeTypes _ _ known
  · have written : (c₁.nodeTypes.insertNew n.mark.id t).contains n.mark.id = true :=
      Table.contains_insertNew.mpr (.inr rfl)
    obtain ⟨u, kept⟩ := Option.isSome_iff_exists.mp written
    cases new.symm.trans (primed.told L n place typed other u (mild.nodeTypes _ _ kept))

omit recalled in
theorem yields_type {L : List (Node Mark)} {node : TyNode Mark} {t : Ty} (place : cx.At L (.ty node))
    (other : some node.mark.id ≠ skip)
    (yields : cx.Yields F skip ((cx.asking F.recall).typeOfNode node) t) :
    F.nodeTypes.find? node.mark.id = some t := by
  obtain ⟨find, same⟩ := (cx.asking F.recall).typeOfNode_once node
  rw [same] at yields
  exact yields_once place rfl other yields

theorem yields_stmts {ss : List (Stmt Mark)} {s : Stmt Mark} (nodes : stmtsNodes ss ⊆ cx.program.nodes)
    (member : s ∈ ss) (yields : cx.Yields F skip ((cx.asking F.recall).checkStmts ss) ()) :
    cx.Yields F skip ((cx.asking F.recall).checkStmt s) () := by
  have ground := recalled.proper.nested.toGrounded
  induction ss with
  | nil => cases member
  | cons k ss ih =>
    have first := recalled.located.checkStmt ground nodes (fun _ _ => trivial) k
      (List.subset_append_left _ _)
    have others := recalled.located.checkStmts ground nodes (fun _ _ => trivial) ss
      (List.subset_append_right _ _)
    obtain ⟨⟨⟩, head, rest⟩ := yields.bind first fun _ => others
    rcases List.mem_cons.mp member with rfl | later
    · exact head
    · exact ih (fun n inside => nodes (List.mem_append_right _ inside)) later rest

theorem yields_stmt {L : List (Node Mark)} {s : Stmt Mark} (place : cx.At L (.stmt s)) :
    ∃ skip, cx.Yields F skip ((cx.asking F.recall).checkStmt s) () ∧
      ∀ n ∈ s.nodes, some n.mark.id ≠ skip := by
  have ground := recalled.proper.nested.toGrounded
  rcases place.stmt_parent with top | ⟨K, m, ss, tail, rfl, member, block⟩
  · exact ⟨none, recalled.yields_stmts (List.subset_append_left _ _) top
      (recalled.yields recalled.check none), fun _ _ => nofun⟩
  · have inside : stmtsNodes ss ⊆ cx.program.nodes := fun n inside =>
      Program.mem_below block.node (List.mem_append_left _ (List.mem_append_left _ inside))
    obtain ⟨t, found⟩ := recalled.noted _ _ block
    have yields := recalled.yields_node block rfl found rfl
    have stmts := recalled.located.checkStmts ground inside (fun _ _ => trivial) ss
      (List.Subset.refl _)
    have last : ∀ expected, cx.Abides F ((cx.asking F.recall).typeOfTail tail expected) :=
      fun expected => recalled.located.typeOfTail ground (fun _ => Program.mem_below block.node)
        (fun _ _ => trivial) tail expected
          fun n inside => List.mem_append_left _ (List.mem_append_right _ inside)
    obtain ⟨⟨⟩, checks, _⟩ := yields.bind stmts fun _ => last _
    refine ⟨some m.id, recalled.yields_stmts inside member checks, fun n own same => ?_⟩
    exact ground.below_part block (List.mem_append_left _ (List.mem_map_of_mem member)) own
      (Option.some.inj same)

/-- The target of an alias is the type of its type node. -/
theorem alias_settled {x : SymbolId} {d : AliasDecl Mark}
    (head : (cx.symbol x).decls.head? = some (.typeAlias d)) :
    ∃ t, F.aliasTargets.find? x = some t ∧ F.nodeTypes.find? d.ty.mark.id = some t := by
  have ground := recalled.proper.nested.toGrounded
  have decl := List.mem_of_mem_head? head
  have real : x ≠ Symbol.unresolvedId := by
    rintro rfl
    rw [Symbol.unresolvedId, recalled.bound.unresolved] at decl
    cases decl
  obtain ⟨L, place⟩ := recalled.proper.stands _ (ground.decl x _ decl)
  have target : cx.symbolAt? d.mark.id = some x :=
    Binding.symbolAt?_of_target (ground.target x _ decl) real
  have small : x < cx.symbols.size := by
    by_contra large
    rw [BoundProgram.WellBound.symbol_of_large (Nat.not_lt.mp large)] at decl
    cases decl
  obtain ⟨skip, yields, _⟩ := recalled.yields_stmt place
  have found : ∃ t, F.aliasTargets.find? x = some t := by
    obtain ⟨m, name, ty⟩ := d
    simp only [Resolver.checkStmt, cx.asking_toContext, target] at yields
    obtain ⟨c, c', _, run, _⟩ := yields
    obtain ⟨t, c₁, asked, _⟩ := Check.bind_ok run
    exact ⟨t, (Check.entry_ok asked).1⟩
  obtain ⟨t, found⟩ := found
  have listed := recalled.course.settled (.aliasTarget x d.mark.span) small
    (Option.isSome_of_eq_some found)
  obtain ⟨ks, _, repeated⟩ := recalled.course.again listed
  obtain ⟨u, kept, replays⟩ := repeated (.aliasTarget x d.mark.span) trivial rfl
  cases found.symm.trans kept
  have again := recalled.yields replays none
  rw [head] at again
  have place := place.part (k := .ty d.ty) List.mem_cons_self
  exact ⟨t, found, yields_type place (Option.some_ne_none _) again⟩

/-- The signature of a function is what the tables yield of its parameters and its result. -/
theorem yields_function {d : FnDecl Mark} (node : .stmt (.fn d) ∈ cx.program.nodes) :
    ∃ params t, cx.Yields F none (d.params.mapM (cx.asking F.recall).typeOfParam) params ∧
      cx.Yields F none ((cx.asking F.recall).typeOfBody d) t ∧
      F.signatures.find? d.mark.id =
        some ⟨d, (cx.targets.find? d.mark.id).getD Symbol.unresolvedId, params,
          if d.result.isSome then t else t.widenLiteral⟩ := by
  obtain ⟨sig, found⟩ := recalled.functions d node
  have settled : F.isSettled (.resultOf d.mark.id) = true := Option.isSome_of_eq_some found
  have listed := recalled.course.settled (.signature d) node settled
  obtain ⟨ks, _, repeated⟩ := recalled.course.again listed
  obtain ⟨sig', kept, params, t, first, second, rfl⟩ := repeated (.signature d) node rfl
  exact ⟨params, t, recalled.yields first none, recalled.yields second none, kept⟩

/-! ### What is found of a call -/

theorem yields_isSubtype {s t : Ty} {b : Bool}
    (yields : cx.Yields F skip ((cx.asking F.recall).isSubtype s t) b) : cx.Compares F s t b := by
  obtain ⟨c, c', primed, run, _⟩ := yields
  exact (recalled.judges.isSubtypeWithin primed run).2.2

/-- Where not all types are subtypes, one of them is none. -/
theorem yields_allSubtypes : ∀ {ss ts : List Ty},
    cx.Yields F skip ((cx.asking F.recall).allSubtypes ss ts) false →
      ∃ p ∈ ss.zip ts, cx.Compares F p.1 p.2 false
  | s :: ss, t :: ts, yields => by
    simp only [Resolver.allSubtypes] at yields
    obtain ⟨b, first, rest⟩ := yields.bind (recalled.located.isSubtype s t) fun _ =>
      .ite (recalled.located.allSubtypes ss ts) (recalled.located.pure false)
    cases b with
    | true =>
      obtain ⟨p, member, compares⟩ := yields_allSubtypes rest
      exact ⟨p, List.mem_cons_of_mem _ member, compares⟩
    | false => exact ⟨(s, t), List.mem_cons_self, recalled.yields_isSubtype first⟩
  | [], _, yields => by cases yields.pure
  | _ :: _, [], yields => by cases yields.pure

/-- If no argument is reported, every parameter accepts its argument. -/
theorem yields_reportArgument : ∀ {spans : List Span} {ss ts : List Ty},
    ss.length ≤ spans.length →
      cx.Yields F skip ((cx.asking F.recall).reportArgument spans ss ts) () →
        ∀ p ∈ ss.zip ts, cx.Compares F p.1 p.2 true
  | span :: spans, s :: ss, t :: ts, fits, yields => by
    simp only [Resolver.reportArgument] at yields
    obtain ⟨b, first, rest⟩ := yields.bind (recalled.located.isSubtype s t) fun _ =>
      .ite (recalled.located.reportArgument spans ss ts fun span _ => Mark.exists_span span)
        (recalled.located.report (Mark.exists_span span) _)
    cases b with
    | true => exact List.forall_mem_cons.mpr ⟨recalled.yields_isSubtype first,
        yields_reportArgument (Nat.le_of_succ_le_succ fits) rest⟩
    | false => exact (rest.not_report rfl).elim
  | [], [], _, _, _ => by simp
  | [], _ :: _, _, fits, _ => absurd fits (Nat.not_succ_le_zero _)
  | _ :: _, [], _, _, _ => by simp
  | _ :: _, _ :: _, [], _, _ => by simp

omit recalled in
/-- What does not pass a test was found not to. -/
theorem yields_filterM {test : α → Check Bool} (own : ∀ x, cx.Abides F (test x))
    (recalled : cx.Recalled F gs) {xs ys : List α} (yields : cx.Yields F skip (xs.filterM test) ys) :
    ∀ x ∈ xs, x ∈ ys ∨ cx.Yields F skip (test x) false := by
  have composed := recalled.located.composed
  have inner := composed.filterAuxM (f := fun x _ => test x) own
  have aux : ∀ {xs acc zs : List α}, cx.Yields F skip (xs.filterAuxM test acc) zs →
      (∀ x ∈ acc, x ∈ zs) ∧ ∀ x ∈ xs, x ∈ zs ∨ cx.Yields F skip (test x) false := by
    intro xs
    induction xs with
    | nil =>
      intro acc zs yields
      obtain rfl := yields.pure
      exact ⟨fun _ => id, nofun⟩
    | cons x xs ih =>
      intro acc zs yields
      obtain ⟨b, first, rest⟩ := yields.bind (own x) fun b => inner xs (cond b (x :: acc) acc)
      obtain ⟨kept, others⟩ := ih rest
      cases b with
      | true => exact ⟨fun y member => kept y (List.mem_cons_of_mem _ member),
          List.forall_mem_cons.mpr ⟨.inl (kept x List.mem_cons_self), others⟩⟩
      | false => exact ⟨kept, List.forall_mem_cons.mpr ⟨.inr first, others⟩⟩
  obtain ⟨zs, first, rest⟩ := yields.bind (inner xs []) fun zs => composed.pure zs.reverse
  obtain rfl := rest.pure
  exact fun x member => ((aux first).2 x member).imp_left List.mem_reverse.mpr

omit recalled in
theorem yields_signaturesOf {x : SymbolId} {sigs : List Signature}
    (yields : cx.Yields F skip ((cx.asking F.recall).signaturesOf x) sigs) :
    sigs = cx.overloads F x := by
  obtain ⟨c, c', _, run, _⟩ := yields
  have found : ∀ {ds : List (FnDecl Mark)} {sigs : List Signature} {c c' : Checker},
      ds.mapM (cx.asking F.recall).signature c = .ok (sigs, c') →
        List.Forall₂ (fun d sig => F.signatures.find? d.mark.id = some sig) ds sigs := by
    intro ds
    induction ds with
    | nil =>
      intro sigs c c' run
      cases run
      exact .nil
    | cons d ds ih =>
      intro sigs c c' run
      rw [List.mapM_cons] at run
      obtain ⟨sig, c₁, first, run⟩ := Check.bind_ok run
      obtain ⟨rest, c₂, later, run⟩ := Check.bind_ok run
      cases run
      exact .cons (Check.entry_ok first).1 (ih later)
  exact cx.overloads_of_found (found run)

/-- Where no overload accepts the arguments of a call, a problem is reported. -/
theorem not_yields_noMatch {call : Call} {sigs : List Signature} {args : List Ty}
    (fits : args.length = call.args.length)
    (none : cx.Yields F skip ((sigs.filter fun sig => sig.params.length == call.args.length).filterM
      fun sig => (cx.asking F.recall).allSubtypes args sig.params) []) :
    ¬cx.Yields F skip ((cx.asking F.recall).reportNoMatch call sigs args) () := by
  intro yields
  rcases sigs with _ | ⟨only, _ | ⟨next, sigs⟩⟩
  · exact yields.not_report rfl
  · by_cases arity : only.params.length = call.args.length
    · simp only [Resolver.reportNoMatch, ne_eq, arity, not_true_eq_false, if_false] at yields
      have accepts := recalled.yields_reportArgument (Nat.le_of_eq fits) yields
      have refused := yields_filterM (fun sig => recalled.located.allSubtypes args sig.params)
        recalled none only (by simp [arity])
      obtain ⟨p, member, fails⟩ :=
        recalled.yields_allSubtypes (refused.resolve_left List.not_mem_nil)
      cases (accepts p member).unique recalled.orderly fails
    · simp only [Resolver.reportNoMatch, ne_eq, arity, not_false_eq_true, if_true] at yields
      exact yields.not_report rfl
  · exact yields.not_report rfl

end Context.Recalled

end

/-- A draft that passes leaves tables with a course. -/
theorem Draft.Passes.recalled {d : Draft} {o : Options} {q : Checked} (passes : d.Passes o q) :
    ∃ F gs, q.checker = { F with diagnostics := #[] } ∧ (d.context o).Recalled F gs := by
  obtain ⟨same, cert⟩ := passes.certified
  have ground := d.grounded o
  obtain ⟨F, check, rfl⟩ := Context.checked_ok passes.checked
  have plain : (d.context o).visit [] [] ((d.context o).oracle (d.context o).questionBound)
      (.start (d.context o).names) = .ok ((), F) := by
    rw [← Context.check_eq]
    exact check
  have posed : ∀ q ∈ ([] ++ [] : List Demand), (d.context o).Poses q := nofun
  have tame := ((Faithful.oracle ground (d.context o).questionBound).thorough ground).visit ground
    posed
  have orderly := ((tame _ (.start _ (d.context o).names)).run () F plain).1.orderly
  have mild : ∀ e ∈ F.diagnostics, e.isError = false := fun e member =>
    passes.quiet e (List.mem_append_right _ (Array.mem_toList_iff.mpr member))
  have proper : (d.context o).Proper F :=
    (cert.proper (d.wellNested o) orderly.typable).mono (.refl _) (.refl _)
  have concern : ∀ q ∈ ([] : List Demand), (d.context o).Concerns q := nofun
  obtain ⟨gs, course, replays⟩ := proper.course cert.bound concern plain mild
  refine ⟨F, gs, rfl,
    { proper, bound := cert.bound, idle := cert.pursuits, mild, course, check := replays
      bindings := fun x binding => ?_, functions := fun d node => ?_
      noted := fun L e place => cert.noted place
      denoted := fun node member => cert.settled member
      denotes := cert.sound.types
      arities := fun L m f args x place target role => ?_ }⟩
  · obtain ⟨t, found, _⟩ := cert.binding binding
    exact ⟨t, found⟩
  · obtain ⟨sig, _, found, _⟩ := cert.fn node
    exact ⟨sig, found⟩
  · obtain ⟨t, _, y, types, target', inner, outcome⟩ := Under.judged place cert.stmts
    cases target.symm.trans target'
    rcases outcome with ⟨builtin, _⟩ | ⟨_, sig, _, offers, below, _⟩
    · cases builtin.symm.trans role
    · refine ⟨sig, List.mem_filterMap.mpr
        ⟨sig.decl, Decl.mem_fns.mpr offers.overload, offers.known⟩, ?_⟩
      exact below.length_eq.symm.trans inner.length

end Solo

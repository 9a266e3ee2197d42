import Solo.Proofs.Replays

/-!
# The course of an accepted check

A check that reports no error and in which no goal needs itself has a course: its findings, in the
order in which they come. Every finding can be found again after the ones before it, in any order of
demands. An action is charted if each of its accepted runs goes on with the course and the action
can be replayed after it.
-/

namespace Solo

/-! ### Expected types -/

/-- The type that is expected of the argument with a number. -/
def expectedAt : List (Expr Mark) → List Ty → NodeId → Option Ty
  | [], _, _ => none
  | e :: es, ts, i => if e.id = i then ts.head? else expectedAt es ts.tail i

/-- The type that is found for a symbol; what is no binding has the error type. -/
def Checker.bindingType (F : Checker) (x : SymbolId) : Ty := (F.symbolTypes.find? x).getD .error

section
variable (cx : Context) (F : Checker)

/-- The signatures of all overloads of a function that are found. -/
def Context.overloads (x : SymbolId) : List Signature :=
  ((cx.symbol x).decls.filterMap Decl.fn?).filterMap fun d => F.signatures.find? d.mark.id

theorem Context.overloads_of_found {F : Checker} {x : SymbolId} {sigs : List Signature}
    (found : List.Forall₂ (fun d sig => F.signatures.find? d.mark.id = some sig)
      ((cx.symbol x).decls.filterMap Decl.fn?) sigs) : sigs = cx.overloads F x := by
  rw [overloads]
  revert found
  generalize (cx.symbol x).decls.filterMap Decl.fn? = ds
  intro found
  induction found with
  | nil => rfl
  | cons first _ ih => rw [List.filterMap_cons, first, ih]

/-- The types that the arguments of a call are expected to have. -/
def Context.expectedOf (f : Ident Mark) (count : Nat) : List Ty :=
  match cx.symbolAt? f.mark.id with
  | none => []
  | some x =>
    if (cx.symbol x).role = .function then Resolver.expectedArgs count (cx.overloads F x) else []

/-- The type that is expected of an expression at a place. -/
def Context.due : List (Node Mark) → Expr Mark → Option Ty
  | .expr (.paren m e) :: L, _ => due L (.paren m e)
  | .expr (.block m ss tail) :: L, _ => due L (.block m ss tail)
  | .expr (.cases m e arms) :: L, k => if k.id = e.id then none else due L (.cases m e arms)
  | .expr (.call _ f args) :: _, k => expectedAt args (cx.expectedOf F f args.length) k.id
  | .expr (.assign _ x _) :: _, _ => (cx.symbolAt? x.mark.id).map F.bindingType
  | .stmt (.val d) :: _, _ =>
    if d.ty.isSome then (cx.symbolAt? d.mark.id).map F.bindingType else none
  | .stmt (.fn d) :: _, _ =>
    if d.result.isSome then (F.signatures.find? d.mark.id).map (·.result) else none
  | _, _ => none

end

/-! ### Entries -/

def Pat.isRecorded : Pat Mark → Bool
  | .wildcard _ => false
  | _ => true

def armEntries (arms : List (Arm Mark)) : List Entry :=
  (arms.filter fun a => a.pat.isRecorded).map fun a => .pattern a.pat.mark.id

/-- The entries of an expression that its typing writes if it reports nothing. -/
def Context.writes (cx : Context) : Node Mark → List Entry
  | .expr (.call m f _) =>
    if (cx.symbolAt? f.mark.id).any fun x => (cx.symbol x).role = .function then [.signature m.id]
    else []
  | .expr (.inhabitant m _) => [.witness m.id]
  | .expr (.cases _ _ arms) => armEntries arms
  | _ => []

def Context.written (cx : Context) : Finding → List Entry
  | .goal _ => []
  | .node n => cx.writes n

theorem Context.writes_sublist (cx : Context) (n : Node Mark) :
    (cx.writes n).Sublist n.entries := by
  cases n with
  | expr e =>
    cases e with
    | call m f args =>
      rw [writes]
      split
      · exact .refl _
      · exact List.nil_sublist _
    | cases m e arms => exact List.filter_sublist.map _
    | _ => exact .refl _
  | _ => exact .refl _

/-- The value `v` of an inhabitant expression is entered and recorded. -/
def Checker.putWitness (c : Checker) (i : NodeId) (t : Ty) (v : Literal) : Checker :=
  { c with
    interns := (c.interns.internLiteral v).2
    witnesses := c.witnesses.insert i ⟨t, (c.interns.internLiteral v).1, v⟩ }

/-! ### What is found again -/

/-- The nodes among which the type nodes are that a declaration's type is found from. -/
def Decl.seen : Decl → List (Node Mark)
  | .param q => q.ty.nodes
  | .typeAlias d => d.ty.nodes
  | .val d => (d.ty.map TyNode.nodes).getD d.init.nodes
  | .fn d => (d.result.map TyNode.nodes).getD d.body.nodes

/-- The nodes among which the type nodes are that are looked at to meet a demand. -/
def Context.seen (cx : Context) : Demand → List (Node Mark)
  | .typeOf x | .aliasTarget x _ => ((cx.symbol x).decls.head?.map Decl.seen).getD []
  | .signature d => Decl.seen (.fn d)

/-- The declared type of a function's result, or the type of its body. -/
def Resolver.typeOfBody (r : Resolver) (d : FnDecl Mark) : Check Ty :=
  match d.result with
  | some node => r.typeOfNode node
  | none => r.typeOfExpr d.body none

section
variable (cx : Context) (F : Checker)

/-- The type of a node is found at a place. -/
def Context.visitAt (L : List (Node Mark)) : Node Mark → Oracle → Check Ty
  | .expr e, o => (cx.asking o).typeOfExpr e (cx.due F L e)
  | .ty node, o => (cx.asking o).typeOfNode node
  | _, _ => pure .error

/-- What is looked for to meet a demand is found again. -/
def Context.Seeks (ks : List Finding) : (q : Demand) → q.Answer → Prop
  | .typeOf x, t => cx.Typable x ∧ ∃ d, (cx.symbol x).decls.head? = some d ∧
    cx.Replays F ks [] (cx.seen (.typeOf x)) [] (fun o => (cx.asking o).typeOfDecl d) t
  | .aliasTarget x span, t => cx.Replays F ks [] (cx.seen (.aliasTarget x span)) []
    (fun o => (cx.asking o).typeOfTarget (cx.symbol x).decls.head?) t
  | .signature d, sig => ∃ params t,
    cx.Replays F ks [] [] [] (fun o => d.params.mapM (cx.asking o).typeOfParam) params ∧
    cx.Replays F ks [] (cx.seen (.signature d)) [] (fun o => (cx.asking o).typeOfBody d) t ∧
    sig = ⟨d, (cx.targets.find? d.mark.id).getD Symbol.unresolvedId, params,
      if d.result.isSome then t else t.widenLiteral⟩

/-- A demand about a function or an alias of the program, or about a binding. -/
def Context.Concerns : Demand → Prop
  | .typeOf _ => True
  | .aliasTarget x _ => x < cx.symbols.size
  | .signature d => .stmt (.fn d) ∈ cx.program.nodes

/-- After other findings, a finding is found again. -/
def Context.Repeated (ks : List Finding) : Finding → Prop
  | .goal g => ∀ q, cx.Poses q → q.goal = g → ∃ a, q.Kept F a ∧ cx.Seeks F ks q a
  | .node n => ∀ L, cx.At L n → ∃ t, F.nodeTypes.find? n.mark.id = some t ∧
    cx.Replays F ks [.node n] n.below [] (cx.visitAt F L n) t

/-- A finding about a symbol, a function or a node of the program. -/
def Context.Placed : Finding → Prop
  | .goal (.typeOf x) | .goal (.targetOf x) => x < cx.symbols.size
  | .goal (.resultOf i) => ∃ n ∈ cx.program.nodes, n.mark.id = i
  | .node n => ∃ L, cx.At L n

/-- The course up to a state: what was found, each finding found again after those before it. -/
structure Context.Course (gs : List Finding) (c : Checker) : Prop where
  repeated : ∀ ks i, ks ++ [i] <+: gs → cx.Repeated F ks i
  distinct : gs.Nodup
  placed : ∀ i ∈ gs, cx.Placed i
  settled : ∀ q, cx.Concerns q → c.isSettled q.goal = true → .goal q.goal ∈ gs
  noted : ∀ L n, cx.At L n → n.isTyped = true → (c.noted n.mark.id = true ↔ .node n ∈ gs)
  compared : ∀ s t b, c.subtypes.find? (s, t) = some b → ∃ n, cx.Compared F gs n s t b

end

/-- A state before `F`, in which no error is reported, where no goal in progress needs itself. -/
structure Checker.Accepted (F c : Checker) : Prop where
  within : c.Within F
  told : ∀ d ∈ c.diagnostics, d ∈ F.diagnostics
  mild : ∀ d ∈ F.diagnostics, d.isError = false
  straight : ∀ p ∈ c.pursuits, p.looped = false

/-- Between two states some entries are written. -/
structure Checker.Wrote (c c' : Checker) (X : List Entry) : Prop where
  distinct : X.Nodup
  before : ∀ w ∈ X, c.has w = false
  after : ∀ w ∈ X, c'.has w = true

/-- An answer of the tables to a demand, among the findings. -/
def Context.Met (cx : Context) (F : Checker) (gs : List Finding) : (q : Demand) → q.Answer → Prop
  | .typeOf x, t => cx.Climbs F gs (.path x) t
  | .aliasTarget x span, t =>
    .goal (.targetOf x) ∈ gs ∧ Demand.Kept F (.aliasTarget x span) t
  | .signature d, sig => .goal (.resultOf d.mark.id) ∈ gs ∧ Demand.Kept F (.signature d) sig

/-- From a state to a later one the course goes on with `ls`. The entries `X` are written, and those
of `ls`. -/
structure Context.Advances (cx : Context) (F : Checker) (X : List Entry) (gs ls : List Finding)
    (c c' : Checker) : Prop where
  course : cx.Course F (gs ++ ls) c'
  wrote : c.Wrote c' (X ++ ls.flatMap cx.written)
  within : c.Within c'

/-- An oracle whose accepted answers go on with the course. -/
structure Context.Guides (cx : Context) (F : Checker) (o : Oracle) : Prop where
  grows : ∀ q c a c', o q c = .ok (a, c') → c.Grows c'
  leads : ∀ q, cx.Concerns q → ∀ c a c', o q c = .ok (a, c') → F.Accepted c' →
    ∀ gs, cx.Course F gs c → ∃ ls, cx.Advances F [] gs ls c c' ∧ cx.Met F (gs ++ ls) q a

/-- An action whose accepted runs go on with the course, if `P` holds. The answer satisfies `Q`, and
after the run it can be replayed. -/
structure Context.Charts (cx : Context) (F : Checker) (o : Oracle) (P : Prop) (X : List Entry)
    (N : List (Node Mark)) {α : Type} (act : Oracle → Check α) (Q : α → Prop) : Prop where
  lawful : Lawful cx act
  grows : ∀ c x c', act o c = .ok (x, c') → c.Grows c'
  leads : P → ∀ c x c', act o c = .ok (x, c') → F.Accepted c' → ∀ gs, cx.Course F gs c →
    ∃ ls, cx.Advances F X gs ls c c' ∧ cx.Replays F (gs ++ ls) [] N X act x ∧ Q x

namespace Check

variable {i : NodeId} {find : Check Ty} {t : Ty} {c c₁ c' : Checker}

theorem once_new (new : c.nodeTypes.find? i = none) (run : find c = .ok (t, c₁)) :
    once i find c = .ok (t, c₁.note i t) := by
  rw [once, get_bind, new]
  change (find >>= _) c = _
  rw [bind_apply, run]
  rfl

theorem once_ok (run : once i find c = .ok (t, c')) :
    (c.nodeTypes.find? i = some t ∧ c' = c) ∨
      (c.nodeTypes.find? i = none ∧ ∃ c₁, find c = .ok (t, c₁) ∧ c' = c₁.note i t) := by
  rw [once, get_bind] at run
  cases found : c.nodeTypes.find? i with
  | some u =>
    rw [found] at run
    cases run
    exact .inl ⟨rfl, rfl⟩
  | none =>
    rw [found] at run
    obtain ⟨u, c₁, run₁, rest⟩ := bind_ok run
    cases rest
    exact .inr ⟨rfl, c₁, run₁, rfl⟩

end Check

section
variable {cx : Context} {F c c₁ c₂ : Checker} {X Y : List Entry} {gs hs ls : List Finding}
  {N M : List (Node Mark)} {o : Oracle} {α β : Type} {P P' : Prop} {act : Oracle → Check α}
  {f : α → Oracle → Check β} {Q Q' : α → Prop} {R : β → Prop}

namespace Checker

theorem Within.has (within : c.Within c₁) {w : Entry} (present : c.has w = true) :
    c₁.has w = true := by
  cases w with
  | signature i =>
    obtain ⟨v, found⟩ := Option.isSome_iff_exists.mp present
    exact Option.isSome_of_eq_some (within.signatures i v found)
  | witness i =>
    obtain ⟨v, found⟩ := Option.isSome_iff_exists.mp present
    exact Option.isSome_of_eq_some (within.witnesses i v found)
  | pattern i =>
    obtain ⟨v, found⟩ := Option.isSome_iff_exists.mp present
    exact Option.isSome_of_eq_some (within.nodeTypes i v found)

theorem Accepted.before (accepted : F.Accepted c₁) (grows : c.Grows c₁) : F.Accepted c where
  within := grows.toWithin.trans accepted.within
  told d member := accepted.told d (grows.diagnostics d member)
  mild := accepted.mild
  straight := grows.pursuits.straight accepted.straight

/-- No error is reported in a state before `F`. -/
theorem Accepted.not_error (accepted : F.Accepted c) {d : Diagnostic} (error : d.isError = true)
    (member : d ∈ c.diagnostics) : False := by
  cases error.symm.trans (accepted.mild d (accepted.told d member))

theorem Wrote.nothing (c c' : Checker) : c.Wrote c' [] := ⟨.nil, nofun, nofun⟩

theorem Wrote.perm (wrote : c.Wrote c₁ X) (same : X.Perm Y) : c.Wrote c₁ Y where
  distinct := same.nodup wrote.distinct
  before w member := wrote.before w (same.mem_iff.mpr member)
  after w member := wrote.after w (same.mem_iff.mpr member)

theorem Wrote.append (first : c.Wrote c₁ X) (second : c₁.Wrote c₂ Y) (grows : c.Within c₁)
    (grows' : c₁.Within c₂) : c.Wrote c₂ (X ++ Y) where
  distinct := List.nodup_append.mpr ⟨first.distinct, second.distinct, fun w early w' late same => by
    cases (first.after w early).symm.trans (same ▸ second.before w' late)⟩
  before w member := by
    rcases List.mem_append.mp member with early | late
    · exact first.before w early
    · by_contra present
      cases (grows.has (Bool.of_not_eq_false present)).symm.trans (second.before w late)
  after w member := by
    rcases List.mem_append.mp member with early | late
    · exact grows'.has (first.after w early)
    · exact second.after w late

end Checker

namespace Context

theorem Met.replays {q : Demand} {a : q.Answer} (met : cx.Met F gs q a) (posed : cx.Poses q) :
    cx.Replays F gs [] N [] (fun o => o q) a := by
  cases q with
  | typeOf x =>
    cases met with
    | path found listed => exact .ask posed listed found
    | untyped untyped none => exact .untyped untyped none
  | _ => exact .ask posed met.1 met.2

theorem Concerns.poses {q : Demand} (concerns : cx.Concerns q) : cx.Poses q := by
  cases q with
  | signature d => exact concerns
  | _ => trivial

theorem Course.still (course : cx.Course F gs c)
    (settled : ∀ q, cx.Concerns q → c₁.isSettled q.goal = c.isSettled q.goal)
    (noted : ∀ L n, cx.At L n → n.isTyped = true → c₁.noted n.mark.id = c.noted n.mark.id)
    (subtypes : c₁.subtypes = c.subtypes) : cx.Course F gs c₁ :=
  { course with
    settled := fun q concerns found => course.settled q concerns (settled q concerns ▸ found)
    noted := fun L n place typed => by rw [noted L n place typed, course.noted L n place typed]
    compared := subtypes ▸ course.compared }

theorem Course.snoc (course : cx.Course F gs c) {i : Finding} (repeated : cx.Repeated F gs i)
    (new : i ∉ gs) (placed : cx.Placed i)
    (settled : ∀ q, cx.Concerns q → c₁.isSettled q.goal = true →
      c.isSettled q.goal = true ∨ .goal q.goal = i)
    (noted : ∀ L n, cx.At L n → n.isTyped = true →
      (c₁.noted n.mark.id = true ↔ c.noted n.mark.id = true ∨ .node n = i))
    (subtypes : c₁.subtypes = c.subtypes) : cx.Course F (gs ++ [i]) c₁ where
  repeated ks j before := by
    rcases List.prefix_concat_iff.mp before with whole | earlier
    · obtain ⟨rfl, same⟩ := List.append_inj' whole rfl
      cases same
      exact repeated
    · exact course.repeated ks j earlier
  distinct := List.nodup_append.mpr ⟨course.distinct, List.nodup_singleton i,
    fun j member k last same => new (List.mem_singleton.mp last ▸ same ▸ member)⟩
  placed j member := by
    rcases List.mem_append.mp member with earlier | last
    · exact course.placed j earlier
    · exact List.mem_singleton.mp last ▸ placed
  settled q concerns found := by
    rcases settled q concerns found with before | same
    · exact List.mem_append_left _ (course.settled q concerns before)
    · exact List.mem_append_right _ (List.mem_singleton.mpr same)
  noted L n place typed := by
    rw [noted L n place typed, course.noted L n place typed, List.mem_append, List.mem_singleton]
  compared s t b found := by
    obtain ⟨n, compared⟩ := course.compared s t b (subtypes ▸ found)
    exact ⟨n, compared.mono (List.subset_append_left _ _)⟩

/-- What is listed is found again after all findings. -/
theorem Course.again (course : cx.Course F gs c) {i : Finding} (listed : i ∈ gs) :
    ∃ ks, ks ++ [i] <+: gs ∧ cx.Repeated F ks i := by
  obtain ⟨ks, rest, rfl⟩ := List.append_of_mem listed
  have before : ks ++ [i] <+: ks ++ i :: rest := ⟨rest, by simp⟩
  exact ⟨ks, before, course.repeated ks i before⟩

/-- The type of a listed node is found again. -/
theorem Course.visited (course : cx.Course F gs c) {n : Node Mark} {L : List (Node Mark)}
    (place : cx.At L n) (listed : .node n ∈ gs) : ∃ t, F.nodeTypes.find? n.mark.id = some t ∧
      cx.Replays F gs [] n.below [] (cx.visitAt F L n) t := by
  obtain ⟨ks, before, repeated⟩ := course.again listed
  obtain ⟨t, kept, replays⟩ := repeated L place
  exact ⟨t, kept, replays.mono before (fun _ => by simp) (List.Subset.refl _)⟩

theorem Advances.still (course : cx.Course F gs c₁) (within : c.Within c₁) :
    cx.Advances F [] gs [] c c₁ where
  course := (List.append_nil gs).symm ▸ course
  wrote := .nothing c c₁
  within := within

theorem Advances.refl (course : cx.Course F gs c) : cx.Advances F [] gs [] c c :=
  .still course (Checker.Grows.refl c).toWithin

/-- After it a state is reached with the same findings. -/
theorem Advances.after (advances : cx.Advances F X gs ls c c₁) (course : cx.Course F (gs ++ ls) c₂)
    (within : c₁.Within c₂) : cx.Advances F X gs ls c c₂ where
  course := course
  wrote := { advances.wrote with
    after := fun w member => within.has (advances.wrote.after w member) }
  within := advances.within.trans within

theorem Advances.trans (first : cx.Advances F X gs ls c c₁)
    (second : cx.Advances F Y (gs ++ ls) hs c₁ c₂) :
    cx.Advances F (X ++ Y) gs (ls ++ hs) c c₂ where
  course := List.append_assoc gs ls hs ▸ second.course
  wrote := by
    refine (first.wrote.append second.wrote first.within second.within).perm ?_
    rw [List.flatMap_append, List.append_assoc, List.append_assoc]
    exact .append_left X (List.perm_append_comm_assoc _ _ _)
  within := first.within.trans second.within

/-- The type of a node is found, and the entries that it writes are its own. -/
theorem Advances.note (ground : cx.Grounded) {n : Node Mark} {L : List (Node Mark)} {t : Ty}
    (advances : cx.Advances F (cx.writes n) gs ls c c₁) (place : cx.At L n)
    (new : .node n ∉ gs ++ ls) (kept : F.nodeTypes.find? n.mark.id = some t)
    (finds : cx.Replays F (gs ++ ls) [.node n] n.below [] (cx.visitAt F L n) t) :
    cx.Advances F [] gs (ls ++ [.node n]) c (c₁.note n.mark.id t) := by
  have notes : c₁.Grows (c₁.note n.mark.id t) :=
    { Checker.Grows.refl c₁ with nodeTypes := .insertNew _ n.mark.id t }
  refine ⟨?_, ?_, advances.within.trans notes.toWithin⟩
  · rw [← List.append_assoc]
    refine advances.course.snoc (fun K place' => ⟨t, kept, ?_⟩) new ⟨L, place⟩
      (fun q _ found => .inl (by cases q <;> exact found)) (fun K k place' _ => ?_) rfl
    · cases (ground.place_unique place place' rfl).1
      exact finds
    · rw [Checker.noted, Table.contains_insertNew]
      refine or_congr_right ⟨fun same => ?_, fun same => by cases same; rfl⟩
      rw [(ground.place_unique place' place same).2]
  · refine Checker.Wrote.perm { advances.wrote with
      after := fun w member => notes.toWithin.has (advances.wrote.after w member) } ?_
    rw [List.flatMap_append, List.flatMap_singleton]
    exact List.perm_append_comm

namespace Charts

theorem pure {x : α} (holds : P → Q x) : cx.Charts F o P [] N (fun _ => Pure.pure x) Q where
  lawful := .pure x
  grows c y c' run := by
    cases run
    exact .refl c
  leads given c y c' run _ gs course := by
    cases run
    exact ⟨[], .refl course, .pure x, holds given⟩

theorem done (x : α) : cx.Charts F o P [] N (fun _ => Pure.pure x) fun _ => True :=
  pure fun _ => trivial

theorem bind (first : cx.Charts F o P X N act Q)
    (rest : ∀ x, cx.Charts F o (P ∧ Q x) Y N (f x) R) :
    cx.Charts F o P (X ++ Y) N (fun o => act o >>= fun x => f x o) R where
  lawful := first.lawful.bind fun x => (rest x).lawful
  grows c y c' run := by
    obtain ⟨x, c₁, run₁, run₂⟩ := Check.bind_ok run
    exact (first.grows c x c₁ run₁).trans ((rest x).grows c₁ y c' run₂)
  leads given c y c' run accepted gs course := by
    obtain ⟨x, c₁, run₁, run₂⟩ := Check.bind_ok run
    obtain ⟨ls, advances₁, replays₁, holds⟩ := first.leads given c x c₁ run₁
      (accepted.before ((rest x).grows c₁ y c' run₂)) gs course
    obtain ⟨ks, advances₂, replays₂, holds'⟩ :=
      (rest x).leads ⟨given, holds⟩ c₁ y c' run₂ accepted (gs ++ ls) advances₁.course
    rw [List.append_assoc] at replays₂
    have longer : gs ++ ls ++ [] <+: gs ++ (ls ++ ks) := ⟨ks, by simp⟩
    have again : cx.Replays F (gs ++ (ls ++ ks)) [] N X act x :=
      replays₁.mono longer nofun (List.Subset.refl N)
    exact ⟨ls ++ ks, advances₁.trans advances₂,
      again.bind first.lawful (fun x => (rest x).lawful) replays₂, holds'⟩

theorem weaken (charts : cx.Charts F o P X N act Q) (given : P' → P)
    (gives : ∀ x, P' → Q x → Q' x) : cx.Charts F o P' X N act Q' where
  lawful := charts.lawful
  grows := charts.grows
  leads given' c x c' run accepted gs course := by
    obtain ⟨ls, advances, replays, holds⟩ :=
      charts.leads (given given') c x c' run accepted gs course
    exact ⟨ls, advances, replays, gives x given' holds⟩

theorem wider (charts : cx.Charts F o P X N act Q) (inside : N ⊆ M) :
    cx.Charts F o P X M act Q where
  lawful := charts.lawful
  grows := charts.grows
  leads given c x c' run accepted gs course := by
    obtain ⟨ls, advances, replays, holds⟩ := charts.leads given c x c' run accepted gs course
    have same : gs ++ ls ++ [] <+: gs ++ ls := ⟨[], by simp⟩
    exact ⟨ls, advances, replays.mono same nofun inside, holds⟩

theorem any (charts : cx.Charts F o P X N act Q) : cx.Charts F o P X N act fun _ => True :=
  charts.weaken id fun _ _ _ => trivial

theorem never (charts : cx.Charts F o P X N act fun _ => False) : cx.Charts F o P X N act Q :=
  charts.weaken id fun _ _ => False.elim

theorem vacuous (charts : cx.Charts F o P X N act Q) (never : ¬P') :
    cx.Charts F o P' Y N act Q' where
  lawful := charts.lawful
  grows := charts.grows
  leads given := absurd given never

theorem branch {p : Prop} {dec : Oracle → Decidable p} {act' : Oracle → Check α}
    (yes : p → cx.Charts F o P X N act Q) (no : ¬p → cx.Charts F o P X N act' Q) :
    cx.Charts F o P X N (fun o => @ite _ p (dec o) (act o) (act' o)) Q := by
  by_cases holds : p
  · simpa only [if_pos holds] using yes holds
  · simpa only [if_neg holds] using no holds

theorem mapM {f : β → Oracle → Check α} {S : β → α → Prop} : ∀ {xs : List β} {P : Prop},
    (∀ x ∈ xs, cx.Charts F o P [] N (f x) (S x)) →
      cx.Charts F o P [] N (fun o => xs.mapM fun x => f x o) (List.Forall₂ S xs)
  | [], _, _ => by
    simp only [List.mapM_nil]
    exact pure fun _ => .nil
  | x :: xs, _, each => by
    simp only [List.mapM_cons]
    refine bind (Y := []) (each x List.mem_cons_self) fun y => ?_
    refine bind (Y := []) (mapM fun z member => (each z (List.mem_cons_of_mem x member)).weaken
      And.left fun _ _ => id) fun ys => ?_
    exact pure fun given => .cons given.1.2 given.2

theorem allM {f : β → Oracle → Check Bool} {P : Prop}
    (each : ∀ x, cx.Charts F o P [] N (f x) fun _ => True) :
    ∀ xs : List β, cx.Charts F o P [] N (fun o => xs.allM fun x => f x o) fun _ => True
  | [] => pure fun _ => trivial
  | x :: xs => by
    simp only [List.allM]
    refine bind (Y := []) (each x) fun b => ?_
    cases b with
    | true => exact (allM each xs).weaken And.left fun _ _ => id
    | false => exact pure fun _ => trivial

theorem filterM {f : β → Oracle → Check Bool} {S : β → Bool → Prop} {P : Prop}
    (each : ∀ x, cx.Charts F o P [] N (f x) (S x)) (xs : List β) :
    cx.Charts F o P [] N (fun o => xs.filterM fun x => f x o) fun ys =>
      ∀ x ∈ xs, x ∈ ys ∨ S x false := by
  have filterAux : ∀ (xs acc : List β) (P' : Prop), (P' → P) →
      cx.Charts F o P' [] N (fun o => xs.filterAuxM (fun x => f x o) acc) fun ys =>
        (∀ x ∈ acc, x ∈ ys) ∧ ∀ x ∈ xs, x ∈ ys ∨ S x false := by
    intro xs
    induction xs with
    | nil => exact fun acc _ _ => pure fun _ => ⟨fun _ => id, nofun⟩
    | cons x xs ih =>
      intro acc P' given
      refine bind (Y := []) ((each x).weaken given fun _ _ => id) fun b => ?_
      refine (ih (cond b (x :: acc) acc) _ And.left).weaken (fun both => ⟨given both.1, both.2⟩) ?_
      rintro ys ⟨_, holds⟩ ⟨kept, rest⟩
      cases b with
      | true =>
        obtain ⟨own, others⟩ := List.forall_mem_cons.mp kept
        exact ⟨others, List.forall_mem_cons.mpr ⟨.inl own, rest⟩⟩
      | false => exact ⟨kept, List.forall_mem_cons.mpr ⟨.inr holds, rest⟩⟩
  refine bind (Y := []) (filterAux xs [] P id) fun ys => pure fun ⟨_, _, kept⟩ x member => ?_
  exact (kept x member).imp_left List.mem_reverse.mpr

theorem ask (guides : cx.Guides F o) {q : Demand} (concerns : cx.Concerns q) :
    cx.Charts F o P [] N (fun o => o q) fun a => ∃ gs, cx.Met F gs q a where
  lawful := (Lawful.thorough cx).ask q concerns.poses
  grows := guides.grows q
  leads _ c a c' run accepted gs course := by
    obtain ⟨ls, advances, met⟩ := guides.leads q concerns c a c' run accepted gs course
    exact ⟨ls, advances, met.replays concerns.poses, _, met⟩

/-- A step that reports an error is in no accepted run. -/
theorem report (span : Span) {problem : Problem} (error : problem.severity = .error) :
    cx.Charts F o P X N (fun _ => Check.report span problem) fun _ => False where
  lawful := .still (.report span problem)
  grows c x c' run := by
    cases run
    exact { Checker.Grows.refl c with diagnostics := fun _ => Array.mem_push_of_mem _ }
  leads _ c x c' run accepted := by
    cases run
    exact (accepted.not_error (d := ⟨span, problem⟩) (beq_iff_eq.mpr error)
      Array.mem_push_self).elim

/-- A step that reports a warning. -/
theorem warn (span : Span) (problem : Problem) :
    cx.Charts F o P [] N (fun _ => Check.report span problem) fun _ => True where
  lawful := .still (.report span problem)
  grows c x c' run := by
    cases run
    exact { Checker.Grows.refl c with diagnostics := fun _ => Array.mem_push_of_mem _ }
  leads _ c x c' run accepted gs course := by
    cases run
    have known := accepted.told _ Array.mem_push_self
    refine ⟨[], .still { course with } { (Checker.Grows.refl c).toWithin with },
      fun _ _ _ _ _ c₁ concurs _ => .inl ⟨_, rfl, ?_, rfl, rfl⟩, trivial⟩
    exact concurs.reported known

theorem stop (span : Span) {problem : Problem} (error : problem.severity = .error)
    (rest : cx.Charts F o P' X N act Q) :
    cx.Charts F o P Y N (fun o => do Check.report span problem; act o) Q' := by
  have both : cx.Charts F o P (Y ++ []) N (fun o => do Check.report span problem; act o) Q' :=
    bind (report span error) fun _ =>
      { lawful := rest.lawful
        grows := rest.grows
        leads := fun given => given.2.elim }
  rwa [List.append_nil] at both

theorem reject (span : Span) {problem : Problem} (error : problem.severity = .error) (x : α) :
    cx.Charts F o P X N (fun _ => do Check.report span problem; return x) Q :=
  stop span error (done (P := True) x)

theorem enters {a : Check α} {x : α} (enters : Check.Enters a x) (still : Still cx a) :
    cx.Charts F o P [] N (fun _ => a) (· = x) where
  lawful := .still still
  grows c y c' run := by
    obtain ⟨names, interns, entered⟩ := enters c
    cases entered.symm.trans run
    exact { Checker.Grows.refl c with }
  leads _ c y c' run _ gs course := by
    obtain ⟨names, interns, entered⟩ := enters c
    cases entered.symm.trans run
    exact ⟨[], .still { course with } { (Checker.Grows.refl c).toWithin with }, .enters enters, rfl⟩

/-- An entry is written that is not there. -/
theorem record (put : Checker → Checker) {a : Check Unit} {w : Entry} {e : Fault} {K : Prop}
    (still : Still cx a) (runs : ∀ c, a c = if c.has w then .error e else .ok ((), put c))
    (grows : ∀ c : Checker, c.has w = false → c.Grows (put c))
    (written : ∀ c, (put c).has w = true)
    (course : ∀ gs c, cx.Course F gs c → cx.Course F gs (put c))
    (kept : ∀ c, (put c).Within F → K)
    (concurs : K → ∀ D W c, cx.Concurs F D (w :: W) c → cx.Concurs F D W (put c))
    (alike : ∀ c, (put c).pursuits = c.pursuits ∧ (put c).evaluating = c.evaluating) :
    cx.Charts F o P [w] N (fun _ => a) fun _ => True := by
  have ran : ∀ {c x c'}, a c = .ok (x, c') → c.has w = false ∧ c' = put c := by
    intro c x c' run
    rw [runs] at run
    split at run
    · cases run
    · next new =>
      cases run
      exact ⟨(Bool.not_eq_true _).mp new, rfl⟩
  refine ⟨.still still, fun c x c' run => ?_, fun _ c x c' run accepted gs course' => ?_⟩
  · obtain ⟨new, rfl⟩ := ran run
    exact grows c new
  · obtain ⟨new, rfl⟩ := ran run
    refine ⟨[], ⟨?_, ?_, (grows c new).toWithin⟩, ?_, trivial⟩
    · exact (List.append_nil gs).symm ▸ course gs c course'
    · exact ⟨List.nodup_singleton w, by simpa using new, by simpa using written c⟩
    · intro o' T supplies D W c₁ concurs' _
      have awaited := concurs'.awaited w List.mem_cons_self
      refine .inl ⟨put c₁, ?_, concurs (kept c accepted.within) D W c₁ concurs', alike c₁⟩
      exact (runs c₁).trans (if_neg (by simp [awaited]))

theorem recordType (ground : cx.Grounded) {L : List (Node Mark)} {q : Pat Mark} {t : Ty}
    (place : cx.At L (.pat q)) :
    cx.Charts F o P [.pattern q.mark.id] N (fun _ => Check.recordType q.mark.id t)
      fun _ => True := by
  refine record (fun c => { c with nodeTypes := c.nodeTypes.insert q.mark.id t })
    (e := .rewritten q.mark.id) (K := F.nodeTypes.find? q.mark.id = some t) (.recordType _ t)
    (fun c => ?_) (fun c new => { Checker.Grows.refl c with nodeTypes := .insert t new })
    (fun c => Table.contains_insert.mpr (.inr rfl)) (fun gs c course => ?_)
    (fun c within => within.nodeTypes _ _ (Table.find?_insert_self ..))
    (fun kept D W c concurs => ?_) fun _ => ⟨rfl, rfl⟩
  · rw [Check.recordType, Check.get_bind, Checker.has]
    split <;> rfl
  · refine course.still (fun p _ => by cases p <;> rfl) (fun K n place' typed => ?_) rfl
    rw [Checker.noted, Checker.noted, Table.contains, Table.contains, Table.find?_insert_other]
    intro same
    cases (ground.place_unique place' place same).2
    cases typed
  · refine concurs.write rfl rfl (fun i u found => ?_) concurs.signatures rfl rfl
      (fun i noted => Table.contains_insert.mpr (.inl noted)) fun v other => ?_
    · dsimp only at found
      rw [Table.find?_insert] at found
      split at found
      · next same => exact same ▸ found ▸ kept
      · exact concurs.nodeTypes i u found
    · cases v with
      | pattern i =>
        have apart : i ≠ q.mark.id := by
          rintro rfl
          exact other rfl
        simp [Checker.has, Table.contains, Table.find?_insert_other _ _ apart]
      | _ => rfl

/-- The value of an inhabitant expression is recorded; its literal is entered, with any number. -/
theorem recordWitness {i : NodeId} (t : Ty) (v : Literal) :
    cx.Charts F o P [.witness i] N (fun _ => do
      let literal ← Check.enterLiteral v
      Check.recordWitness i ⟨t, literal, v⟩) fun _ => True := by
  refine record (fun c => c.putWitness i t v) (e := .rewritten i) (K := True)
    (.bind (.enterLiteral v) fun _ => .recordWitness i _) (fun c => ?_)
    (fun c new => { Checker.Grows.refl c with witnesses := .insert _ new })
    (fun c => Table.contains_insert.mpr (.inr rfl))
    (fun gs c course => course.still (fun p _ => by cases p <;> rfl) (fun _ _ _ _ => rfl) rfl)
    (fun _ _ => trivial) (fun _ D W c concurs => ?_) fun _ => ⟨rfl, rfl⟩
  · change Check.recordWitness i _ { c with interns := (c.interns.internLiteral v).2 } = _
    rw [Check.recordWitness, Check.get_bind, Checker.has]
    split <;> rfl
  · refine concurs.write rfl rfl concurs.nodeTypes concurs.signatures rfl rfl (fun _ => id)
      fun v other => ?_
    cases v with
    | witness j =>
      have apart : j ≠ i := by
        rintro rfl
        exact other rfl
      simp [Checker.has, Checker.putWitness, Table.contains,
        Table.find?_insert_other _ _ apart]
    | _ => rfl

theorem recordSignature (ground : cx.Grounded) {L : List (Node Mark)} {m : Mark} {f : Ident Mark}
    {args : List (Expr Mark)} {sig : Signature} (place : cx.At L (.expr (.call m f args))) :
    cx.Charts F o P [.signature m.id] N (fun _ => Check.recordSignature m.id sig)
      fun _ => True := by
  refine record (fun c => { c with signatures := c.signatures.insert m.id sig })
    (e := .rewritten m.id) (K := F.signatures.find? m.id = some sig)
    (.recordSignature sig place.node) (fun c => ?_)
    (fun c new => { Checker.Grows.refl c with signatures := .insert sig new })
    (fun c => Table.contains_insert.mpr (.inr rfl)) (fun gs c course => ?_)
    (fun c within => within.signatures _ _ (Table.find?_insert_self ..))
    (fun kept D W c concurs => ?_) fun _ => ⟨rfl, rfl⟩
  · rw [Check.recordSignature, Check.get_bind, Checker.has]
    split <;> rfl
  · refine course.still (fun p concerns => ?_) (fun _ _ _ _ => rfl) rfl
    cases p with
    | signature d =>
      have apart : d.mark.id ≠ m.id := by
        intro same
        cases ground.node_unique concerns place.node same
      simp [Checker.isSettled, Demand.goal, Table.contains, Table.find?_insert_other _ _ apart]
    | _ => rfl
  · refine concurs.write rfl rfl concurs.nodeTypes (fun i u found => ?_) rfl rfl (fun _ => id)
      fun v other => ?_
    · dsimp only at found
      rw [Table.find?_insert] at found
      split at found
      · next same => exact same ▸ found ▸ kept
      · exact concurs.signatures i u found
    · cases v with
      | signature i =>
        have apart : i ≠ m.id := by
          rintro rfl
          exact other rfl
        simp [Checker.has, Table.contains, Table.find?_insert_other _ _ apart]
      | _ => rfl

theorem once (ground : cx.Grounded) (typed : ∀ x u, F.symbolTypes.find? x = some u → cx.Typable x)
    {n : Node Mark} {L : List (Node Mark)} (place : cx.At L n) (isTyped : n.isTyped = true)
    {find : Oracle → Check Ty} (finds : cx.Charts F o P (cx.writes n) n.below find fun _ => True)
    (whole : P → ∀ o', Check.once n.mark.id (find o') = cx.visitAt F L n o') :
    cx.Charts F o P [] n.below (fun o => Check.once n.mark.id (find o))
      fun t => F.nodeTypes.find? n.mark.id = some t where
  lawful := (Lawful.thorough cx).anywhere.once trivial finds.lawful
  grows c t c' run := by
    rcases Check.once_ok run with ⟨_, same⟩ | ⟨_, c₁, run₁, rfl⟩
    · exact same ▸ .refl c
    · exact (finds.grows c t c₁ run₁).trans { Checker.Grows.refl c₁ with
        nodeTypes := .insertNew _ n.mark.id t }
  leads given c t c' run accepted gs course := by
    have same : (fun o => Check.once n.mark.id (find o)) = cx.visitAt F L n := funext (whole given)
    rw [same]
    rcases Check.once_ok run with ⟨found, rfl⟩ | ⟨new, c₁, run₁, rfl⟩
    · have still := Advances.refl course
      have listed := (still.course.noted L n place isTyped).mp (Option.isSome_of_eq_some found)
      obtain ⟨u, kept, replays⟩ := still.course.visited place listed
      cases (accepted.within.nodeTypes _ _ found).symm.trans kept
      exact ⟨[], still, replays, kept⟩
    have notes : c₁.Grows (c₁.note n.mark.id t) :=
      { Checker.Grows.refl c₁ with nodeTypes := .insertNew _ n.mark.id t }
    obtain ⟨ls, advances, replays, _⟩ :=
      finds.leads given c t c₁ run₁ (accepted.before notes) gs course
    have noted := advances.course.noted L n place isTyped
    by_cases listed : .node n ∈ gs ++ ls
    · -- Found meanwhile: then it writes no entries, and it is the same type.
      have later : .node n ∈ ls := by
        refine (List.mem_append.mp listed).resolve_left fun early => ?_
        have noted := (course.noted L n place isTyped).mpr early
        rw [Checker.noted, Table.contains_eq_false.mpr new] at noted
        cases noted
      have none : cx.writes n = [] := by
        refine List.eq_nil_iff_forall_not_mem.mpr fun w own => ?_
        exact (List.nodup_append.mp advances.wrote.distinct).2.2 w own w
          (List.mem_flatMap.mpr ⟨_, later, own⟩) rfl
      obtain ⟨u, kept, again⟩ := advances.course.visited place listed
      rw [none] at replays advances
      obtain rfl : t = u := by
        obtain ⟨c₂, found, _⟩ := replays.recalled typed (.start cx.names) rfl rfl
        obtain ⟨c₃, found', _⟩ := (same ▸ again).recalled typed (.start cx.names) rfl rfl
        cases (Check.once_new rfl found).symm.trans found'
        rfl
      have present : c₁.nodeTypes.contains n.mark.id = true := noted.mpr listed
      have unchanged : c₁.note n.mark.id t = c₁ := by
        rw [Checker.note, Table.insertNew, if_pos present]
      exact ⟨ls, unchanged.symm ▸ advances, again, kept⟩
    · have unnoted : c₁.nodeTypes.find? n.mark.id = none :=
        Table.contains_eq_false.mp ((Bool.not_eq_true _).mp (mt noted.mp listed))
      have kept : F.nodeTypes.find? n.mark.id = some t :=
        accepted.within.nodeTypes _ _ (Table.find?_insertNew_self unnoted)
      have finds' := Replays.once ground place isTyped kept
        (fun k member => advances.course.placed (.node k) member) listed finds.lawful
        (replays.spare (cx.writes_sublist n))
      rw [same] at finds'
      refine ⟨ls ++ [.node n], advances.note ground place listed kept finds', ?_, kept⟩
      rw [← List.append_assoc]
      exact finds'.mono (List.prefix_refl _) (fun _ => by simp) (List.Subset.refl _)

end Charts

end Context

end

end Solo

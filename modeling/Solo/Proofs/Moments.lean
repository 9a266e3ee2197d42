import Solo.Proofs.Courses

/-!
# Types never change once observed

Every demand that comes up while a program is checked, at any depth and also inside a cycle, is a
moment of the check. The answers that demands for the same declaration get at different moments
are the same; no goal is ever in progress twice or after it is settled; and each demand leaves the
goals in progress that it found.
-/

namespace Solo

def Oracle.meetAll (o : Oracle) : List Demand → Check Unit
  | [] => return
  | q :: qs => do
    let _ ← o q
    meetAll o qs

namespace Context

variable (cx : Context)

/-- The demands of an action and the demands that are made to meet them: at depth `m`, a demand is
made in a state while the action runs at depth `n`. -/
inductive Moment : {α : Type} → (Oracle → Check α) → Nat → Checker → Nat → Demand → Checker → Prop
  | made {α : Type} {act : Oracle → Check α} {n : Nat} {c s : Checker} {q : Demand} :
    Asks act (cx.oracle n) c q s → Moment act n c n q s
  | inside {α : Type} {act : Oracle → Check α} {n m : Nat} {c s t : Checker} {q p : Demand} :
    Asks act (cx.oracle (n + 1)) c q s → Moment (cx.meet q) n s m p t → Moment act (n + 1) c m p t

/-- A check of the whole program, with demands from elsewhere before and after it. -/
def visit (early late : List Demand) (o : Oracle) : Check Unit := do
  o.meetAll early
  (cx.asking o).checkStmts cx.program.stmts
  o.meetAll late

/-- A demand comes up when a new checker is asked about the program. -/
def Occurs (early late : List Demand) (n : Nat) (q : Demand) (c : Checker) : Prop :=
  cx.Moment (cx.visit early late) cx.questionBound (.start cx.names) n q c

/-- An answer to a demand stands in the tables; what is no binding has the error type. -/
def Recorded (c : Checker) : (q : Demand) → q.Answer → Prop
  | .typeOf x, t => c.symbolTypes.find? x = some t ∨ t = .error ∧ ¬cx.Typable x
  | .aliasTarget x _, t => c.aliasTargets.find? x = some t
  | .signature d, sig => c.signatures.find? d.mark.id = some sig

end Context

namespace Demand

def goal : Demand → Goal
  | typeOf x => .typeOf x
  | aliasTarget x _ => .targetOf x
  | signature d => .resultOf d.mark.id

/-- The type in an answer. -/
def found : (q : Demand) → q.Answer → Ty
  | typeOf _, t | aliasTarget _ _, t => t
  | signature _, sig => Signature.result sig

/-- Demands for the same declaration have the same answer. -/
def Agree : (q : Demand) → q.Answer → (p : Demand) → p.Answer → Prop
  | typeOf x, t, typeOf y, u => x = y → t = u
  | aliasTarget x _, t, aliasTarget y _, u => x = y → t = u
  | signature d, sig, signature e, sig' => d = e → sig = sig'
  | _, _, _, _ => True

end Demand

/-- The goals in progress are all different, and none is settled. -/
def Checker.Undecided (c : Checker) : Prop :=
  (c.pursuits.map (·.goal)).Nodup ∧ ∀ p ∈ c.pursuits, c.isSettled p.goal = false

/-! ### Moments in order -/

section
variable {cx : Context} {α : Type} {act : Oracle → Check α} {n m m' : Nat} {c s t c' s' t' : Checker}
  {q p : Demand} {x : α}

/-- Where an action is tame, every moment of it is later. -/
theorem Context.Moment.follows (ground : cx.Grounded) (moment : cx.Moment act n c m q s)
    {R : α → Checker → Prop} (tame : TameAt cx (cx.oracle n) act c R) :
    cx.Poses q ∧ cx.Follows c s := by
  induction moment with
  | made asks => exact tame.ask _ _ asks
  | @inside _ _ n _ _ _ _ _ _ asks _ ih =>
    obtain ⟨posed, follows⟩ := tame.ask _ _ asks
    obtain ⟨posed', follows'⟩ := ih ((Faithful.oracle ground n).meet ground posed follows.orderly)
    exact ⟨posed', follows.trans follows'⟩

/-- What a demand leaves behind is kept to the end of the action that made it. -/
theorem Context.Moment.kept (ground : cx.Grounded) (moment : cx.Moment act n c m q s)
    {R : α → Checker → Prop} (tame : TameAt cx (cx.oracle n) act c R)
    (run : act (cx.oracle n) c = .ok (x, c')) {a : q.Answer}
    (met : cx.oracle m q s = .ok (a, s')) : cx.Follows s' c' := by
  induction moment generalizing c' with
  | made asks =>
    obtain ⟨b, s'', met', follows⟩ := tame.answered _ _ asks x c' run
    cases met.symm.trans met'
    exact follows
  | @inside _ _ n _ _ _ _ _ _ asks _ ih =>
    obtain ⟨posed, follows⟩ := tame.ask _ _ asks
    obtain ⟨b, s'', met', later⟩ := tame.answered _ _ asks x c' run
    exact (ih ((Faithful.oracle ground n).meet ground posed follows.orderly) met' met).trans later

/-- An action makes a demand if it ends with the fault that the demand may end with. -/
theorem Asks.of_fault {o : Oracle}
    (fails : ∀ o' : Oracle, ∀ e, o' q s = .error e → act o' c = .error e) :
    Asks act o c q s := by
  classical
  have differs : ∀ e, act o c ≠ .error e → Asks act o c q s := by
    intro e other
    refine ⟨fun p t => if p = q ∧ t = s then .error e else o p t, fun p t apart => if_neg apart, ?_⟩
    rw [fails _ e (if_pos ⟨rfl, rfl⟩)]
    exact Ne.symm other
  by_cases endless : act o c = .error .endless
  · exact differs (.rewritten 0) (by rw [endless]; nofun)
  · exact differs .endless endless

theorem Asks.self (o : Oracle) (q : Demand) (s : Checker) : Asks (fun o => o q) o s q s :=
  .of_fault fun _ _ fault => fault

/-- A moment is the one of a demand that the action itself makes, or inside it. -/
theorem Context.Moment.top (moment : cx.Moment act n c m q s) :
    ∃ q₀ s₀, Asks act (cx.oracle n) c q₀ s₀ ∧ cx.Moment (fun o => o q₀) n s₀ m q s := by
  cases moment with
  | made asks => exact ⟨q, s, asks, .made (.self _ q s)⟩
  | inside asks inner => exact ⟨_, _, asks, .inside (.self _ _ _) inner⟩

theorem Context.Moment.of_ask (moment : cx.Moment (fun o => o p) n t m q s) :
    (n = m ∧ p = q ∧ t = s) ∨ ∃ k, n = k + 1 ∧ cx.Moment (cx.meet p) k t m q s := by
  cases moment with
  | made asks => exact .inl ⟨rfl, asks.ask⟩
  | inside asks inner =>
    obtain ⟨rfl, rfl⟩ := asks.ask
    exact .inr ⟨_, rfl, inner⟩

/-- What is met keeps the promises of the state in which it was demanded. -/
theorem Context.Moment.met (ground : cx.Grounded) (moment : cx.Moment act n c m q s)
    {R : α → Checker → Prop} (tame : TameAt cx (cx.oracle n) act c R) {a : q.Answer}
    (met : cx.oracle m q s = .ok (a, s')) :
    cx.Follows s s' ∧ Checker.Marks s.pursuits s'.pursuits ∧ cx.Promised s' q a := by
  obtain ⟨posed, follows⟩ := moment.follows ground tame
  exact (Faithful.oracle ground m).meets q posed s follows.orderly a s' met

/-- What happens inside a demand that is met before another one is made is over then. -/
theorem Context.Moment.early (ground : cx.Grounded) {q₀ p₀ : Demand} {s₀ t₀ : Checker}
    (first : cx.Moment (fun o => o q₀) n s₀ m q s) (second : cx.Moment (fun o => o p₀) n t₀ m' p t)
    (posed : cx.Poses q₀) (posed' : cx.Poses p₀) (orderly : cx.Orderly s₀)
    (before : cx.Before (cx.oracle n) q₀ s₀ t₀) {a : q.Answer}
    (met : cx.oracle m q s = .ok (a, s')) : cx.Follows s' t := by
  obtain ⟨b, s₁, found, follows⟩ := before
  have faithful := Faithful.oracle ground n
  have kept := first.kept ground (faithful.meets_tame posed orderly) found met
  exact (kept.trans follows).trans
    (second.follows ground (faithful.meets_tame posed' follows.orderly)).2

/-- After two demands are met, there is a state in which the promises of both are kept. -/
theorem Context.Moment.meet (ground : cx.Grounded) (first : cx.Moment act n c m q s)
    (second : cx.Moment act n c m' p t) {R : α → Checker → Prop}
    (tame : TameAt cx (cx.oracle n) act c R) {a : q.Answer} {b : p.Answer}
    (met : cx.oracle m q s = .ok (a, s')) (met' : cx.oracle m' p t = .ok (b, t')) :
    ∃ u, cx.Follows s' u ∧ cx.Follows t' u := by
  -- by depth, since both demands may be made inside the same one
  induction n using Nat.strongRecOn generalizing α act c R with
  | ind n ih =>
    obtain ⟨laterS, _⟩ := first.met ground tame met
    obtain ⟨laterT, _⟩ := second.met ground tame met'
    obtain ⟨q₀, s₀, asks, under⟩ := first.top
    obtain ⟨p₀, t₀, asks', under'⟩ := second.top
    obtain ⟨posed, follows⟩ := tame.ask q₀ s₀ asks
    obtain ⟨posed', follows'⟩ := tame.ask p₀ t₀ asks'
    rcases tame.ordered _ _ _ _ asks asks' with ⟨rfl, rfl⟩ | before | before
    · have within := fun k => (Faithful.oracle ground k).meet ground posed follows.orderly
      rcases under.of_ask with ⟨rfl, rfl, rfl⟩ | ⟨k, rfl, inner⟩
      · rcases under'.of_ask with ⟨rfl, rfl, rfl⟩ | ⟨k, rfl, inner'⟩
        · cases met.symm.trans met'
          exact ⟨s', .refl laterS.orderly, .refl laterS.orderly⟩
        · exact ⟨s', .refl laterS.orderly, inner'.kept ground (within k) met met'⟩
      · rcases under'.of_ask with ⟨rfl, rfl, rfl⟩ | ⟨k', same, inner'⟩
        · exact ⟨t', inner.kept ground (within k) met' met, .refl laterT.orderly⟩
        · cases same
          exact ih k (Nat.lt_succ_self k) inner inner' (within k)
    · exact ⟨t', (under.early ground under' posed posed' follows.orderly before met).trans laterT,
        .refl laterT.orderly⟩
    · exact ⟨s', .refl laterS.orderly,
        (under'.early ground under posed' posed follows'.orderly before met').trans laterS⟩

end

/-! ### Checks of whole programs -/

theorem Context.Orderly.start (cx : Context) (names : Roster String) : cx.Orderly (.start names) :=
  ⟨.nil, nofun, nofun, nofun⟩

theorem Thorough.visit {cx : Context} {C : {α : Type} → (Oracle → Check α) → Prop}
    (thorough : Thorough cx C) (ground : cx.Grounded) {early late : List Demand}
    (posed : ∀ q ∈ early ++ late, cx.Poses q) : C (cx.visit early late) := by
  have asks : ∀ qs : List Demand, (∀ q ∈ qs, cx.Poses q) → C fun o => o.meetAll qs := by
    intro qs each
    induction qs with
    | nil => exact thorough.pure ()
    | cons q qs ih =>
      refine thorough.bind (thorough.ask q (each q List.mem_cons_self)) fun _ => ?_
      exact ih fun p member => each p (List.mem_cons_of_mem q member)
  refine thorough.bind (asks early fun q member => posed q (List.mem_append_left _ member)) fun _ => ?_
  refine thorough.bind (thorough.check ground) fun _ => ?_
  exact asks late fun q member => posed q (List.mem_append_right _ member)

/-- A check of the whole program is a visit without other demands. -/
theorem Context.check_eq (cx : Context) :
    cx.check = cx.visit [] [] (cx.oracle cx.questionBound) := by
  have check : cx.check = (cx.asking (cx.oracle cx.questionBound)).checkStmts cx.program.stmts := by
    rw [Context.check, Context.resolver, Resolver.ofDepth_eq]
  rw [check]
  funext c
  change _ = ((cx.asking (cx.oracle cx.questionBound)).checkStmts cx.program.stmts c).bind
    fun r => .ok ((), r.2)
  cases (cx.asking (cx.oracle cx.questionBound)).checkStmts cx.program.stmts c <;> rfl

theorem Context.Orderly.undecided {cx : Context} {c : Checker} (orderly : cx.Orderly c) :
    c.Undecided := ⟨orderly.once, orderly.unsettled⟩

/-- Promises of different demands for the same declaration. -/
theorem Context.Promised.agree {cx : Context} {c : Checker} (orderly : cx.Orderly c)
    {q p : Demand} {a : q.Answer} {b : p.Answer} (first : cx.Promised c q a)
    (second : cx.Promised c p b) : q.Agree a p b := by
  cases q <;> cases p <;> try trivial
  · rintro rfl
    exact orderly.type_unique first second
  · rintro rfl
    exact orderly.target_unique first second
  · rintro rfl
    exact orderly.signature_unique first second

/-- A promise that waits for a goal in progress is the error type. -/
theorem Context.Promised.error {cx : Context} {c : Checker} (orderly : cx.Orderly c) {q : Demand}
    {a : q.Answer} (promised : cx.Promised c q a) (pursued : q.goal ∈ c.pursuits.map (·.goal)) :
    q.found a = .error := by
  obtain ⟨p, member, goal⟩ := List.mem_map.mp pursued
  have unsettled := orderly.unsettled p member
  rw [goal] at unsettled
  cases q with
  | typeOf x =>
    rcases promised with found | ⟨same, _⟩
    · rw [Table.contains_eq_false.mp unsettled] at found
      cases found
    · exact same
  | aliasTarget x span =>
    rcases promised with found | ⟨same, _⟩
    · rw [Table.contains_eq_false.mp unsettled] at found
      cases found
    · exact same
  | signature d =>
    rcases promised with found | awaited
    · rw [Table.contains_eq_false.mp unsettled] at found
      cases found
    · exact awaited.result

/-- When no goal is in progress, every promise is fulfilled. -/
theorem Context.Promised.recorded {cx : Context} {c : Checker} {q : Demand} {a : q.Answer}
    (promised : cx.Promised c q a) (idle : c.pursuits = []) : cx.Recorded c q a := by
  have none : ∀ g, ¬c.Loops g := by simp [Checker.Loops, idle]
  cases q with
  | typeOf x => exact promised.imp id fun held => ⟨held.1, held.2.resolve_right (none _)⟩
  | aliasTarget x span => exact promised.resolve_right fun awaited => none _ awaited.2
  | signature d => exact promised.resolve_right fun awaited => none _ awaited.loops

/-- At every moment of a check, however deep and also inside a cycle: no goal is in progress twice
or after it is settled, a demand leaves the goals in progress as they are, its answer is that of
every other demand for the same declaration, and it is the one that is recorded in the end. -/
theorem Draft.answers_stay (d : Draft) (options : Options) (early late : List Demand)
    (posed : ∀ q ∈ early ++ late, (d.context options).Poses q) :
    let cx := d.context options
    (∀ n q c, cx.Occurs early late n q c → c.Undecided ∧
      ∀ a c', cx.oracle n q c = .ok (a, c') →
        c'.Undecided ∧ c'.pursuits.map (·.goal) = c.pursuits.map (·.goal) ∧
        (q.goal ∈ c.pursuits.map (·.goal) → q.found a = .error) ∧
        (∀ m p s, cx.Occurs early late m p s → ∀ b s', cx.oracle m p s = .ok (b, s') →
          q.Agree a p b) ∧
        ∀ e, cx.visit early late (cx.oracle cx.questionBound) (.start cx.names) = .ok ((), e) →
          cx.Recorded e q a) := by
  intro cx n q c occurs
  have ground := d.grounded options
  have tame := ((Faithful.oracle ground cx.questionBound).thorough ground).visit ground posed _
    (.start cx cx.names)
  refine ⟨(occurs.follows ground tame).2.orderly.undecided, fun a c' met => ?_⟩
  obtain ⟨follows, marks, promised⟩ := occurs.met ground tame met
  refine ⟨follows.orderly.undecided, marks.goals, fun pursued => ?_, fun m p s other b s' met' => ?_,
    fun e run => ?_⟩
  · exact promised.error follows.orderly (marks.goals ▸ pursued)
  · obtain ⟨_, _, promised'⟩ := other.met ground tame met'
    obtain ⟨u, kept, kept'⟩ := occurs.meet ground other tame met met'
    exact Context.Promised.agree kept.orderly
      (kept.kept q (occurs.follows ground tame).1 a promised)
      (kept'.kept p (other.follows ground tame).1 b promised')
  · obtain ⟨_, idle, _⟩ := tame.run () e run
    have kept := occurs.kept ground tame run met
    exact (kept.kept q (occurs.follows ground tame).1 a promised).recorded
      (List.forall₂_nil_left_iff.mp idle)

/-! ### A binding that needs itself -/

theorem Check.bind_fault {α β : Type} {a : Check α} {f : α → Check β} {c : Checker} {e : Fault}
    (failed : a c = .error e) : (a >>= f) c = .error e := by
  rw [Check.bind_apply, failed]
  rfl

theorem Check.once_fault {i : NodeId} {find : Check Ty} {c : Checker} {e : Fault}
    (new : c.nodeTypes.find? i = none) (failed : find c = .error e) :
    Check.once i find c = .error e := by
  rw [once, get_bind, new]
  exact bind_fault failed

theorem search_fault {α β : Type} {g : Goal} {body : Check α} {blocked : β}
    {finish : α → Bool → Check β} {c : Checker} {e : Fault}
    (new : markLoop? c.isSettled g c.pursuits = none)
    (failed : body { c with pursuits := ⟨g, false⟩ :: c.pursuits } = .error e) :
    search g body blocked finish c = .error e := by
  rw [search_begun new, failed]
  rfl

/-- If the first statement is a value whose initializer is its own name, there is a demand for its
type while the type is looked for. -/
theorem Context.occurs_inside {cx : Context} {s : SymbolId} {m m' : Mark} {k k' : ValKind}
    {x x' y : Ident Mark} {e : Expr Mark} {rest : List (Stmt Mark)} {n : Nat}
    (stmts : cx.program.stmts = .val ⟨m, k, x, none, e⟩ :: rest)
    (target : cx.symbolAt? m.id = some s) (role : (cx.symbol s).role = .val false)
    (head : (cx.symbol s).decls.head? = some (.val ⟨m', k', x', none, .name y⟩))
    (own : cx.symbolAt? y.mark.id = some s) (deep : cx.questionBound = n + 1) :
    cx.Occurs [] [] n (.typeOf s)
      { Checker.start cx.names with pursuits := [⟨.typeOf s, false⟩] } := by
  have outer : Asks (cx.visit [] []) (cx.oracle (n + 1)) (.start cx.names) (.typeOf s)
      (.start cx.names) := by
    refine .of_fault fun o' e failed => ?_
    have check : (cx.asking o').checkStmts cx.program.stmts (.start cx.names) = .error e := by
      rw [stmts, Resolver.checkStmts, Resolver.checkStmt]
      refine Check.bind_fault ?_
      simp only [cx.asking_toContext, target]
      exact Check.bind_fault failed
    change ((cx.asking o').checkStmts cx.program.stmts >>= fun _ => o'.meetAll []) _ = _
    exact Check.bind_fault check
  have inner : Asks (cx.meet (.typeOf s)) (cx.oracle n) (.start cx.names) (.typeOf s)
      { Checker.start cx.names with pursuits := [⟨.typeOf s, false⟩] } := by
    refine .of_fault fun o' e failed => ?_
    have binding : ((cx.asking o').symbol s).role.isBinding = true := by
      rw [cx.asking_toContext, role]
      rfl
    refine ((cx.asking o').typeOfSymbol_search rfl binding head).trans ?_
    have name : (cx.asking o').typeOfName y none
        { Checker.start cx.names with pursuits := [⟨.typeOf s, false⟩] } = .error e := by
      simp only [Resolver.typeOfName, cx.asking_toContext, own, role]
      exact Check.bind_fault failed
    exact search_fault rfl (Check.bind_fault (Check.once_fault rfl name))
  rw [Occurs, deep]
  exact .inside outer (.made inner)

def Draft.selfish : Draft where
  text := "val x = x"
  stmts := [.val ⟨[], .val, ⟨[], "x"⟩, none, .name ⟨[], "x"⟩⟩]

theorem Except.exists_of_toBool {ε α : Type} {a : Except ε α} (ok : a.toBool = true) :
    ∃ x, a = .ok x := by
  cases a with
  | error e => cases ok
  | ok x => exact ⟨x, rfl⟩

/-- The first statement infers the type of a binding from the binding itself. -/
def BoundProgram.infersFromItself (p : BoundProgram) (x : SymbolId) : Bool :=
  match p.program.stmts, p.symbol x with
  | .val ⟨m, _, _, none, _⟩ :: _, ⟨_, role, .val ⟨_, _, _, none, .name y⟩ :: _⟩ =>
    p.symbolAt? m.id == some x && role == .val false && p.symbolAt? y.mark.id == some x
  | _, _ => false

theorem Draft.selfish_occurs : ∃ n, (Draft.selfish.context default).Occurs [] [] n (.typeOf 2)
    { Checker.start (Draft.selfish.context default).names with pursuits := [⟨.typeOf 2, false⟩] } ∧
    (((Draft.selfish.context default).oracle n (.typeOf 2)
      { Checker.start (Draft.selfish.context default).names with
        pursuits := [⟨.typeOf 2, false⟩] }).toBool = true) := by
  have shape : (Draft.selfish.context default).infersFromItself 2 = true := by decide +kernel
  have deep : (Draft.selfish.context default).questionBound = 15 + 1 := by decide +kernel
  unfold BoundProgram.infersFromItself at shape
  split at shape
  · next stmts symbol =>
    simp only [Bool.and_eq_true, beq_iff_eq] at shape
    obtain ⟨⟨target, role⟩, own⟩ := shape
    exact ⟨15, Context.occurs_inside stmts target (by rw [symbol]; exact role) (by rw [symbol]; rfl)
      own deep, by decide +kernel⟩
  · cases shape

theorem Draft.answers_stay_selfish :
    ∃ n c t c' e, (Draft.selfish.context default).Occurs [] [] n (.typeOf 2) c ∧
      Goal.typeOf 2 ∈ c.pursuits.map (·.goal) ∧
      (Draft.selfish.context default).oracle n (.typeOf 2) c = .ok (t, c') ∧ t = Ty.error ∧
      (Draft.selfish.context default).visit [] []
        ((Draft.selfish.context default).oracle (Draft.selfish.context default).questionBound)
        (.start (Draft.selfish.context default).names) = .ok ((), e) ∧
      (Draft.selfish.context default).Recorded e (.typeOf 2) t := by
  obtain ⟨n, occurs, met⟩ := Draft.selfish_occurs
  have visited : ((Draft.selfish.context default).visit [] []
      ((Draft.selfish.context default).oracle (Draft.selfish.context default).questionBound)
      (.start (Draft.selfish.context default).names)).toBool = true := by decide +kernel
  obtain ⟨⟨t, c'⟩, met⟩ := Except.exists_of_toBool met
  obtain ⟨⟨_, e⟩, visited⟩ := Except.exists_of_toBool visited
  obtain ⟨_, answered⟩ := Draft.answers_stay .selfish default [] [] nofun n (.typeOf 2) _ occurs
  obtain ⟨_, _, pursued, _, recorded⟩ := answered t c' met
  exact ⟨n, _, t, c', e, occurs, List.mem_cons_self, met, pursued List.mem_cons_self, visited,
    recorded e visited⟩

end Solo

import Solo.Proofs.Courses
import Solo.Proofs.OptionFree
import Solo.Proofs.Steady

/-!
# The limit on constants

With a higher limit on the steps of a constant there may be more constants, and where a constant is
found with fewer steps it is found with more. A value that is looked for and not found is reported
while a program is checked. So where no error is reported all values were found, and checking goes
the same way with every higher limit.
-/

namespace Solo

/-- The same options with another limit on the steps of a constant. -/
def Options.deeper (o : Options) (limit : Nat) : Options := { o with maxConstEvalDepth := limit }

def Context.deeper (cx : Context) (limit : Nat) : Context :=
  { cx with options := cx.options.deeper limit }

def Checked.deeper (q : Checked) (limit : Nat) : Checked :=
  { q with context := q.context.deeper limit }

def Checker.Clean (c : Checker) : Prop := ∀ d ∈ c.diagnostics, d.isError = false

/-- Where an action ends without an error, it began without one, and if its result satisfies `Q`
then the other action ends in the same way. -/
def Persists {α : Type} (Q : α → Prop) (a a' : Check α) : Prop :=
  ∀ c x c', a c = .ok (x, c') → c'.Clean → c.Clean ∧ (Q x → a' c = .ok (x, c'))

/-- Whatever its result is. -/
abbrev Carries {α : Type} (a a' : Check α) : Prop := Persists (fun _ => True) a a'

namespace Persists

variable {α β : Type} {Q : α → Prop} {R : β → Prop} {a a' : Check α}

theorem same (reports : ∀ c x c', a c = .ok (x, c') → ∀ d ∈ c.diagnostics, d ∈ c'.diagnostics) :
    Persists Q a a :=
  fun c x c' run clean => ⟨fun d member => clean d (reports c x c' run d member), fun _ => run⟩

theorem pure (x : α) : Persists Q (Pure.pure x) (Pure.pure x) := by
  refine same fun c y c' run d member => ?_
  cases run
  exact member

theorem missing {x : α} (not : ¬Q x) (b : Check α) : Persists Q (Pure.pure x) b := by
  intro c y c' run clean
  cases run
  exact ⟨clean, fun holds => absurd holds not⟩

theorem throw (e : Fault) (b : Check α) : Persists Q (MonadExcept.throw e) b := by
  intro c y c' run
  cases run

theorem weaken {Q' : α → Prop} (persists : Persists Q a a') (gives : ∀ x, Q' x → Q x) :
    Persists Q' a a' := by
  intro c x c' run clean
  obtain ⟨before, goes⟩ := persists c x c' run clean
  exact ⟨before, fun holds => goes (gives x holds)⟩

/-- Two actions in a row. Nothing comes of a first result that does not count. -/
theorem both {f f' : α → Check β} (first : Persists Q a a')
    (rest : ∀ x, Q x → Persists R (f x) (f' x))
    (drop : ∀ x, ¬Q x → ∀ b, Persists R (f x) b) : Persists R (a >>= f) (a' >>= f') := by
  intro c y c' run clean
  obtain ⟨x, c₁, run₁, run₂⟩ := Check.bind_ok run
  by_cases holds : Q x
  · obtain ⟨between, goes⟩ := rest x holds c₁ y c' run₂ clean
    obtain ⟨before, began⟩ := first c x c₁ run₁ between
    exact ⟨before, fun found => (Check.bind_eq (began holds)).trans (goes found)⟩
  · obtain ⟨between, never⟩ := drop x holds (MonadExcept.throw .endless) c₁ y c' run₂ clean
    obtain ⟨before, _⟩ := first c x c₁ run₁ between
    exact ⟨before, fun found => nomatch never found⟩

theorem bind {f f' : α → Check β} (first : Carries a a')
    (rest : ∀ x, Persists R (f x) (f' x)) : Persists R (a >>= f) (a' >>= f') :=
  both first (fun x _ => rest x) fun _ not => absurd trivial not

/-- Nothing comes of two actions if nothing comes of the second one. -/
theorem never {f : α → Check β} (first : Carries a a') (rest : ∀ x b, Persists R (f x) b)
    (b : Check β) : Persists R (a >>= f) b := by
  intro c y c' run clean
  obtain ⟨x, c₁, run₁, run₂⟩ := Check.bind_ok run
  obtain ⟨between, never⟩ := rest x (MonadExcept.throw .endless) c₁ y c' run₂ clean
  exact ⟨(first c x c₁ run₁ between).1, fun found => nomatch never found⟩

/-- An action that goes on with a value only. -/
theorem bindSome {a a' : Check (Option α)} {f f' : Option α → Check (Option β)}
    (first : Persists (·.isSome = true) a a')
    (rest : ∀ v, Persists (·.isSome = true) (f (some v)) (f' (some v)))
    (stops : f none = Pure.pure none) : Persists (·.isSome = true) (a >>= f) (a' >>= f') := by
  refine both first (fun found known => ?_) fun found unknown b => ?_
  · obtain ⟨v, rfl⟩ := Option.isSome_iff_exists.mp known
    exact rest v
  · obtain rfl := Option.not_isSome_iff_eq_none.mp unknown
    rw [stops]
    exact missing (by simp) b

/-- What the actions do may depend on the state they start in. -/
theorem at_state (each : ∀ c, ∃ b b', a c = b c ∧ a' c = b' c ∧ Persists Q b b') :
    Persists Q a a' := by
  intro c x c' run clean
  obtain ⟨b, b', same, same', persists⟩ := each c
  rw [same']
  exact persists c x c' (same ▸ run) clean

theorem get {f f' : Checker → Check α} (rest : ∀ c, Persists Q (f c) (f' c)) :
    Persists Q (MonadState.get >>= f) (MonadState.get >>= f') :=
  at_state fun c => ⟨f c, f' c, rfl, rfl, rest c⟩

theorem branch {q : Prop} [Decidable q] {b b' : Check α} (yes : Persists Q a a')
    (no : Persists Q b b') : Persists Q (if q then a else b) (if q then a' else b') := by
  split
  · exact yes
  · exact no

/-- A step that settles nothing and reports nothing. -/
theorem update {f : Checker → Checker} (same : ∀ c, (f c).diagnostics = c.diagnostics) :
    Carries (modify f) (modify f) := by
  refine Persists.same fun c x c' run d member => ?_
  cases run
  exact (same c).symm ▸ member

theorem report (span : Span) (problem : Problem) :
    Carries (Check.report span problem) (Check.report span problem) := by
  refine same fun c x c' run d member => ?_
  cases run
  exact Array.mem_push_of_mem _ member

theorem fail {span : Span} {problem : Problem} {f : Unit → Check α}
    (error : problem.severity = .error) (rest : Persists Q (f ()) (f ())) (b : Check α) :
    Persists Q (Check.report span problem >>= f) b := by
  intro c y c' run clean
  obtain ⟨_, c₁, reported, run⟩ := Check.bind_ok run
  cases reported
  have loud := (rest _ y c' run clean).1 _ Array.mem_push_self
  rw [Diagnostic.isError, error] at loud
  cases loud

end Persists

/-- A value is found, or there is none and that is no error. -/
def Found {α : Type} : Except Problem α → Prop
  | .ok _ => True
  | .error problem => problem.severity ≠ .error

/-- Without a name that is followed the number of steps does not matter. -/
theorem Resolver.inhabitantWithin_plain (r : Resolver) (n n' : Nat) {t : Ty}
    (plain : ∀ x, t ≠ .path x) : r.inhabitantWithin n t = r.inhabitantWithin n' t := by
  cases t with
  | intrinsic k => cases k <;> simp only [inhabitantWithin]
  | literal v => simp only [inhabitantWithin]
  | path x => exact absurd rfl (plain x)

theorem Context.asking_deeper (cx : Context) (limit : Nat) (o : Oracle) :
    (cx.deeper limit).asking o = (cx.asking o).under (cx.options.deeper limit) := rfl

section
variable {cx : Context} {o o' : Oracle}

/-- A step that settles no goal goes the same way. -/
theorem Still.carries {α : Type} {a : Check α} (still : Still cx a) : Carries a a :=
  .same still.reports

/-- All questions are answered in the same way with an oracle that answers in the same way. -/
theorem thorough_carries (asks : ∀ q, Carries (o q) (o' q)) :
    Thorough cx fun act => Carries (act o) (act o') := by
  have comp : Compositional cx fun act => Carries (act o) (act o') :=
    ⟨Still.carries, fun first rest => .bind first rest, fun q _ => asks q⟩
  exact { comp with
    isSubtype := comp.isSubtype (.throw _ _)
    lub := comp.lub (.throw _ _) }

variable (asks : ∀ q, Carries (o q) (o' q))
include asks

/-! ### Constants -/

theorem constants_carry {n n' : Nat} (le : n ≤ n') :
    (∀ x, Persists (·.isSome = true) ((cx.asking o).constantOf n x)
      ((cx.asking o').constantOf n' x)) ∧
    ∀ e, Persists (·.isSome = true) ((cx.asking o).constant n e)
      ((cx.asking o').constant n' e) := by
  have none : ∀ b, Persists (·.isSome = true) (Pure.pure (none : Option Literal)) b :=
    Persists.missing (by simp)
  have apply : ∀ result, Persists (·.isSome = true) (Check.apply result) (Check.apply result) :=
    fun result => (Still.apply result : Still cx _).carries.weaken fun _ _ => trivial
  induction n generalizing n' with
  | zero => exact ⟨fun _ => none _, fun _ => none _⟩
  | succ n ih =>
    obtain ⟨k, rfl⟩ := Nat.exists_eq_add_of_le' le
    obtain ⟨ofSymbol, ofExpr⟩ := ih (Nat.le_add_left n k)
    refine ⟨fun x => ?_, fun e => ?_⟩
    · simp only [Resolver.constantOf, cx.asking_toContext]
      refine .get fun c => .branch (.pure _) (.branch (.pure _) ?_)
      refine .bind (asks (.typeOf x)) fun t => ?_
      cases t with
      | literal v => exact .pure _
      | path y => exact ofSymbol y
      | intrinsic j =>
        rcases (cx.symbol x).decls.head? with _ | ⟨d⟩ | _ | _ | _
        case some.val =>
          refine .bind (.update fun _ => rfl) fun _ => ?_
          refine .both (ofExpr d.init) (fun found _ => ?_) fun found unknown => ?_
          · exact .bind (.update fun _ => rfl) fun _ => .pure found
          · exact .never (.update fun _ => rfl) fun _ => .missing unknown
        all_goals exact .pure _
    · cases e with
      | lit l => exact .pure _
      | paren m e => exact ofExpr e
      | name x =>
        simp only [Resolver.constant, cx.asking_toContext]
        cases cx.symbolAt? x.mark.id with
        | some s => exact ofSymbol s
        | none => exact none _
      | unary m op e => exact .bindSome (ofExpr e) (fun v => apply _) rfl
      | bin m op a b =>
        exact .bindSome (ofExpr a) (fun v => .bindSome (ofExpr b) (fun w => apply _) rfl) rfl
      | _ => exact .pure _

/-- A value that is found within `n` steps is found within more. -/
theorem inhabitantWithin_carries {n n' : Nat} (le : n ≤ n') (t : Ty) :
    Persists Found ((cx.asking o).inhabitantWithin n t) ((cx.asking o').inhabitantWithin n' t) := by
  have unfound : ∀ x b, Persists Found (Pure.pure
      (Except.error (Problem.notAConstant (cx.nameOf x)) : Except Problem Literal)) b :=
    fun x => Persists.missing fun found => found rfl
  have plain : ∀ {n n' t}, (∀ x, t ≠ .path x) → Persists Found
      ((cx.asking o).inhabitantWithin n t) ((cx.asking o').inhabitantWithin n' t) := by
    intro n n' t plain
    rw [← Resolver.inhabitantWithin_plain (cx.asking o') n n' plain]
    exact ((thorough_carries asks).anywhere.inhabitantWithin n t).weaken fun _ _ => trivial
  induction n generalizing n' t with
  | zero =>
    cases t with
    | path x => exact unfound x _
    | _ => exact plain nofun
  | succ n ih =>
    cases t with
    | path x =>
      obtain ⟨k, rfl⟩ := Nat.exists_eq_add_of_le' le
      have le := Nat.le_add_left n k
      simp only [Resolver.inhabitantWithin, cx.asking_toContext]
      refine .bind (asks (.typeOf x)) fun declared => .branch ?_ ?_
      · refine .both (ih le declared) (fun found _ => ?_) fun found lost => ?_
        · cases found <;> exact .pure _
        · cases found with
          | ok v => exact absurd trivial lost
          | error problem => exact unfound x
      · refine .both ((constants_carry asks le).1 x) (fun found _ => ?_) fun found lost => ?_
        · cases found <;> exact .pure _
        · obtain rfl := Option.not_isSome_iff_eq_none.mp lost
          exact unfound x
    | _ => exact plain nofun

variable {limit : Nat} (raised : cx.options.maxConstEvalDepth ≤ limit)
include raised

/-- A value that is found is found under a higher limit. -/
theorem inhabitant_carries (t : Ty) : Persists Found ((cx.asking o).inhabitant t)
    (((cx.asking o').under (cx.options.deeper limit)).inhabitant t) := by
  have steps : (cx.asking o).stepsAt 0 ≤ limit + 1 - 0 :=
    Nat.sub_le_sub_right (Nat.succ_le_succ raised) 0
  have within : Persists Found ((cx.asking o).inhabitantWithin _ t) _ :=
    inhabitantWithin_carries asks steps t
  rw [Resolver.inhabitant, Resolver.inhabitant, Resolver.inhabitantWithin_under]
  refine .both within (fun found _ => ?_) fun found lost => ?_
  · cases found with
    | ok v => exact .bind (Still.enterLiteral v : Still cx _).carries fun _ => .pure _
    | error problem => exact .pure _
  · cases found with
    | ok v => exact absurd trivial lost
    | error problem => exact .missing lost

/-- Not finding the value of an inhabitant expression is an error. -/
theorem typeOfInhabitant_carries (m : Mark) (node : TyNode Mark) :
    Carries ((cx.asking o).typeOfInhabitant m node)
      (((cx.asking o').under (cx.options.deeper limit)).typeOfInhabitant m node) := by
  have comp : Thorough cx _ := thorough_carries asks
  simp only [Resolver.typeOfInhabitant,
    (cx.asking o').typeOfNode_under (cx.options.deeper limit) rfl]
  refine .bind (comp.typeOfNode node) fun t => .branch (.pure t) ?_
  refine .both (inhabitant_carries asks raised t) (fun found _ => ?_) fun found lost => ?_
  · cases found with
    | ok w => exact comp.still (.bind (.recordWitness m.id w) fun _ => .pure t)
    | error problem => exact comp.anywhere.reject (Mark.exists_span _) problem t
  · cases found with
    | ok w => exact absurd trivial lost
    | error problem => exact .fail (not_not.mp lost) (.pure t)

omit raised in
theorem signaturesOf_carries (x : SymbolId) :
    Carries ((cx.asking o).signaturesOf x) ((cx.asking o').signaturesOf x) := by
  have comp : Thorough cx _ := thorough_carries asks
  exact comp.composed.mapM (f := fun d o => o (.signature d)) fun d _ => asks (.signature d)

omit asks raised in
theorem recordSignature_carries (i : NodeId) (sig : Signature) :
    Carries (Check.recordSignature i sig) (Check.recordSignature i sig) := by
  refine .get fun c => ?_
  split
  · exact .bind (.throw _ _) fun _ => .update fun _ => rfl
  · exact .update fun _ => rfl

/-! ### Trees -/

set_option linter.unusedSectionVars false

omit asks raised in
theorem once_carries (i : NodeId) {find find' : Check Ty} (finds : Carries find find') :
    Carries (Check.once i find) (Check.once i find') := by
  refine .get fun c => ?_
  cases c.nodeTypes.find? i with
  | some t => exact .pure t
  | none => exact .bind finds fun t => .bind (.update fun _ => rfl) fun _ => .pure t

mutual
theorem typeOfExpr_carries : ∀ (e : Expr Mark) (expected : Option Ty),
    Carries ((cx.asking o).typeOfExpr e expected)
      (((cx.asking o').under (cx.options.deeper limit)).typeOfExpr e expected)
  | .lit l, _ => once_carries l.mark.id (Still.enterType _ : Still cx _).carries
  | .name x, expected =>
    once_carries x.mark.id ((thorough_carries asks).anywhere.typeOfName trivial expected)
  | .paren m e, expected => once_carries m.id (typeOfExpr_carries e expected)
  | .unary m op e, _ => by
    simp only [Resolver.typeOfExpr, Resolver.typeOfUnary_under]
    exact once_carries m.id (.bind (typeOfExpr_carries e none) fun t =>
      (thorough_carries asks).anywhere.typeOfUnary (Mark.exists_span _) op t)
  | .bin m op a b, _ => by
    simp only [Resolver.typeOfExpr, Resolver.typeOfBinary_under]
    refine once_carries m.id (.bind (typeOfExpr_carries a none) fun s => ?_)
    exact .bind (typeOfExpr_carries b none) fun t =>
      (thorough_carries asks).anywhere.typeOfBinary (Mark.exists_span _) op s t
  | .call m f args, expected => by
    simp only [Resolver.typeOfExpr, Resolver.selectOverload_under, cx.asking_toContext,
      Resolver.under_toBoundProgram]
    refine once_carries m.id ?_
    cases cx.symbolAt? f.mark.id with
    | none => exact .bind (typeOfArgs_carries args []) fun _ => .pure Ty.error
    | some x =>
      dsimp only
      cases (cx.symbol x).role with
      | builtin =>
        refine .bind (typeOfArgs_carries args []) fun _ => .branch ?_ (.pure _)
        exact .bind (.report _ _) fun _ => .pure _
      | function =>
        refine .bind (signaturesOf_carries asks x) fun sigs => ?_
        refine .bind (typeOfArgs_carries args _) fun types => ?_
        refine .bind ((thorough_carries asks).anywhere.selectOverload (Mark.exists_span _)
          (fun span _ => Mark.exists_span span) sigs types) fun found => ?_
        cases found with
        | some sig => exact .bind (recordSignature_carries m.id sig) fun _ => .pure _
        | none => exact .pure Ty.error
      | _ =>
        exact .bind (typeOfArgs_carries args []) fun _ => .bind (.report _ _) fun _ => .pure _
  | .block m ss tail, expected =>
    once_carries m.id (.bind (checkStmts_carries ss) fun _ => typeOfTail_carries tail expected)
  | .assign m x e, _ => by
    simp only [Resolver.typeOfExpr, Resolver.checkAssignable_under, cx.asking_toContext,
      Resolver.under_toBoundProgram]
    refine once_carries m.id ?_
    cases cx.symbolAt? x.mark.id with
    | none => exact .bind (typeOfExpr_carries e none) fun _ => .pure _
    | some s =>
      refine .branch (.bind (asks (.typeOf s)) fun declared => ?_) ?_
      · refine .bind (typeOfExpr_carries e (some declared)) fun t => ?_
        exact .bind ((thorough_carries asks).anywhere.checkAssignable t declared
          (Mark.exists_span _)) fun _ => .pure _
      · exact .bind (.report _ _) fun _ => .bind (typeOfExpr_carries e none) fun _ => .pure _
  | .cases m e arms, expected =>
    once_carries m.id (.bind (typeOfExpr_carries e none) fun t =>
      typeOfArms_carries t.widenLiteral expected false none arms)
  | .inhabitant m node, _ => once_carries m.id (typeOfInhabitant_carries asks raised m node)
  | .host m _, _ => once_carries m.id (.pure _)

theorem typeOfArgs_carries : ∀ (es : List (Expr Mark)) (expected : List Ty),
    Carries ((cx.asking o).typeOfArgs es expected)
      (((cx.asking o').under (cx.options.deeper limit)).typeOfArgs es expected)
  | [], _ => .pure []
  | e :: es, expected =>
    .bind (typeOfExpr_carries e expected.head?) fun t =>
      .bind (typeOfArgs_carries es expected.tail) fun ts => .pure (t :: ts)

theorem typeOfTail_carries : ∀ (tail : Option (Expr Mark)) (expected : Option Ty),
    Carries ((cx.asking o).typeOfTail tail expected)
      (((cx.asking o').under (cx.options.deeper limit)).typeOfTail tail expected)
  | none, _ => .pure _
  | some e, expected => typeOfExpr_carries e expected

theorem typeOfArms_carries (scrutinee : Ty) (expected : Option Ty) :
    ∀ (closed : Bool) (above : Option Ty) (arms : List (Arm Mark)),
      Carries ((cx.asking o).typeOfArms scrutinee expected closed above arms)
        (((cx.asking o').under (cx.options.deeper limit)).typeOfArms scrutinee expected closed
          above arms)
  | _, _, [] => .pure _
  | closed, above, ⟨m, q, e⟩ :: arms => by
    have comp : Thorough cx _ := thorough_carries asks
    have rest := fun u =>
      typeOfArms_carries scrutinee expected (closed || q.isWildcard) (some u) arms
    simp only [Resolver.typeOfArms, Resolver.lub_under,
      (cx.asking o').checkPat_under (cx.options.deeper limit) rfl]
    refine .branch (.bind (.report _ _) fun _ => ?_) ?_
    all_goals
      refine .bind (comp.anywhere.checkPat scrutinee q fun _ _ => trivial) fun _ => ?_
      refine .bind (typeOfExpr_carries e expected) fun t => ?_
      cases above with
      | some prev => exact .bind (comp.lub prev t) rest
      | none => exact .bind (.pure t) rest

theorem checkStmt_carries : ∀ s : Stmt Mark, Carries ((cx.asking o).checkStmt s)
    (((cx.asking o').under (cx.options.deeper limit)).checkStmt s)
  | .val ⟨m, kind, x, ty, e⟩ => by
    simp only [Resolver.checkStmt, Resolver.checkAssignable_under, cx.asking_toContext,
      Resolver.under_toBoundProgram]
    cases cx.symbolAt? m.id with
    | none => exact .pure ()
    | some s =>
      refine .bind (asks (.typeOf s)) fun declared => .branch ?_ ?_
      · refine .bind (typeOfExpr_carries e (some declared)) fun t => ?_
        exact (thorough_carries asks).anywhere.checkAssignable t declared (Mark.exists_span _)
      · exact .bind (typeOfExpr_carries e none) fun _ => .pure ()
  | .typeAlias ⟨m, name, ty⟩ => by
    simp only [Resolver.checkStmt, cx.asking_toContext, Resolver.under_toBoundProgram]
    cases cx.symbolAt? m.id with
    | none => exact .pure ()
    | some s => exact .bind (asks (.aliasTarget s name.mark.span)) fun _ => .pure ()
  | .fn ⟨m, name, params, result, e⟩ => by
    simp only [Resolver.checkStmt, Resolver.checkAssignable_under]
    refine .bind (asks (.signature ⟨m, name, params, result, e⟩)) fun sig => .branch ?_ ?_
    · refine .bind (typeOfExpr_carries e (some sig.result)) fun t => ?_
      exact (thorough_carries asks).anywhere.checkAssignable t sig.result (Mark.exists_span _)
    · exact .bind (typeOfExpr_carries e none) fun _ => .pure ()
  | .expr m e => .bind (typeOfExpr_carries e none) fun _ => .pure ()

theorem checkStmts_carries : ∀ ss : List (Stmt Mark), Carries ((cx.asking o).checkStmts ss)
    (((cx.asking o').under (cx.options.deeper limit)).checkStmts ss)
  | [] => .pure ()
  | s :: ss => .bind (checkStmt_carries s) fun _ => checkStmts_carries ss
end

/-! ### Declarations -/

theorem typeOfVal_carries (d : ValDecl Mark) : Carries ((cx.asking o).typeOfVal d)
    (((cx.asking o').under (cx.options.deeper limit)).typeOfVal d) := by
  obtain ⟨m, kind, name, ty, e⟩ := d
  cases ty with
  | some node =>
    simp only [Resolver.typeOfVal, (cx.asking o').typeOfNode_under (cx.options.deeper limit) rfl]
    exact (thorough_carries asks).typeOfNode node
  | none =>
    refine .bind (typeOfExpr_carries asks raised e none) fun t => ?_
    exact .branch (.pure t) (.pure t.widenLiteral)

theorem typeOfDecl_carries (d : Decl) : Carries ((cx.asking o).typeOfDecl d)
    (((cx.asking o').under (cx.options.deeper limit)).typeOfDecl d) := by
  cases d with
  | param q =>
    simp only [Resolver.typeOfDecl, (cx.asking o').typeOfNode_under (cx.options.deeper limit) rfl]
    exact (thorough_carries asks).typeOfNode q.ty
  | val d => exact typeOfVal_carries asks raised d
  | _ => exact .pure Ty.error

omit raised in
theorem typeOfTarget_carries (d : Option Decl) : Carries ((cx.asking o).typeOfTarget d)
    (((cx.asking o').under (cx.options.deeper limit)).typeOfTarget d) := by
  rcases d with _ | _ | _ | d | _
  case some.typeAlias =>
    simp only [Resolver.typeOfTarget,
      (cx.asking o').typeOfNode_under (cx.options.deeper limit) rfl]
    exact (thorough_carries asks).typeOfNode d.ty
  all_goals exact .pure Ty.error

/-! ### Goals -/

omit asks raised in
/-- The search for an answer takes the steps of what it searches. -/
theorem search_carries {α β : Type} {g : Goal} {body body' : Check α} {blocked : β}
    {finish : α → Bool → Check β} (finds : Carries body body')
    (ends : ∀ x, Carries (finish x false) (finish x false))
    (fails : ∀ x, Carries (finish x true) (finish x true)) :
    Carries (search g body blocked finish) (search g body' blocked finish) := by
  have pursue : Carries (Check.pursue g) (Check.pursue g) := by
    refine .same fun c b c' run d member => ?_
    rw [Check.pursue_apply] at run
    split at run <;> cases run <;> exact member
  have conclude : Carries Check.conclude Check.conclude := by
    refine .same fun c b c' run d member => ?_
    rw [Check.conclude_apply] at run
    split at run <;> cases run <;> exact member
  refine .bind pursue fun begun => .branch (.pure blocked) ?_
  refine .bind finds fun x => .bind conclude fun looped => ?_
  cases looped with
  | true => exact fails x
  | false => exact ends x

theorem typeOfSymbol_carries (x : SymbolId) : Carries ((cx.asking o).typeOfSymbol x)
    (((cx.asking o').under (cx.options.deeper limit)).typeOfSymbol x) := by
  refine .at_state fun c => ?_
  cases found : c.symbolTypes.find? x with
  | some t =>
    exact ⟨_, _, Resolver.typeOfSymbol_known _ found, Resolver.typeOfSymbol_known _ found, .pure t⟩
  | none =>
    by_cases typable : cx.Typable x
    · obtain ⟨binding, declared⟩ := typable
      obtain ⟨d, ds, decls⟩ := List.exists_cons_of_ne_nil declared
      have head : (cx.symbol x).decls.head? = some d := by rw [decls]; rfl
      exact ⟨_, _, Resolver.typeOfSymbol_search _ found binding head,
        Resolver.typeOfSymbol_search _ found binding head,
        search_carries (typeOfDecl_carries asks raised d)
          (fun t => .bind (.update fun _ => rfl) fun _ => .pure t)
          fun t => .bind (.report _ _) fun _ => .bind (.update fun _ => rfl) fun _ => .pure _⟩
    · exact ⟨_, _, Resolver.typeOfSymbol_untypable _ found typable,
        Resolver.typeOfSymbol_untypable _ found typable, .pure Ty.error⟩

theorem targetOfAlias_carries (x : SymbolId) (span : Span) :
    Carries ((cx.asking o).targetOfAlias x span)
      (((cx.asking o').under (cx.options.deeper limit)).targetOfAlias x span) := by
  refine .at_state fun c => ?_
  cases found : c.aliasTargets.find? x with
  | some t =>
    exact ⟨_, _, Resolver.targetOfAlias_known _ found, Resolver.targetOfAlias_known _ found,
      .pure t⟩
  | none =>
    exact ⟨_, _, Resolver.targetOfAlias_search _ found, Resolver.targetOfAlias_search _ found,
      search_carries (typeOfTarget_carries asks _)
        (fun t => .bind (.update fun _ => rfl) fun _ => .pure t)
        fun t => .bind (.report _ _) fun _ => .bind (.update fun _ => rfl) fun _ => .pure _⟩

theorem signatureOf_carries (d : FnDecl Mark) : Carries ((cx.asking o).signatureOf d)
    (((cx.asking o').under (cx.options.deeper limit)).signatureOf d) := by
  have comp : Thorough cx _ := thorough_carries asks
  refine .at_state fun c => ?_
  cases found : c.signatures.find? d.mark.id with
  | some sig =>
    exact ⟨_, _, Resolver.signatureOf_known _ found, Resolver.signatureOf_known _ found, .pure sig⟩
  | none =>
    refine ⟨_, _, Resolver.signatureOf_new _ found, Resolver.signatureOf_new _ found, ?_⟩
    rw [(cx.asking o').typeOfParam_under (cx.options.deeper limit) rfl]
    refine .bind (comp.composed.mapM (f := fun q o => (cx.asking o).typeOfParam q) fun q _ =>
      comp.typeOfParam q) fun params => ?_
    simp only [Resolver.signatureAfter,
      (cx.asking o').typeOfNode_under (cx.options.deeper limit) rfl]
    cases d.result with
    | some node =>
      refine .bind (comp.typeOfNode node) fun t => ?_
      exact .bind (.update fun _ => rfl) fun _ => .pure _
    | none =>
      exact search_carries (typeOfExpr_carries asks raised d.body none)
        (fun t => .bind (.update fun _ => rfl) fun _ => .pure _)
        fun t => .bind (.report _ _) fun _ => .bind (.update fun _ => rfl) fun _ => .pure _

/-! ### The whole program -/

theorem meet_carries (q : Demand) : Carries (cx.meet q o) ((cx.deeper limit).meet q o') := by
  cases q with
  | typeOf x => exact typeOfSymbol_carries asks raised x
  | aliasTarget x span => exact targetOfAlias_carries asks raised x span
  | signature d => exact signatureOf_carries asks raised d

omit asks in
/-- Demands are met in the same way to every depth. -/
theorem oracle_carries (n : Nat) (q : Demand) :
    Carries (cx.oracle n q) ((cx.deeper limit).oracle n q) := by
  induction n generalizing q with
  | zero => exact .throw _ _
  | succ n ih => exact meet_carries ih raised q

omit asks in
theorem check_carries : Carries cx.check (cx.deeper limit).check := by
  rw [Context.check, Context.check, Context.resolver, Context.resolver, Resolver.ofDepth_eq,
    Resolver.ofDepth_eq]
  exact checkStmts_carries (oracle_carries raised _) raised cx.program.stmts

omit asks in
/-- A constant that is found under one limit is found with more steps under a higher one. -/
theorem constant_carries {n n' : Nat} (le : n ≤ n') (e : Expr Mark) :
    Persists (·.isSome = true) (cx.resolver.constant n e)
      ((cx.deeper limit).resolver.constant n' e) := by
  rw [Context.resolver, Context.resolver, Resolver.ofDepth_eq, Resolver.ofDepth_eq,
    cx.asking_deeper, (Resolver.constants_under _ _ _).2]
  exact (constants_carry (oracle_carries raised cx.questionBound) le).2 e

end

/-! ### Checked drafts -/

variable {limit : Nat}

/-- A check without an error goes the same way under a higher limit. -/
theorem Context.checked_deeper {cx : Context} (raised : cx.options.maxConstEvalDepth ≤ limit)
    {q : Checked} (run : cx.checked = .ok q) (clean : ∀ d ∈ q.diagnostics, d.isError = false) :
    (cx.deeper limit).checked = .ok (q.deeper limit) := by
  obtain ⟨c₁, check, rfl⟩ := checked_ok run
  have clean₁ : c₁.Clean := fun d member => clean d (Array.mem_toList_iff.mpr member)
  have goes : (cx.deeper limit).check (.start cx.names) = .ok ((), c₁) :=
    (check_carries raised _ _ c₁ check clean₁).2 trivial
  exact checked_of_check goes

namespace Draft.Passes

variable {d : Draft} {o : Options} {q : Checked} (passes : d.Passes o q)
  (raised : o.maxConstEvalDepth ≤ limit)
include passes raised

/-- A draft passes under a higher limit, with all that was found. -/
theorem deeper : d.Passes (o.deeper limit) (q.deeper limit) := by
  refine ⟨Context.checked_deeper raised passes.checked fun e member => ?_, passes.clean⟩
  have none := passes.clean
  rw [Checked.hasErrors, List.any_eq_false] at none
  exact (Bool.not_eq_true _).mp (none e (List.mem_append_right _ member))

/-- A constant that is found between two questions is found with more steps under a higher limit. -/
theorem constant_deeper {c c' c₁ : Checker} (idle : q.Idle c) (idle' : q.Idle c') {n n' : Nat}
    (le : n ≤ n') {e : Expr Mark} {v : Literal}
    (run : q.context.resolver.constant n e c = .ok (some v, c₁)) :
    ∃ c₁', (q.deeper limit).context.resolver.constant n' e c' = .ok (some v, c₁') := by
  obtain ⟨same, cert⟩ := passes.certified
  obtain ⟨like, evaluating⟩ := idle
  obtain ⟨like', evaluating'⟩ := idle'
  obtain ⟨cx, F, ds⟩ := q
  obtain rfl : cx = d.context o := same
  obtain ⟨_, _, run', like₁, _⟩ := (cert.constants n).2 e c like
  cases run.symm.trans run'
  have clean : c₁.Clean := by
    rw [Checker.Clean, like₁.diagnostics, cert.diagnostics]
    simp
  have goes := (constant_carries raised le e c _ c₁ run clean).2 rfl
  have cert' : Certified ((d.context o).deeper limit).toBoundProgram F := cert
  obtain ⟨_, repeats⟩ := (cert'.constants_repeat n').2 [] e
  exact repeats.again like evaluating like' evaluating' goes

theorem constantAt_deeper {c c' c₁ : Checker} (idle : q.Idle c) (idle' : q.Idle c') {k : Nat}
    {e : Expr Mark} {v : Literal}
    (run : q.context.resolver.constantAt k e c = .ok (some v, c₁)) :
    ∃ c₁', (q.deeper limit).context.resolver.constantAt k e c' = .ok (some v, c₁') := by
  obtain ⟨same, _⟩ := passes.certified
  have options : q.context.options.maxConstEvalDepth ≤ limit := by
    rw [same]
    exact raised
  have steps : q.context.options.maxConstEvalDepth + 1 - k ≤ limit + 1 - k :=
    Nat.sub_le_sub_right (Nat.succ_le_succ options) k
  exact passes.constant_deeper raised idle idle' steps run

omit raised in
/-- Under one limit, too, a constant is found with more steps. -/
theorem constant_mono {c c' c₁ : Checker} (idle : q.Idle c) (idle' : q.Idle c') {n n' : Nat}
    (le : n ≤ n') {e : Expr Mark} {v : Literal}
    (run : q.context.resolver.constant n e c = .ok (some v, c₁)) :
    ∃ c₁', q.context.resolver.constant n' e c' = .ok (some v, c₁') := by
  obtain ⟨same, _⟩ := passes.certified
  obtain ⟨_, goes⟩ := passes.constant_deeper (Nat.le_refl _) idle idle' le run
  rw [Checked.deeper, same] at goes
  rw [same]
  exact ⟨_, goes⟩

end Draft.Passes

/-- Raising the limit on constants never hurts. A draft that is checked without an error under one
limit is so under every higher one, with the same checker and the same reports: so with the same
types of symbols and nodes, the same signatures, witnesses and warnings. Between questions after
the check, whatever was asked before, an expression that is a constant at some depth under the
lower limit is the same constant there under the higher one. -/
theorem higher_limit_keeps_constants (d : Draft) (o : Options) (low high : Nat) (le : low ≤ high)
    (q : Checked) (passes : d.Passes (o.deeper low) q) :
    ∃ q', d.Passes (o.deeper high) q' ∧ q'.checker = q.checker ∧
      q'.allDiagnostics = q.allDiagnostics ∧
      ∀ c c', q.Idle c → q'.Idle c' → ∀ k e v c₁,
        q.context.resolver.constantAt k e c = .ok (some v, c₁) →
          ∃ c₁', q'.context.resolver.constantAt k e c' = .ok (some v, c₁') := by
  refine ⟨q.deeper high, passes.deeper le, rfl, rfl, fun c c' idle idle' k e v c₁ run => ?_⟩
  exact passes.constantAt_deeper le idle ⟨idle'.like, idle'.evaluating⟩ run

/-- A draft that asks for the value of `b`, which takes two steps. -/
def Draft.doubled : Draft where
  text := "val a: 1.type = 1 val b: a.type = a inhabitant[b.type]"
  stmts :=
    [.val ⟨[], .val, ⟨[], "a"⟩, some (.lit [] ⟨[], .int 1⟩ true), .lit ⟨[], .int 1⟩⟩,
      .val ⟨[], .val, ⟨[], "b"⟩, some (.singleton [] (.name ⟨[], "a"⟩)), .name ⟨[], "a"⟩⟩,
      .expr [] (.inhabitant [] (.singleton [] (.name ⟨[], "b"⟩)))]

/-- The limit can just be reached; with a lower one the draft has an error. -/
theorem higher_limit_keeps_constants_doubled : ∃ q q' c c',
    Draft.doubled.Passes ((default : Options).deeper 1) q ∧
    q.context.resolver.constantAt 0 (.name ⟨⟨8, ⟨34, 35, 0, by omega⟩, []⟩, "a"⟩) q.checker =
      .ok (some (.int 1), c) ∧
    Draft.doubled.Passes ((default : Options).deeper 2) q' ∧ q'.checker = q.checker ∧
    q'.context.resolver.constantAt 0 (.name ⟨⟨8, ⟨34, 35, 0, by omega⟩, []⟩, "a"⟩) q'.checker =
      .ok (some (.int 1), c') := by
  obtain ⟨q, passes, found⟩ : ∃ q, Draft.doubled.Passes ((default : Options).deeper 1) q ∧
      ((q.context.resolver.constantAt 0 (.name ⟨⟨8, ⟨34, 35, 0, by omega⟩, []⟩, "a"⟩)
        q.checker).toOption.bind Prod.fst == some (.int 1)) = true :=
    Draft.exists_passes (by decide +kernel)
  obtain ⟨⟨_, c⟩, run, rfl⟩ := Option.bind_eq_some_iff.mp (eq_of_beq found)
  have run := Except.eq_ok_of_toOption run
  obtain ⟨q', passes', same, _, keeps⟩ :=
    higher_limit_keeps_constants .doubled default 1 2 (by decide) q passes
  obtain ⟨c', run'⟩ := keeps q.checker q'.checker passes.idle passes'.idle 0 _ _ c run
  exact ⟨q, q', c, c', passes, run, passes', same, run'⟩

end Solo

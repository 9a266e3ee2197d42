import Solo.Proofs.Failures
import Solo.Proofs.Soundness

/-!
# Operands

Which operators of a run have no result. A failed operator is traced back to the place where it was
applied. There the types of the operands say that only one thing can be wrong: a string that is
null, joined to something that is no string.
-/

namespace Solo

/-! ### Operations -/

/-- An operator with the values that it is applied to. -/
inductive Operation where
  | unary (op : UnaryOp) (v : Literal)
  | bin (op : BinOp) (v w : Literal)

namespace Operation

def symbol : Operation → String
  | unary op _ => op.symbol
  | bin op _ _ => op.symbol

def result : Operation → Except OpError Literal
  | unary op v => op.eval v
  | bin op v w => op.eval v w

/-- Null is joined to what is no string. -/
def JoinsNull : Operation → Prop
  | bin (.arith .add) v w => (v = .null ∨ w = .null) ∧ v.isString = false ∧ w.isString = false
  | _ => False

theorem JoinsNull.symbol {a : Operation} (joins : a.JoinsNull) : a.symbol = "+" := by
  unfold JoinsNull at joins
  split at joins
  · rfl
  · exact joins.elim

theorem JoinsNull.result {a : Operation} (joins : a.JoinsNull) :
    a.result = .error .unsupported := by
  unfold JoinsNull at joins
  split at joins
  · next v w =>
    obtain ⟨null, left, right⟩ := joins
    rcases null with rfl | rfl
    · simp [Operation.result, BinOp.eval, left, right, Literal.number?]
    · simp [Operation.result, BinOp.eval, left, right, Literal.number?]
  · exact joins.elim

end Operation

/-- Two kinds that `+` accepts for the sake of a string have values that it cannot join only if one
of them is null. -/
theorem BinOp.add_unsupported {k₁ k₂ : Kind} {v w : Literal} (left : k₁.May v) (right : k₂.May w)
    (string : k₁ = .string ∨ k₂ = .string)
    (fails : (BinOp.arith .add).eval v w = .error .unsupported) :
    (Operation.bin (.arith .add) v w).JoinsNull := by
  have none : ¬(v.isString = true ∨ w.isString = true) := by
    intro some
    simp [eval, some] at fails
  obtain ⟨notLeft, notRight⟩ := not_or.mp none
  refine ⟨?_, Bool.not_eq_true _ ▸ notLeft, Bool.not_eq_true _ ▸ notRight⟩
  rcases string with rfl | rfl
  · rcases left.string with ⟨s, rfl⟩ | rfl
    · exact absurd rfl notLeft
    · exact .inl rfl
  · rcases right.string with ⟨s, rfl⟩ | rfl
    · exact absurd rfl notRight
    · exact .inr rfl

theorem Kind.May.boolean {v : Literal} (may : Kind.boolean.May v) : ∃ b, v = .bool b := by
  have admitted := may nofun
  cases v <;> cases admitted
  exact ⟨_, rfl⟩

/-- Where the kinds of the operands are accepted, nothing but a null string stands in the way. -/
theorem BinOp.joinsNull_of_unsupported {op : BinOp} {k₁ k₂ j : Kind} {v w : Literal}
    (left : k₁.May v) (right : k₂.May w) (result : op.resultKind k₁ k₂ = some j)
    (fails : op.eval v w = .error .unsupported) : (Operation.bin op v w).JoinsNull := by
  cases op with
  | arith o =>
    unfold resultKind at result
    dsimp only at result
    split at result
    · next joins =>
      obtain ⟨rfl, string⟩ := joins
      exact add_unsupported left right string fails
    · obtain ⟨a, b, numberA, numberB, _⟩ := Kind.join?_numbers result left right
      rw [eval_numbers numberA numberB] at fails
      exact absurd fails (o.eval_supported _)
  | compare o =>
    obtain ⟨_, join, _⟩ := Option.map_eq_some_iff.mp result
    obtain ⟨a, b, numberA, numberB, _⟩ := Kind.join?_numbers join left right
    simp [eval, numberA, numberB] at fails
  | equal => cases fails
  | notEqual => cases fails
  | and =>
    unfold resultKind at result
    dsimp only at result
    split at result
    · next booleans =>
      obtain ⟨rfl, rfl⟩ := booleans
      obtain ⟨a, rfl⟩ := left.boolean
      obtain ⟨b, rfl⟩ := right.boolean
      cases fails
    · cases result
  | or =>
    unfold resultKind at result
    dsimp only at result
    split at result
    · next booleans =>
      obtain ⟨rfl, rfl⟩ := booleans
      obtain ⟨a, rfl⟩ := left.boolean
      obtain ⟨b, rfl⟩ := right.boolean
      cases fails
    · cases result

/-! ### Where a run applies its operators -/

namespace Plan

section
variable (p : Plan)

/-- An evaluation gets to apply an operator, after its operands. -/
inductive Performs : Config → Operation → Prop
  | unary {n : Nat} {s s' : Machine} {m : Mark} {op : UnaryOp} {e : Expr Mark} {v : Literal}
      (kept : p.folds.find? m.id = none) (operand : p.evalExpr (p.call n) e s = (.ok v, s')) :
    Performs ⟨n, .expr (.unary m op e), s⟩ (.unary op v)
  | bin {n : Nat} {s s' s'' : Machine} {m : Mark} {op : BinOp} {a b : Expr Mark} {v w : Literal}
      (kept : p.folds.find? m.id = none) (left : p.evalExpr (p.call n) a s = (.ok v, s'))
      (both : ¬op.Short v) (right : p.evalExpr (p.call n) b s' = (.ok w, s'')) :
    Performs ⟨n, .expr (.bin m op a b), s⟩ (.bin op v w)

/-- An operator without a result, applied inside an evaluation. -/
def Botches (symbol : String) (c : Config) : Prop :=
  ∃ c' a, Relation.ReflTransGen p.Enters c c' ∧ p.Performs c' a ∧
    a.result = .error .unsupported ∧ a.symbol = symbol

end

variable {p : Plan} {c : Config} {symbol : String}

theorem Performs.raises {a : Operation} (performs : p.Performs c a)
    (unsupported : a.result = .error .unsupported) : p.Raises c (.invalidOperands a.symbol) := by
  have applied (s : Machine) :
      (Eval.apply a.symbol a.result).failure? s = some (.invalidOperands a.symbol) :=
    Eval.failure?_apply.mpr (.inr ⟨unsupported, rfl⟩)
  cases performs with
  | unary kept operand => exact .unary kept operand (applied _)
  | bin kept left both right => exact .bin kept left both right (applied _)

/-- Names, patterns, calls and witnesses fail for other reasons. -/
theorem Raises.performs (raises : p.Raises c (.invalidOperands symbol)) :
    ∃ a, p.Performs c a ∧ a.result = .error .unsupported ∧ a.symbol = symbol := by
  cases raises with
  | read kept fails =>
    obtain ⟨_, other⟩ | ⟨_, other⟩ := read_failure fails <;> cases other
  | unary kept operand fails =>
    rcases Eval.failure?_apply.mp fails with ⟨_, ⟨⟩⟩ | ⟨unsupported, ⟨⟩⟩
    exact ⟨_, .unary kept operand, unsupported, rfl⟩
  | bin kept left both right fails =>
    rcases Eval.failure?_apply.mp fails with ⟨_, ⟨⟩⟩ | ⟨unsupported, ⟨⟩⟩
    exact ⟨_, .bin kept left both right, unsupported, rfl⟩
  | assign kept first fails =>
    obtain ⟨_, other⟩ | ⟨_, other⟩ := write_failure fails <;> cases other
  | pattern fails =>
    obtain ⟨_, _, _, _, other⟩ | ⟨_, other⟩ := matchesPat_failure fails <;> cases other

/-- A run fails at an operator exactly if it gets to one without a result. -/
theorem outcome_invalidOperands (p : Plan) (symbol : String) :
    p.outcome.error = some (.invalidOperands symbol) ↔ p.Botches symbol p.begin := by
  rw [p.outcome_error_iff]
  constructor
  · rintro ⟨c, inside, raises⟩
    obtain ⟨a, performs, unsupported, symbol⟩ := raises.performs
    exact ⟨c, a, inside, performs, unsupported, symbol⟩
  · rintro ⟨c, a, inside, performs, unsupported, rfl⟩
    exact ⟨c, inside, performs.raises unsupported⟩

end Plan

/-! ### Runs of checked drafts -/

/-- The types of the operands leave one way for an operator to have no result. -/
theorem Ready.joinsNull {q : Plan} {F : Checker} {P : Table NodeId Purity} {c : Config}
    {a : Operation} (ready : Ready q F P) (fine : c.Fine q F) (performs : q.Performs c a)
    (unsupported : a.result = .error .unsupported) : a.JoinsNull := by
  obtain ⟨typed, fit⟩ := fine
  cases performs with
  | @unary n s _ m op e v kept operand =>
    obtain ⟨inside, _, _, t, k, j, inner, kind, result, _⟩ := typed
    have keeps := ready.evalExpr (ready.bodies n) e (Answers.below_left inside) inner s fit
    rw [operand] at keeps
    obtain ⟨w, value, _⟩ := UnaryOp.eval_ok (kind.may (keeps.2 v rfl).1) result
    cases unsupported.symm.trans value
  | @bin n s s' _ m op a b v w kept left both right =>
    obtain ⟨inside, _, _, t₁, t₂, k₁, k₂, j, typed₁, typed₂, kind₁, kind₂, result, _⟩ := typed
    have inside := Answers.below_left inside
    have first := ready.evalExpr (ready.bodies n) a (Answers.below_left inside) typed₁ s fit
    rw [left] at first
    have second := ready.evalExpr (ready.bodies n) b (Answers.below_right inside) typed₂ s' first.1
    rw [right] at second
    exact BinOp.joinsNull_of_unsupported (kind₁.may (first.2 v rfl).1)
      (kind₂.may (second.2 w rfl).1) result unsupported

/-- In every run of a draft that was checked without an error, an operator that is applied has a
result, or fails to divide by zero, unless it joins null to what is no string. A run fails at the
operands of an operator exactly if it gets to such a join. -/
theorem run_supports_operators (d : Draft) (o : Options) (q : Checked) (plan : Plan)
    (passes : d.Passes o q) (plans : q.Plans plan) :
    (∀ c a, plan.Reached c → plan.Performs c a →
      (a.result = .error .unsupported ↔ a.JoinsNull)) ∧
    ∀ symbol, plan.outcome.error = some (.invalidOperands symbol) ↔
      symbol = "+" ∧ ∃ c a, plan.Reached c ∧ plan.Performs c a ∧ a.JoinsNull := by
  obtain ⟨_, ready⟩ := plans.ready passes
  have precise : ∀ c a, plan.Reached c → plan.Performs c a →
      (a.result = .error .unsupported ↔ a.JoinsNull) := fun c a reached performs =>
    ⟨ready.joinsNull (ready.reached reached) performs, Operation.JoinsNull.result⟩
  refine ⟨precise, fun symbol => ?_⟩
  rw [plan.outcome_invalidOperands]
  constructor
  · rintro ⟨c, a, reached, performs, unsupported, rfl⟩
    have joins := (precise c a reached performs).mp unsupported
    exact ⟨joins.symbol, c, a, reached, performs, joins⟩
  · rintro ⟨rfl, c, a, reached, performs, joins⟩
    exact ⟨c, a, reached, performs, joins.result, joins.symbol⟩

/-- A draft that joins a null string to a value. -/
def Draft.nullJoined (v : Literal) : Draft where
  text := "val s: String = null println(s + " ++ v.source ++ ")"
  stmts :=
    [.val ⟨[], .val, ⟨[], "s"⟩, some (.refer [] ⟨[], "String"⟩), .lit ⟨[], .null⟩⟩,
      .expr [] (.call [] ⟨[], "println"⟩
        [.bin [] (.arith .add) (.name ⟨[], "s"⟩) (.lit ⟨[], v⟩)])]

/-- To a string it can be joined, so no join of the run fails. -/
theorem run_supports_operators_string : ∃ q plan, (Draft.nullJoined (.str "x")).Passes default q ∧
    q.Plans plan ∧ plan.outcome.output = ["nullx"] ∧
    ¬∃ c a, plan.Reached c ∧ plan.Performs c a ∧ a.JoinsNull := by
  obtain ⟨q, plan, passes, plans, found⟩ := Draft.plan?_any (.nullJoined (.str "x")) default
    (fun (_, plan) => plan.outcome.output == ["nullx"] && plan.outcome.error.isNone)
    (by decide +kernel)
  simp only [Bool.and_eq_true, beq_iff_eq, Option.isNone_iff_eq_none] at found
  refine ⟨q, plan, passes, plans, found.1, fun joins => ?_⟩
  have fails := ((run_supports_operators _ default q plan passes plans).2 "+").mpr ⟨rfl, joins⟩
  cases found.2.symm.trans fails

/-- To a number it cannot, though the checker takes the sum for a string. -/
theorem null_joined_to_number : ∃ q plan, (Draft.nullJoined (.int 1)).Passes default q ∧
    q.Plans plan ∧ plan.outcome.error = some (.invalidOperands "+") := by
  obtain ⟨q, plan, passes, plans, found⟩ := Draft.plan?_any (.nullJoined (.int 1)) default
    (fun (_, plan) => plan.outcome.error == some (.invalidOperands "+")) (by decide +kernel)
  exact ⟨q, plan, passes, plans, eq_of_beq found⟩

end Solo

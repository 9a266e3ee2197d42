import Solo.Proofs.Operators

/-!
# The table of operators

Which kinds an operator accepts is decided twice: on the kinds alone before a program runs, and on
the values when it does. Here the two are the same. What the table refuses fails as unsupported;
what it promises comes out, unless a whole number is divided by zero.
-/

namespace Solo

def Kind.isWhole : Kind → Bool
  | int | char | long => true
  | _ => false

/-! ### Ranks -/

theorem Literal.rank?_kind (v : Literal) : v.kind.rank? = v.number?.map Number.rank := by
  cases v <;> rfl

theorem Literal.isWhole_kind {v : Literal} {a : Number} (number : v.number? = some a)
    (small : a.rank < 2) : v.kind.isWhole = true := by
  cases v with
  | double v =>
    cases number
    exact absurd small (Nat.lt_irrefl 2)
  | int | char | long => rfl
  | _ => cases number

theorem Literal.kind_eq_string {v : Literal} : v.kind = .string ↔ v.isString = true := by
  cases v <;> simp [kind, isString]

/-- Kinds meet where the values have numbers, and at the kind that these are promoted to. -/
theorem Kind.join?_eq_none {l r : Literal} :
    l.kind.join? r.kind = none ↔ l.number? = none ∨ r.number? = none := by
  rw [join?, Literal.rank?_kind, Literal.rank?_kind]
  cases l.number? <;> cases r.number? <;> simp

theorem Kind.join?_eq_some {l r : Literal} {a b : Number} (left : l.number? = some a)
    (right : r.number? = some b) :
    l.kind.join? r.kind = some (.ofRank (promote a b).rank) := by
  rw [join?, Literal.rank?_kind, Literal.rank?_kind, left, right, promote_rank]
  rfl

theorem ArithOp.eval_divisionByZero {op : ArithOp} {pair : NumberPair}
    (fails : op.eval pair = .error .divisionByZero) :
    BinOp.divides (.arith op) = true ∧ pair.rank < 2 := by
  cases pair with
  | ints a b => exact ⟨(evalInt_divisionByZero (Except.error_of_map fails)).1, Nat.zero_lt_two⟩
  | longs a b => exact ⟨(evalLong_divisionByZero (Except.error_of_map fails)).1, Nat.one_lt_two⟩
  | doubles a b => cases fails

/-! ### What an entry says -/

/-- An entry of the table agrees with a result, where `fails` says when there may be none. -/
inductive TableEntry (fails : Prop) : Option Kind → Except OpError Literal → Prop where
  | refused : TableEntry fails none (.error .unsupported)
  | value (v : Literal) : TableEntry fails (some v.kind) (.ok v)
  | division (k : Kind) (zero : fails) : TableEntry fails (some k) (.error .divisionByZero)

namespace TableEntry

variable {fails : Prop} {kind : Option Kind} {result : Except OpError Literal}

theorem none_iff (entry : TableEntry fails kind result) :
    kind = none ↔ result = .error .unsupported := by
  cases entry <;> simp

theorem of_some {k : Kind} (entry : TableEntry fails kind result) (promised : kind = some k) :
    (∃ v, result = .ok v ∧ v.kind = k) ∨ (result = .error .divisionByZero ∧ fails) := by
  cases entry with
  | refused => cases promised
  | value v => exact .inl ⟨v, rfl, Option.some.inj promised⟩
  | division k zero => exact .inr ⟨rfl, zero⟩

theorem ok {k : Kind} {v : Literal} (promised : kind = some k) (value : result = .ok v)
    (same : v.kind = k) : TableEntry fails kind result := by
  subst promised value same
  exact .value v

theorem error (absent : kind = none) (unsupported : result = .error .unsupported) :
    TableEntry fails kind result := by
  subst absent unsupported
  exact .refused

end TableEntry

/-! ### The operators -/

/-- An operator that can divide by zero, on whole numbers. -/
def BinOp.MayFail (op : BinOp) (l r : Literal) : Prop :=
  op.divides = true ∧ l.kind.isWhole = true ∧ r.kind.isWhole = true

section
variable {l r : Literal}

theorem BinOp.arith_no_numbers {op : ArithOp} (none : l.number? = none ∨ r.number? = none)
    (joins : ¬(op = .add ∧ (l.isString ∨ r.isString))) :
    (BinOp.arith op).eval l r = .error .unsupported := by
  rw [eval, if_neg joins]
  rcases none with none | none <;> rw [none]
  cases l.number? <;> rfl

theorem BinOp.compare_no_numbers {op : CompareOp} (none : l.number? = none ∨ r.number? = none) :
    (BinOp.compare op).eval l r = .error .unsupported := by
  rw [eval]
  rcases none with none | none <;> rw [none]
  cases l.number? <;> rfl

theorem BinOp.arith_entry (op : ArithOp) :
    TableEntry ((BinOp.arith op).MayFail l r) ((BinOp.arith op).resultKind l.kind r.kind)
      ((BinOp.arith op).eval l r) := by
  by_cases joins : op = .add ∧ (l.isString ∨ r.isString)
  · refine .ok (v := .str (l.display ++ r.display)) ?_ ?_ rfl
    · exact if_pos (by simpa only [Literal.kind_eq_string] using joins)
    · rw [eval, if_pos joins]
  · have table : (BinOp.arith op).resultKind l.kind r.kind = l.kind.join? r.kind :=
      if_neg (by simpa only [Literal.kind_eq_string] using joins)
    rw [table]
    cases left : l.number? with
    | none =>
      exact .error (Kind.join?_eq_none.mpr (.inl left)) (arith_no_numbers (.inl left) joins)
    | some a =>
      cases right : r.number? with
      | none =>
        exact .error (Kind.join?_eq_none.mpr (.inr right)) (arith_no_numbers (.inr right) joins)
      | some b =>
        rw [Kind.join?_eq_some left right, eval_numbers left right]
        cases result : op.eval (promote a b) with
        | ok v => exact .ok rfl rfl (ArithOp.eval_kind result)
        | error e =>
          cases e with
          | unsupported => exact absurd result (op.eval_supported _)
          | divisionByZero =>
            obtain ⟨divides, small⟩ := ArithOp.eval_divisionByZero result
            rw [promote_rank] at small
            obtain ⟨smallA, smallB⟩ := Nat.max_lt.mp small
            exact .division _
              ⟨divides, Literal.isWhole_kind left smallA, Literal.isWhole_kind right smallB⟩

theorem BinOp.compare_entry {fails : Prop} (op : CompareOp) :
    TableEntry fails ((BinOp.compare op).resultKind l.kind r.kind)
      ((BinOp.compare op).eval l r) := by
  rw [resultKind]
  cases left : l.number? with
  | none =>
    refine .error ?_ (compare_no_numbers (.inl left))
    rw [Kind.join?_eq_none.mpr (.inl left)]
    rfl
  | some a =>
    cases right : r.number? with
    | none =>
      refine .error ?_ (compare_no_numbers (.inr right))
      rw [Kind.join?_eq_none.mpr (.inr right)]
      rfl
    | some b =>
      rw [Kind.join?_eq_some left right, eval, left, right]
      exact .value (.bool _)

/-- `&&` and `||` accept two truth values, and equality accepts everything. -/
theorem BinOp.logic_entry {fails : Prop} {op : BinOp}
    (logic : op ∈ [BinOp.equal, .notEqual, .and, .or]) :
    TableEntry fails (op.resultKind l.kind r.kind) (op.eval l r) := by
  simp only [List.mem_cons, List.not_mem_nil, or_false] at logic
  rcases logic with rfl | rfl | rfl | rfl
  · exact .value (.bool _)
  · exact .value (.bool _)
  · cases l <;> cases r <;> first | exact .refused | exact .value (.bool _)
  · cases l <;> cases r <;> first | exact .refused | exact .value (.bool _)

end

theorem BinOp.entry (op : BinOp) (l r : Literal) :
    TableEntry (op.MayFail l r) (op.resultKind l.kind r.kind) (op.eval l r) := by
  cases op with
  | arith op => exact arith_entry op
  | compare op => exact compare_entry op
  | equal | notEqual | and | or => exact logic_entry (by decide)

theorem UnaryOp.entry (op : UnaryOp) (v : Literal) :
    TableEntry False (op.resultKind v.kind) (op.eval v) := by
  cases op <;> cases v <;> first | exact .refused | exact .ok rfl rfl rfl

/-- The table refuses two kinds if and only if the operator does not support their values. A kind
that it promises is that of the result; only a division of whole numbers has none, by zero. -/
theorem resultKind_eq_eval :
    (∀ (op : BinOp) (l r : Literal),
      (op.resultKind l.kind r.kind = none ↔ op.eval l r = .error .unsupported) ∧
      ∀ k, op.resultKind l.kind r.kind = some k →
        (∃ v, op.eval l r = .ok v ∧ v.kind = k) ∨
          (op.eval l r = .error .divisionByZero ∧ op.divides = true ∧ l.kind.isWhole = true ∧
            r.kind.isWhole = true)) ∧
    ∀ (op : UnaryOp) (v : Literal),
      (op.resultKind v.kind = none ↔ op.eval v = .error .unsupported) ∧
      ∀ k, op.resultKind v.kind = some k → ∃ w, op.eval v = .ok w ∧ w.kind = k := by
  refine ⟨fun op l r =>
      ⟨(op.entry l r).none_iff, fun k promised => (op.entry l r).of_some promised⟩,
    fun op v => ⟨(op.entry v).none_iff, fun k promised => ?_⟩⟩
  exact ((op.entry v).of_some promised).resolve_right fun fails => fails.2

/-- A character divided by the character zero: the table promises a whole number, and there is
none. -/
theorem resultKind_eq_eval_zero :
    (BinOp.arith .div).resultKind (Literal.char 'a').kind (Literal.char '\x00').kind = some .int ∧
    ((∃ v, (BinOp.arith .div).eval (.char 'a') (.char '\x00') = .ok v ∧ v.kind = .int) ∨
      ((BinOp.arith .div).eval (.char 'a') (.char '\x00') = .error .divisionByZero ∧
        (BinOp.arith .div).divides = true ∧ (Literal.char 'a').kind.isWhole = true ∧
          (Literal.char '\x00').kind.isWhole = true)) ∧
    UnaryOp.minus.resultKind (Literal.char 'a').kind = some .int ∧
    ∃ w, UnaryOp.minus.eval (.char 'a') = .ok w ∧ w.kind = .int :=
  ⟨rfl, (resultKind_eq_eval.1 (.arith .div) (.char 'a') (.char '\x00')).2 .int rfl, rfl,
    (resultKind_eq_eval.2 .minus (.char 'a')).2 .int rfl⟩

end Solo

import Solo.Operator

/-!
# Operators and kinds

An operator that accepts the kinds of its operands gives a value of the kind it promises, and it
fails only on a zero to divide by or on strings that are null.
-/

namespace Solo

namespace Kind

/-- Whether a kind has a value. A string may be null. -/
def admits : Kind → Literal → Bool
  | any, _ => true
  | nothing, _ => false
  | error, _ => false
  | string, .null => true
  | k, v => v.kind == k

theorem admits_kind (v : Literal) : v.kind.admits v = true := by
  cases v <;> rfl

theorem admits_of_isSubkind {j k : Kind} {v : Literal} (sub : j.isSubkind k = true)
    (first : j ≠ .error) (second : k ≠ .error) (admitted : j.admits v = true) :
    k.admits v = true := by
  simp only [isSubkind, Bool.or_eq_true, Bool.and_eq_true, beq_iff_eq] at sub
  rcases sub with ((((rfl | rfl) | rfl) | ⟨rfl, rfl⟩) | rfl) | rfl
  · exact admitted
  · rfl
  · cases admitted
  · cases v <;> simp_all [admits, Literal.kind]
  · exact absurd rfl first
  · exact absurd rfl second

end Kind

theorem UnaryOp.resultKind_ne_error {op : UnaryOp} {k j : Kind} (result : op.resultKind k = some j) :
    j ≠ .error := by
  cases op <;> cases k <;> simp_all [resultKind, Kind.rank?, Kind.ofRank] <;> (subst result; nofun)

theorem Kind.join?_ne_error {k₁ k₂ j : Kind} (result : k₁.join? k₂ = some j) : j ≠ .error := by
  unfold join? at result
  split at result
  · cases result
    unfold ofRank
    split <;> nofun
  · cases result

theorem BinOp.resultKind_ne_error {op : BinOp} {k₁ k₂ j : Kind}
    (result : op.resultKind k₁ k₂ = some j) : j ≠ .error := by
  unfold resultKind at result
  split at result
  · split at result
    · cases result
      nofun
    · exact Kind.join?_ne_error result
  · obtain ⟨_, _, rfl⟩ := Option.map_eq_some_iff.mp result
    nofun
  · cases result
    nofun
  · cases result
    nofun
  · split at result <;> cases result
    nofun
  · split at result <;> cases result
    nofun


/-! ### Numbers -/

/-- The place of a number's kind in the order of promotion. -/
def Number.rank : Number → Nat
  | .int _ => 0
  | .long _ => 1
  | .double _ => 2

def NumberPair.rank : NumberPair → Nat
  | .ints _ _ => 0
  | .longs _ _ => 1
  | .doubles _ _ => 2

theorem promote_rank (a b : Number) : (promote a b).rank = max a.rank b.rank := by
  cases a <;> cases b <;> rfl

theorem Kind.number_of_rank {k : Kind} {i : Nat} {v : Literal} (rank : k.rank? = some i)
    (admitted : k.admits v = true) : ∃ a, v.number? = some a ∧ a.rank = i := by
  cases k <;> cases rank <;> cases v <;> cases admitted <;> exact ⟨_, rfl, rfl⟩

theorem ArithOp.eval_kind {op : ArithOp} {pair : NumberPair} {w : Literal}
    (value : op.eval pair = .ok w) : w.kind = Kind.ofRank pair.rank := by
  cases pair with
  | ints a b =>
    change (op.evalInt a b).map _ = _ at value
    cases result : op.evalInt a b <;> rw [result] at value <;> cases value
    rfl
  | longs a b =>
    change (op.evalLong a b).map _ = _ at value
    cases result : op.evalLong a b <;> rw [result] at value <;> cases value
    rfl
  | doubles a b =>
    cases value
    rfl

/-- There is no operator that two numbers do not support. -/
theorem ArithOp.eval_supported (op : ArithOp) (pair : NumberPair) :
    op.eval pair ≠ .error .unsupported := by
  cases pair with
  | ints a b =>
    cases op with
    | div | rem =>
      simp only [eval, evalInt]
      split <;> rintro ⟨⟩
    | _ => rintro ⟨⟩
  | longs a b =>
    cases op with
    | div | rem =>
      simp only [eval, evalLong]
      split <;> rintro ⟨⟩
    | _ => rintro ⟨⟩
  | doubles a b => rintro ⟨⟩

/-! ### Results -/

/-- A value of a kind, unless nothing is known of the kind. -/
def Kind.May (k : Kind) (v : Literal) : Prop := k ≠ .error → k.admits v = true

theorem Kind.May.number {k : Kind} {i : Nat} {v : Literal} (may : k.May v)
    (rank : k.rank? = some i) : ∃ a, v.number? = some a ∧ a.rank = i := by
  refine number_of_rank rank (may ?_)
  rintro rfl
  cases rank

theorem UnaryOp.minus_number {v : Literal} {a : Number} (number : v.number? = some a) :
    ∃ w, UnaryOp.minus.eval v = .ok w ∧ w.kind = Kind.ofRank a.rank := by
  cases v <;> cases number <;> exact ⟨_, rfl, rfl⟩

/-- A unary operator has a result on every value of a kind that it accepts. -/
theorem UnaryOp.eval_ok {op : UnaryOp} {k j : Kind} {v : Literal} (may : k.May v)
    (result : op.resultKind k = some j) : ∃ w, op.eval v = .ok w ∧ j.admits w = true := by
  cases op with
  | minus =>
    obtain ⟨i, rank, rfl⟩ := Option.map_eq_some_iff.mp result
    obtain ⟨a, number, rfl⟩ := may.number rank
    obtain ⟨w, value, kind⟩ := minus_number number
    exact ⟨w, value, kind ▸ Kind.admits_kind w⟩
  | not =>
    unfold resultKind at result
    dsimp only at result
    split at result
    · next isBool =>
      subst isBool
      cases result
      have admitted := may nofun
      cases v <;> cases admitted
      exact ⟨_, rfl, rfl⟩
    · cases result

theorem Kind.join?_numbers {k₁ k₂ j : Kind} {v w : Literal} (join : k₁.join? k₂ = some j)
    (left : k₁.May v) (right : k₂.May w) :
    ∃ a b, v.number? = some a ∧ w.number? = some b ∧ j = .ofRank (promote a b).rank := by
  unfold join? at join
  split at join
  · next i₁ i₂ rank₁ rank₂ =>
    cases join
    obtain ⟨a, numberA, rfl⟩ := left.number rank₁
    obtain ⟨b, numberB, rfl⟩ := right.number rank₂
    exact ⟨a, b, numberA, numberB, by rw [promote_rank]⟩
  · cases join

theorem Literal.isString_of_number {v : Literal} {a : Number} (number : v.number? = some a) :
    v.isString = false := by
  cases v <;> first | rfl | cases number

theorem BinOp.eval_numbers {op : ArithOp} {v w : Literal} {a b : Number}
    (left : v.number? = some a) (right : w.number? = some b) :
    (BinOp.arith op).eval v w = op.eval (promote a b) := by
  simp [BinOp.eval, Literal.isString_of_number left, Literal.isString_of_number right, left, right]

theorem Kind.May.string {v : Literal} (may : Kind.string.May v) : (∃ s, v = .str s) ∨ v = .null := by
  have admitted := may nofun
  cases v with
  | str s => exact .inl ⟨s, rfl⟩
  | null => exact .inr rfl
  | _ => cases admitted

/-- A result of joining a string with something is a string. -/
theorem BinOp.add_string {k₁ k₂ : Kind} {v w u : Literal} (left : k₁.May v) (right : k₂.May w)
    (string : k₁ = .string ∨ k₂ = .string)
    (value : (BinOp.arith .add).eval v w = .ok u) : ∃ s, u = .str s := by
  unfold eval at value
  dsimp only at value
  split at value
  · cases value
    exact ⟨_, rfl⟩
  · next notString =>
    split at value
    · next a b numberA numberB =>
      rcases string with rfl | rfl
      · rcases left.string with ⟨s, rfl⟩ | rfl <;> cases numberA
      · rcases right.string with ⟨s, rfl⟩ | rfl <;> cases numberB
    · cases value

theorem BinOp.eval_admits {op : BinOp} {k₁ k₂ j : Kind} {v w u : Literal} (left : k₁.May v)
    (right : k₂.May w) (result : op.resultKind k₁ k₂ = some j) (value : op.eval v w = .ok u) :
    j.admits u = true := by
  cases op with
  | arith o =>
    unfold resultKind at result
    dsimp only at result
    split at result
    · next joins =>
      cases result
      obtain ⟨rfl, string⟩ := joins
      obtain ⟨s, rfl⟩ := add_string left right string value
      rfl
    · obtain ⟨a, b, numberA, numberB, rfl⟩ := Kind.join?_numbers result left right
      rw [eval_numbers numberA numberB] at value
      exact ArithOp.eval_kind value ▸ Kind.admits_kind u
  | compare o =>
    obtain ⟨_, _, rfl⟩ := Option.map_eq_some_iff.mp result
    unfold eval at value
    dsimp only at value
    split at value <;> cases value
    rfl
  | equal =>
    cases result
    cases value
    rfl
  | notEqual =>
    cases result
    cases value
    rfl
  | and =>
    unfold resultKind at result
    dsimp only at result
    split at result <;> cases result
    unfold eval at value
    dsimp only at value
    split at value <;> cases value
    rfl
  | or =>
    unfold resultKind at result
    dsimp only at result
    split at result <;> cases result
    unfold eval at value
    dsimp only at value
    split at value <;> cases value
    rfl

/-- An operator whose first operand decides. -/
def BinOp.Short (op : BinOp) (v : Literal) : Prop :=
  (op = .and ∧ v = .bool false) ∨ (op = .or ∧ v = .bool true)

/-- Where the first operand decides, the second one makes no difference. -/
theorem BinOp.eval_of_short {op : BinOp} {v w u : Literal} (short : op.Short v)
    (value : op.eval v w = .ok u) : u = v := by
  rcases short with ⟨rfl, rfl⟩ | ⟨rfl, rfl⟩ <;> cases w <;> cases value <;> rfl

theorem BinOp.admits_of_short {op : BinOp} {k₁ k₂ j : Kind} {v : Literal} (short : op.Short v)
    (result : op.resultKind k₁ k₂ = some j) : j.admits v = true := by
  rcases short with ⟨rfl, rfl⟩ | ⟨rfl, rfl⟩ <;> unfold resultKind at result <;>
    dsimp only at result <;> split at result <;> cases result <;> rfl

/-! ### Division -/

/-- The number of a character is zero for one character only. -/
theorem Literal.isZero_char {c : Char} (zero : Int32.ofNat c.toNat = 0) :
    (Literal.char c).isZero = true := by
  have small : c.toNat < 2 ^ 31 := by
    have valid : c.toNat < 0xd800 ∨ 0xdfff < c.toNat ∧ c.toNat < 0x110000 := c.valid
    omega
  have value := congrArg Int32.toInt zero
  rw [Int32.toInt_ofNat_of_lt small] at value
  have same : c = '\x00' := Char.toNat_inj.mp (Int.ofNat.inj value)
  subst same
  rfl

theorem Literal.isZero_of_int {w : Literal} {b : Int32} (number : w.number? = some (.int b))
    (zero : b = 0) : w.isZero = true := by
  cases w with
  | int b' =>
    cases number
    exact beq_iff_eq.mpr zero
  | char c =>
    cases number
    exact isZero_char zero
  | _ => cases number

theorem Literal.isZero_of_long {w : Literal} {b : Int64} (number : w.number? = some (.long b))
    (zero : b = 0) : w.isZero = true := by
  cases w with
  | long b' =>
    cases number
    exact beq_iff_eq.mpr zero
  | _ => cases number

theorem Int32.eq_zero_of_toInt64 {a : Int32} (zero : a.toInt64 = 0) : a = 0 := by
  have value := congrArg Int64.toInt zero
  rw [Int32.toInt_toInt64] at value
  exact Int32.toInt_inj.mp value

theorem ArithOp.evalInt_divisionByZero {op : ArithOp} {a b : Int32}
    (fails : op.evalInt a b = .error .divisionByZero) : BinOp.divides (.arith op) = true ∧ b = 0 := by
  cases op with
  | div | rem =>
    simp only [evalInt] at fails
    split at fails
    · next zero => exact ⟨rfl, zero⟩
    · cases fails
  | _ => cases fails

theorem ArithOp.evalLong_divisionByZero {op : ArithOp} {a b : Int64}
    (fails : op.evalLong a b = .error .divisionByZero) : BinOp.divides (.arith op) = true ∧ b = 0 := by
  cases op with
  | div | rem =>
    simp only [evalLong] at fails
    split at fails
    · next zero => exact ⟨rfl, zero⟩
    · cases fails
  | _ => cases fails

theorem Except.error_of_map {ε α β : Type} {f : α → β} {a : Except ε α} {e : ε}
    (fails : a.map f = .error e) : a = .error e := by
  cases a <;> cases fails
  rfl

/-- Only a division fails to divide, and only by zero. -/
theorem BinOp.divisionByZero {op : BinOp} {v w : Literal}
    (fails : op.eval v w = .error .divisionByZero) : op.divides = true ∧ w.isZero = true := by
  cases op with
  | arith o =>
    unfold eval at fails
    dsimp only at fails
    split at fails
    · cases fails
    · split at fails
      · next a b _ right =>
        cases a with
        | int a =>
          cases b with
          | int b =>
            obtain ⟨divides, zero⟩ := ArithOp.evalInt_divisionByZero (Except.error_of_map fails)
            exact ⟨divides, Literal.isZero_of_int right zero⟩
          | long b =>
            obtain ⟨divides, zero⟩ := ArithOp.evalLong_divisionByZero (Except.error_of_map fails)
            exact ⟨divides, Literal.isZero_of_long right zero⟩
          | double b => cases fails
        | long a =>
          cases b with
          | int b =>
            obtain ⟨divides, zero⟩ := ArithOp.evalLong_divisionByZero (Except.error_of_map fails)
            exact ⟨divides, Literal.isZero_of_int right (Int32.eq_zero_of_toInt64 zero)⟩
          | long b =>
            obtain ⟨divides, zero⟩ := ArithOp.evalLong_divisionByZero (Except.error_of_map fails)
            exact ⟨divides, Literal.isZero_of_long right zero⟩
          | double b => cases fails
        | double a => cases b <;> cases fails
      · cases fails
  | compare o =>
    unfold eval at fails
    dsimp only at fails
    split at fails <;> cases fails
  | equal | notEqual => cases fails
  | and | or => cases v <;> cases w <;> cases fails

end Solo

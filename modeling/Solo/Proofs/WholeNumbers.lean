import Solo.Proofs.Operators

/-!
# Whole numbers

Arithmetic on whole numbers is exact up to the width at which the operands meet: 64 bits if one of
them is a long and 32 otherwise. A division cuts off towards zero, so quotient and remainder give
the dividend back, also where the quotient wraps. Equality and the comparisons are those of the
numbers, at whatever width these come.
-/

namespace Solo

def Literal.whole? : Literal → Option Int
  | .int v => some v.toInt
  | .char c => some c.toNat
  | .long v => some v.toInt
  | _ => none

/-- The kind at which two values that stand for whole numbers meet. -/
def Literal.meet (l r : Literal) : Kind := if l.kind = .long ∨ r.kind = .long then .long else .int

/-- How many bits a whole number of a kind has. -/
def Kind.bits : Kind → Nat
  | .long => 64
  | _ => 32

/-- A whole number cut to the bits of a kind. -/
def Kind.wrap (k : Kind) (x : Int) : Int := x.bmod (Nat.pow 2 k.bits)

/-- The result without a bound on its size. -/
def ArithOp.exact : ArithOp → Int → Int → Int
  | add, x, y => x + y
  | sub, x, y => x - y
  | mul, x, y => x * y
  | div, x, y => x.tdiv y
  | rem, x, y => x.tmod y

def CompareOp.exact : CompareOp → Int → Int → Bool
  | lt, x, y => x < y
  | le, x, y => x ≤ y
  | gt, x, y => y < x
  | ge, x, y => y ≤ x

/-! ### Numbers at one width -/

namespace ArithOp

theorem evalInt_exact {op : ArithOp} {a b : Int32}
    (works : ¬(BinOp.divides (.arith op) = true ∧ b = 0)) :
    ∃ c, op.evalInt a b = .ok c ∧ c.toInt = Kind.int.wrap (op.exact a.toInt b.toInt) := by
  cases op with
  | add => exact ⟨a + b, rfl, Int32.toInt_add a b⟩
  | sub => exact ⟨a - b, rfl, Int32.toInt_sub a b⟩
  | mul => exact ⟨a * b, rfl, Int32.toInt_mul a b⟩
  | div =>
    rw [evalInt, if_neg fun zero => works ⟨rfl, zero⟩]
    exact ⟨a / b, rfl, Int32.toInt_div a b⟩
  | rem =>
    rw [evalInt, if_neg fun zero => works ⟨rfl, zero⟩]
    refine ⟨a % b, rfl, ?_⟩
    -- a remainder has the width of its dividend, so there is nothing to cut
    rw [exact, ← Int32.toInt_mod]
    exact (Int32.toInt_bmod _).symm

theorem evalLong_exact {op : ArithOp} {a b : Int64}
    (works : ¬(BinOp.divides (.arith op) = true ∧ b = 0)) :
    ∃ c, op.evalLong a b = .ok c ∧ c.toInt = Kind.long.wrap (op.exact a.toInt b.toInt) := by
  cases op with
  | add => exact ⟨a + b, rfl, Int64.toInt_add a b⟩
  | sub => exact ⟨a - b, rfl, Int64.toInt_sub a b⟩
  | mul => exact ⟨a * b, rfl, Int64.toInt_mul a b⟩
  | div =>
    rw [evalLong, if_neg fun zero => works ⟨rfl, zero⟩]
    exact ⟨a / b, rfl, Int64.toInt_div a b⟩
  | rem =>
    rw [evalLong, if_neg fun zero => works ⟨rfl, zero⟩]
    refine ⟨a % b, rfl, ?_⟩
    rw [exact, ← Int64.toInt_mod]
    exact (Int64.toInt_bmod _).symm

end ArithOp

/-- Two whole numbers that were brought to the width of a kind. -/
def NumberPair.Whole (k : Kind) (x y : Int) : NumberPair → Prop
  | .ints a b => k = .int ∧ a.toInt = x ∧ b.toInt = y
  | .longs a b => k = .long ∧ a.toInt = x ∧ b.toInt = y
  | .doubles _ _ => False

namespace NumberPair.Whole

variable {k : Kind} {x y : Int} {pair : NumberPair} (whole : pair.Whole k x y)
include whole

/-- An operator that does not divide by zero has the exact result at this width. -/
theorem eval {op : ArithOp} (works : ¬(BinOp.divides (.arith op) = true ∧ y = 0)) :
    ∃ v, op.eval pair = .ok v ∧ v.kind = k ∧ v.whole? = some (k.wrap (op.exact x y)) := by
  cases pair with
  | ints a b =>
    obtain ⟨rfl, rfl, rfl⟩ := whole
    obtain ⟨c, value, same⟩ := ArithOp.evalInt_exact (a := a) fun fails =>
      works ⟨fails.1, congrArg Int32.toInt fails.2⟩
    exact ⟨.int c, by rw [ArithOp.eval, value]; rfl, rfl, congrArg some same⟩
  | longs a b =>
    obtain ⟨rfl, rfl, rfl⟩ := whole
    obtain ⟨c, value, same⟩ := ArithOp.evalLong_exact (a := a) fun fails =>
      works ⟨fails.1, congrArg Int64.toInt fails.2⟩
    exact ⟨.long c, by rw [ArithOp.eval, value]; rfl, rfl, congrArg some same⟩
  | doubles => exact whole.elim

theorem eval_zero {op : ArithOp} (divides : BinOp.divides (.arith op) = true) (zero : y = 0) :
    op.eval pair = .error .divisionByZero := by
  cases pair with
  | ints a b =>
    obtain ⟨rfl, rfl, same⟩ := whole
    obtain rfl : b = 0 := Int32.toInt_inj.mp (same.trans zero)
    cases op with
    | div | rem =>
      rw [ArithOp.eval, ArithOp.evalInt, if_pos rfl]
      rfl
    | _ => cases divides
  | longs a b =>
    obtain ⟨rfl, rfl, same⟩ := whole
    obtain rfl : b = 0 := Int64.toInt_inj.mp (same.trans zero)
    cases op with
    | div | rem =>
      rw [ArithOp.eval, ArithOp.evalLong, if_pos rfl]
      rfl
    | _ => cases divides
  | doubles => exact whole.elim

theorem compare (op : CompareOp) : op.eval pair = op.exact x y := by
  cases pair with
  | ints a b =>
    obtain ⟨rfl, rfl, rfl⟩ := whole
    cases op <;>
      simp [CompareOp.eval, CompareOp.exact, Int32.lt_iff_toInt_lt, Int32.le_iff_toInt_le]
  | longs a b =>
    obtain ⟨rfl, rfl, rfl⟩ := whole
    cases op <;>
      simp [CompareOp.eval, CompareOp.exact, Int64.lt_iff_toInt_lt, Int64.le_iff_toInt_le]
  | doubles => exact whole.elim

theorem same : pair.same = (x == y) := by
  cases pair with
  | ints a b =>
    obtain ⟨rfl, rfl, rfl⟩ := whole
    rw [NumberPair.same, Bool.eq_iff_iff, beq_iff_eq, beq_iff_eq, Int32.toInt_inj]
  | longs a b =>
    obtain ⟨rfl, rfl, rfl⟩ := whole
    rw [NumberPair.same, Bool.eq_iff_iff, beq_iff_eq, beq_iff_eq, Int64.toInt_inj]
  | doubles => exact whole.elim

/-- A number that has the width already is not cut. -/
theorem wrap_left : k.wrap x = x := by
  cases pair with
  | ints a b =>
    obtain ⟨rfl, rfl, rfl⟩ := whole
    exact Int32.toInt_bmod a
  | longs a b =>
    obtain ⟨rfl, rfl, rfl⟩ := whole
    exact Int64.toInt_bmod a
  | doubles => exact whole.elim

/-- A remainder is no wider than its dividend. -/
theorem wrap_tmod : k.wrap (x.tmod y) = x.tmod y := by
  cases pair with
  | ints a b =>
    obtain ⟨rfl, rfl, rfl⟩ := whole
    rw [← Int32.toInt_mod]
    exact Int32.toInt_bmod _
  | longs a b =>
    obtain ⟨rfl, rfl, rfl⟩ := whole
    rw [← Int64.toInt_mod]
    exact Int64.toInt_bmod _
  | doubles => exact whole.elim

end NumberPair.Whole

/-- Cutting a quotient and its product with the divisor loses nothing of the dividend that the
last cut would keep. -/
theorem Kind.wrap_tdiv_tmod (k : Kind) (x y : Int) :
    k.wrap (k.wrap (k.wrap (x.tdiv y) * y) + x.tmod y) = k.wrap x := by
  rw [wrap, wrap, wrap, Int.bmod_mul_bmod, Int.bmod_add_bmod, Int.tdiv_mul_add_tmod, wrap]

/-! ### Values that stand for whole numbers -/

theorem Char.toInt_number (c : Char) : (Int32.ofNat c.toNat).toInt = c.toNat := by
  refine Int32.toInt_ofNat_of_lt ?_
  have valid : c.toNat < 0xd800 ∨ 0xdfff < c.toNat ∧ c.toNat < 0x110000 := c.valid
  omega

section
variable {l r : Literal} {x y : Int}

/-- Two values that stand for whole numbers are promoted to these. -/
theorem Literal.promote_whole (left : l.whole? = some x) (right : r.whole? = some y) :
    ∃ a b, l.number? = some a ∧ r.number? = some b ∧ (promote a b).Whole (l.meet r) x y := by
  cases l <;> cases left <;> cases r <;> cases right <;>
    refine ⟨_, _, rfl, rfl, rfl, ?_, ?_⟩ <;>
    simp only [Char.toInt_number, Int32.toInt_toInt64]

theorem Literal.isZero_iff (right : r.whole? = some y) : r.isZero = true ↔ y = 0 := by
  cases r with
  | int v =>
    cases right
    rw [isZero, beq_iff_eq]
    exact Int32.toInt_inj.symm
  | char c =>
    cases right
    rw [isZero, beq_iff_eq, Int.natCast_eq_zero]
    exact Char.toNat_inj.symm
  | long v =>
    cases right
    rw [isZero, beq_iff_eq]
    exact Int64.toInt_inj.symm
  | _ => cases right

/-- A value of the kind at which two others meet meets the second of them at that kind. -/
theorem Literal.meet_right {v : Literal} (kind : v.kind = l.meet r) : v.meet r = l.meet r := by
  unfold meet at kind ⊢
  by_cases long : l.kind = .long ∨ r.kind = .long
  · rw [if_pos long] at kind ⊢
    exact if_pos (.inl kind)
  · rw [if_neg long] at kind ⊢
    refine if_neg ?_
    rintro (first | second)
    · exact nomatch kind.symm.trans first
    · exact long (.inr second)

theorem Literal.meet_same {v w : Literal} (left : v.kind = l.meet r) (right : w.kind = l.meet r) :
    v.meet w = l.meet r := by
  simp only [meet, left, right, or_self]
  by_cases long : l.kind = .long ∨ r.kind = .long <;> simp [long]

/-! ### Exact results -/

theorem BinOp.eval_whole (op : ArithOp) (left : l.whole? = some x) (right : r.whole? = some y)
    (works : ¬(BinOp.divides (.arith op) = true ∧ y = 0)) :
    ∃ v, (BinOp.arith op).eval l r = .ok v ∧ v.kind = l.meet r ∧
      v.whole? = some ((l.meet r).wrap (op.exact x y)) := by
  obtain ⟨a, b, numberA, numberB, whole⟩ := Literal.promote_whole left right
  rw [eval_numbers numberA numberB]
  exact whole.eval works

theorem BinOp.divisionByZero_whole {op : ArithOp} (left : l.whole? = some x)
    (right : r.whole? = some y) (divides : BinOp.divides (.arith op) = true) :
    (BinOp.arith op).eval l r = .error .divisionByZero ↔ r.isZero = true := by
  constructor
  · exact fun fails => (BinOp.divisionByZero fails).2
  · intro zero
    obtain ⟨a, b, numberA, numberB, whole⟩ := Literal.promote_whole left right
    rw [eval_numbers numberA numberB]
    exact whole.eval_zero divides ((Literal.isZero_iff right).mp zero)

theorem Literal.sameValue_whole (left : l.whole? = some x) (right : r.whole? = some y) :
    l.sameValue r = (x == y) := by
  obtain ⟨a, b, numberA, numberB, whole⟩ := promote_whole left right
  rw [sameValue, numberA, numberB]
  exact whole.same

theorem BinOp.compare_whole (op : CompareOp) (left : l.whole? = some x)
    (right : r.whole? = some y) :
    (BinOp.compare op).eval l r = .ok (.bool (op.exact x y)) := by
  obtain ⟨a, b, numberA, numberB, whole⟩ := Literal.promote_whole left right
  rw [eval, numberA, numberB]
  exact congrArg (fun v => Except.ok (Literal.bool v)) (whole.compare op)

/-- Quotient times divisor plus remainder is the dividend again. -/
theorem BinOp.eval_division (left : l.whole? = some x) (right : r.whole? = some y)
    (nonzero : y ≠ 0) :
    ∃ q p m v, (BinOp.arith .div).eval l r = .ok q ∧ (BinOp.arith .mul).eval q r = .ok p ∧
      (BinOp.arith .rem).eval l r = .ok m ∧ (BinOp.arith .add).eval p m = .ok v ∧
      (q.kind = l.meet r ∧ q.whole? = some ((l.meet r).wrap (x.tdiv y))) ∧
      (m.kind = l.meet r ∧ m.whole? = some (x.tmod y)) ∧ v.sameValue l = true := by
  obtain ⟨_, _, _, _, whole⟩ := Literal.promote_whole left right
  obtain ⟨q, quotient, kindQ, wholeQ⟩ := eval_whole .div left right fun zero => nonzero zero.2
  obtain ⟨m, remainder, kindM, wholeM⟩ := eval_whole .rem left right fun zero => nonzero zero.2
  obtain ⟨p, product, kindP, wholeP⟩ := eval_whole .mul wholeQ right nofun
  rw [Literal.meet_right kindQ] at kindP wholeP
  obtain ⟨v, sum, -, wholeV⟩ := eval_whole .add wholeP wholeM nofun
  rw [Literal.meet_same kindP kindM] at wholeV
  rw [ArithOp.exact, whole.wrap_tmod] at wholeM
  have back : v.whole? = some x := by
    simp only [wholeV, ArithOp.exact]
    rw [whole.wrap_tmod, Kind.wrap_tdiv_tmod, whole.wrap_left]
  have same : v.sameValue l = true := by
    rw [Literal.sameValue_whole back left, beq_self_eq_true]
  exact ⟨q, p, m, v, quotient, product, remainder, sum, ⟨kindQ, wholeQ⟩, ⟨kindM, wholeM⟩, same⟩

/-- Sums, differences and products are exact up to the width at which the operands meet. A
division fails on zero only; its quotient is cut off towards zero, its remainder has the sign of the
dividend, and the two give the dividend back. Equality and comparisons are those of the numbers. -/
theorem BinOp.eval_exact (left : l.whole? = some x) (right : r.whole? = some y) :
    (∀ op, BinOp.divides (.arith op) = false →
      ∃ v, (BinOp.arith op).eval l r = .ok v ∧ v.kind = l.meet r ∧
        v.whole? = some ((l.meet r).wrap (op.exact x y))) ∧
    (∀ op, BinOp.divides (.arith op) = true →
      ((BinOp.arith op).eval l r = .error .divisionByZero ↔ r.isZero = true)) ∧
    (r.isZero = false →
      ∃ q p m v, (BinOp.arith .div).eval l r = .ok q ∧ (BinOp.arith .mul).eval q r = .ok p ∧
        (BinOp.arith .rem).eval l r = .ok m ∧ (BinOp.arith .add).eval p m = .ok v ∧
        (q.kind = l.meet r ∧ q.whole? = some ((l.meet r).wrap (x.tdiv y))) ∧
        (m.kind = l.meet r ∧ m.whole? = some (x.tmod y)) ∧ v.sameValue l = true) ∧
    (0 ≤ x → 0 ≤ x.tmod y) ∧ (x ≤ 0 → x.tmod y ≤ 0) ∧
    BinOp.equal.eval l r = .ok (.bool (x == y)) ∧
    BinOp.notEqual.eval l r = .ok (.bool (x != y)) ∧
    ∀ op, (BinOp.compare op).eval l r = .ok (.bool (op.exact x y)) := by
  refine ⟨fun op works => eval_whole op left right fun fails => ?_,
    fun op divides => divisionByZero_whole left right divides, fun nonzero => ?_,
    Int.tmod_nonneg y, fun negative => ?_, ?_, ?_, fun op => compare_whole op left right⟩
  · exact nomatch works.symm.trans fails.1
  · refine eval_division left right fun zero => ?_
    exact nomatch nonzero.symm.trans ((Literal.isZero_iff right).mpr zero)
  · have flipped := Int.tmod_nonneg y (Int.neg_nonneg_of_nonpos negative)
    rw [Int.neg_tmod] at flipped
    exact Int.nonpos_of_neg_nonneg flipped
  · rw [eval, Literal.sameValue_whole left right]
  · rw [eval, Literal.sameValue_whole left right]
    rfl

/-- The quotient of the least long by minus one wraps; the remainder is zero. -/
theorem BinOp.eval_exact_least :
    (Literal.long Int64.minValue).whole? = some (-9223372036854775808) ∧
    (Literal.int (-1)).whole? = some (-1) ∧
    ∃ q m, (BinOp.arith .div).eval (.long Int64.minValue) (.int (-1)) = .ok q ∧
      (BinOp.arith .rem).eval (.long Int64.minValue) (.int (-1)) = .ok m ∧
      q.whole? = some (-9223372036854775808) ∧ m.whole? = some 0 := by
  have left : (Literal.long Int64.minValue).whole? = some (-9223372036854775808) := by decide
  have right : (Literal.int (-1)).whole? = some (-1) := by decide
  obtain ⟨q, _, m, _, quotient, _, remainder, _, ⟨_, wholeQ⟩, ⟨_, wholeM⟩, _⟩ :=
    (BinOp.eval_exact left right).2.2.1 (by decide)
  exact ⟨left, right, q, m, quotient, remainder, wholeQ.trans (by decide),
    wholeM.trans (by decide)⟩

end

end Solo

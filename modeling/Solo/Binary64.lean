/-!
# Binary floating point numbers

A number of the 64-bit binary format, held as its bits, so that two are equal if and only if
their bits are. Sums, products and quotients round to nearest; the remainder is exact.
-/

namespace Solo

/-- The bits of a 64-bit binary floating point number. -/
structure Binary64 where
  bits : UInt64
deriving DecidableEq

namespace Binary64

def toFloat (x : Binary64) : Float := Float.ofBits x.bits

def ofFloat (f : Float) : Binary64 := ⟨f.toBits⟩

instance : Inhabited Binary64 := ⟨⟨0⟩⟩

/-- What the bits below the sign stand for. -/
inductive Magnitude where
  | nan
  | infinite
  /-- The number `m * 2 ^ q`. -/
  | finite (m : Nat) (q : Int)
deriving DecidableEq

def leastExponent : Int := -1074

def isNegative (x : Binary64) : Bool := x.bits.toNat / Nat.pow 2 63 == 1

def magnitude (x : Binary64) : Magnitude :=
  let field : Nat := x.bits.toNat / Nat.pow 2 52 % Nat.pow 2 11
  let fraction : Nat := x.bits.toNat % Nat.pow 2 52
  if field = 2047 then if fraction = 0 then .infinite else .nan
  else if field = 0 then .finite fraction leastExponent
  else .finite (Nat.pow 2 52 + fraction) ((field : Int) - 1075)

/-- The quiet number that is not a number. -/
def nan : Binary64 := ⟨0x7ff8000000000000⟩

/-- The number `m * 2 ^ q` with a sign, for `m` below `2 ^ 53` and `q` from `leastExponent` on. -/
def ofParts (negative : Bool) (m : Nat) (q : Int) : Binary64 :=
  let sign := if negative then Nat.pow 2 63 else 0
  if m = 0 then ⟨UInt64.ofNat sign⟩
  else
    let shift := min (52 - m.log2) (q - leastExponent).toNat
    let scaled := m * Nat.pow 2 shift
    let field := if scaled < Nat.pow 2 52 then 0 else (q - shift + 1075).toNat
    ⟨UInt64.ofNat (sign + field * Nat.pow 2 52 + scaled % Nat.pow 2 52)⟩

/-- What is left of `x` after taking `y` away as often as possible, with the sign of `x`. -/
def rem (x y : Binary64) : Binary64 :=
  match x.magnitude, y.magnitude with
  | .finite m p, .finite n q =>
    if n = 0 then nan
    else
      let low := min p q
      ofParts x.isNegative
        (m * Nat.pow 2 (p - low).toNat % (n * Nat.pow 2 (q - low).toNat)) low
  | .finite _ _, .infinite => x
  | _, _ => nan

def add (x y : Binary64) : Binary64 := ofFloat (x.toFloat + y.toFloat)

def sub (x y : Binary64) : Binary64 := ofFloat (x.toFloat - y.toFloat)

def mul (x y : Binary64) : Binary64 := ofFloat (x.toFloat * y.toFloat)

def div (x y : Binary64) : Binary64 := ofFloat (x.toFloat / y.toFloat)

/-- The same number with the other sign; of a NaN too only the sign changes. -/
def neg (x : Binary64) : Binary64 := ⟨x.bits ^^^ 0x8000000000000000⟩

/-- Equal as numbers: the two zeros are equal, and nothing equals a NaN. -/
def eqValue (x y : Binary64) : Bool := x.toFloat == y.toFloat

def ltValue (x y : Binary64) : Bool := x.toFloat < y.toFloat

def isZero (x : Binary64) : Bool := x.magnitude = .finite 0 leastExponent

end Binary64

end Solo

import Solo.Binary64
import Solo.Decimal

/-!
# The shortest text of a binary number

A number is written with the fewest decimal digits that read back as it, and of two such texts
with the nearer one. The reals that read back as `m * 2 ^ q` form an interval around it whose ends
belong to it if and only if `m` is even. Grids of decimals are tried from coarse to fine; on each,
only the two points next to the number need a test.
-/

namespace Solo.Binary64

/-- The neighbourhood of a positive number, in quarters of its last binary place. -/
structure Neighbourhood where
  low : Nat
  mid : Nat
  high : Nat
  /-- Whether the two ends read back as the number. -/
  closed : Bool

/-- Below a power of two the next number is only half as far away. -/
def neighbourhood (m : Nat) (q : Int) : Neighbourhood where
  low := 4 * m - if m = Nat.pow 2 52 ∧ leastExponent < q then 1 else 2
  mid := 4 * m
  high := 4 * m + 2
  closed := m % 2 == 0

/-- Whether `d` grid points, each `step` long, fall into a neighbourhood with places `unit` long. -/
def Neighbourhood.holds (h : Neighbourhood) (unit step d : Nat) : Bool :=
  if h.closed then h.low * unit ≤ d * step && d * step ≤ h.high * unit
  else h.low * unit < d * step && d * step < h.high * unit

/-- The grid point in the neighbourhood nearest to its middle; a tie goes up. -/
def Neighbourhood.nearest? (h : Neighbourhood) (unit step : Nat) : Option Nat :=
  let d := h.mid * unit / step
  match h.holds unit step d, h.holds unit step (d + 1) with
  | true, true => some (if 2 * (h.mid * unit % step) < step then d else d + 1)
  | true, false => some d
  | false, true => some (d + 1)
  | false, false => none

/-- The nearest point on the grid of `10 ^ e`, for a neighbourhood of `m * 2 ^ q`. -/
def gridPoint? (h : Neighbourhood) (q e : Int) : Option Nat :=
  h.nearest? (Nat.pow 2 (q - 2).toNat * Nat.pow 10 (-e).toNat)
    (Nat.pow 2 (2 - q).toNat * Nat.pow 10 e.toNat)

/-- Tries the grids of `10 ^ e`, `10 ^ (e - 1)` and so on. -/
def shortestFrom (h : Neighbourhood) (q : Int) : Nat → Int → Option Decimal
  | 0, _ => none
  | n + 1, e =>
    match gridPoint? h q e with
    | some d => some ⟨d, e⟩
    | none => shortestFrom h q n (e - 1)

/-- A power of ten above the number `m * 2 ^ q`. -/
def ceilingPower (m : Nat) (q : Int) : Int := (m.log2 + q) * 1233 / 4096 + 2

/-- The shortest decimal that reads back as the positive number `m * 2 ^ q`. Seventeen digits are
always enough, and the ceiling is at most four powers above the number. -/
def shortest (m : Nat) (q : Int) : Decimal :=
  (shortestFrom (neighbourhood m q) q 22 (ceilingPower m q)).getD ⟨m, 0⟩

/-- All places are written from `0.0001` up to below `10 ^ 16`, and a whole number ends in `.0`. -/
def layout : Decimal.Layout where
  least := -4
  most := 15
  mark := "e"
  wholeEnd := ".0"

def text (x : Binary64) : String :=
  let sign := if x.isNegative then "-" else ""
  match x.magnitude with
  | .nan => "NaN"
  | .infinite => sign ++ "inf"
  | .finite 0 _ => sign ++ "0.0"
  | .finite m q => sign ++ (shortest m q).text layout

end Solo.Binary64

/-!
# Decimals

A decimal is a whole number of units of a power of ten. A layout says when a decimal is written
with all its places and when with an exponent.
-/

namespace Solo

structure Decimal where
  digits : Nat
  exponent : Int
deriving DecidableEq, Repr

namespace Decimal

structure Layout where
  /-- The least power of ten of a leading digit that is written with all places. -/
  least : Int
  /-- The greatest power of ten of a leading digit that is written with all places. -/
  most : Int
  /-- Stands before the exponent. -/
  mark : String
  /-- What a whole number with all its places ends in. -/
  wholeEnd : String

/-- The power of ten of the leading digit, when `digits` has `n` digits. -/
def leading (d : Decimal) (n : Nat) : Int := d.exponent + n - 1

/-- Digits with all their places; the point stands after the first `point` digits. -/
def positional (l : Layout) (ds : List Char) (point : Int) : List Char :=
  if point ≤ 0 then '0' :: '.' :: List.replicate (-point).toNat '0' ++ ds
  else if point < ds.length then ds.take point.toNat ++ '.' :: ds.drop point.toNat
  else ds ++ List.replicate (point.toNat - ds.length) '0' ++ l.wholeEnd.toList

def scientific (l : Layout) (ds : List Char) (power : Int) : List Char :=
  ds.take 1 ++ (if ds.length ≤ 1 then [] else '.' :: ds.drop 1) ++ l.mark.toList
    ++ (toString power).toList

def text (l : Layout) (d : Decimal) : String :=
  let ds := Nat.toDigits 10 d.digits
  let power := d.leading ds.length
  String.ofList <|
    if l.least ≤ power ∧ power ≤ l.most then positional l ds (power + 1)
    else scientific l ds power

end Decimal

end Solo

import ApiFolio.Number.Binary64

/-!
# The shortest decimal of a double

A decimal reads back as a double when it lies in the interval of the reals that round to it. The
shortest decimal is the point of the coarsest decimal grid that has one in this interval; of two
such points the nearer to the number, of two equally near ones the even.
-/

namespace ApiFolio

/-- A positive decimal number `digits · 10 ^ exponent`. -/
structure Decimal where
  digits : Nat
  /-- The power of ten of the last digit. -/
  exponent : Int
deriving DecidableEq, Inhabited

namespace Binary64

/-- Four times the significand of the lower end of the rounding interval. -/
def lowerEnd (x : Binary64) : Nat :=
  if x.significand = exponentBit ∧ -1074 < x.exponent then 4 * x.significand - 1
  else 4 * x.significand - 2

/-- Four times the significand of the upper end of the rounding interval. -/
def upperEnd (x : Binary64) : Nat := 4 * x.significand + 2

/-- The point of the grid of multiples of `10 ^ p` that stands for the number, if one does. -/
def gridPoint? (x : Binary64) (p : Int) : Option Nat :=
  let q := x.exponent - 2
  let num := scaleUp q * Nat.pow 10 (-p).toNat
  let den := scaleDown q * Nat.pow 10 p.toNat
  let value := 4 * x.significand * num
  let inside (c : Nat) : Bool :=
    if x.significand % 2 = 0 then x.lowerEnd * num ≤ c * den ∧ c * den ≤ x.upperEnd * num
    else x.lowerEnd * num < c * den ∧ c * den < x.upperEnd * num
  let below := value / den
  let above := below + 1
  if inside below then
    if inside above then
      let down := value - below * den
      let up := above * den - value
      if down < up ∨ (down = up ∧ below % 2 = 0) then some below else some above
    else some below
  else if inside above then some above
  else none

/-- The first grid, from `10 ^ p` downwards, with a point for the number. -/
def coarsest (x : Binary64) : Nat → Int → Decimal
  | 0, p => ⟨4 * x.significand, p⟩
  | n + 1, p =>
    match gridPoint? x p with
    | some c => ⟨c, p⟩
    | none => coarsest x n (p - 1)

/-- A power of ten that is above the number, by at most three. -/
def decimalBound (x : Binary64) : Int :=
  (x.exponent + x.significand.log2) * 30103 / 100000 + 2

/-- The shortest decimal that reads back as the magnitude of a number that is not zero. -/
def shortest (x : Binary64) : Decimal := coarsest x 22 x.decimalBound

end Binary64

end ApiFolio

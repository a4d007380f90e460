/-!
# Double-precision numbers

A `Binary64` is the 64-bit pattern of a number: a sign, an exponent and a fraction. Its magnitude
is `significand · 2 ^ exponent`, exactly. Numbers are made from ratios by rounding to the nearest
pattern, a half to the even one, and products and quotients are the exact ones, rounded so.
-/

namespace ApiFolio

/-- A double-precision number by its bit pattern. -/
structure Binary64 where
  /-- The pattern: one bit of sign, eleven of exponent, fifty-two of fraction. -/
  bits : UInt64
deriving DecidableEq, Inhabited

namespace Binary64

/-- The pattern of positive infinity. -/
def infinityPattern : Nat := 0x7FF0000000000000

/-- The bit of the sign. -/
def signBit : Nat := 0x8000000000000000

/-- The lowest bit of the exponent; the fraction is below it. -/
def exponentBit : Nat := 0x10000000000000

/-- The bits below the sign. -/
def pattern (x : Binary64) : Nat := x.bits.toNat % signBit

def isNegative (x : Binary64) : Bool := signBit ≤ x.bits.toNat

def isZero (x : Binary64) : Bool := x.pattern == 0

def isFinite (x : Binary64) : Bool := x.pattern < infinityPattern

/-- The whole number that the exponent scales. -/
def significand (x : Binary64) : Nat :=
  if x.pattern / exponentBit = 0 then x.pattern % exponentBit
  else exponentBit + x.pattern % exponentBit

/-- The power of two that scales the significand. -/
def exponent (x : Binary64) : Int := max 1 (x.pattern / exponentBit : Nat) - 1075

/-- The number with a pattern below the sign and a sign. -/
def ofPattern (negative : Bool) (pattern : Nat) : Binary64 :=
  ⟨UInt64.ofNat (if negative then signBit + pattern else pattern)⟩

def negate (x : Binary64) : Binary64 := ofPattern (!x.isNegative) x.pattern

/-- The numerator of `2 ^ e`. -/
def scaleUp (e : Int) : Nat := Nat.pow 2 e.toNat

/-- The denominator of `2 ^ e`. -/
def scaleDown (e : Int) : Nat := Nat.pow 2 (-e).toNat

/-- The greatest power of two that is at most a positive ratio. -/
def floorLog2 (num den : Nat) : Int :=
  let k : Int := (num.log2 : Int) - (den.log2 : Int)
  if num * scaleDown k < den * scaleUp k then k - 1 else k

/-- The whole number nearest to a ratio, a half going to the even neighbour. -/
def roundRatio (num den : Nat) : Nat :=
  let low := num / den
  let rest := 2 * (num % den)
  if rest < den then low
  else if den < rest then low + 1
  else low + low % 2

/-- The pattern nearest to a ratio; a ratio too great for every finite one gives infinity. -/
def patternOfRatio (num den : Nat) : Nat :=
  if num = 0 then 0
  else
    let e := max (floorLog2 num den - 52) (-1074)
    let m := roundRatio (num * scaleDown e) (den * scaleUp e)
    min infinityPattern ((e + 1074).toNat * exponentBit + m)

/-- The number nearest to a ratio with a sign. -/
def ofRatio (negative : Bool) (num den : Nat) : Binary64 :=
  ofPattern negative (patternOfRatio num den)

/-- The number nearest to a natural number. -/
def ofNat (n : Nat) : Binary64 := ofRatio false n 1

/-- The product of two magnitudes, rounded. -/
def mulMagnitude (x y : Binary64) : Binary64 :=
  let e := x.exponent + y.exponent
  ofRatio false (x.significand * y.significand * scaleUp e) (scaleDown e)

/-- The quotient of two magnitudes, rounded; the divisor is not zero. -/
def divMagnitude (x y : Binary64) : Binary64 :=
  let e := x.exponent - y.exponent
  ofRatio false (x.significand * scaleUp e) (y.significand * scaleDown e)

/-- The number nearest to `digits · 10 ^ e` with a sign. -/
def ofDecimal (negative : Bool) (digits : Nat) (e : Int) : Binary64 :=
  ofRatio negative (digits * Nat.pow 10 e.toNat) (Nat.pow 10 (-e).toNat)

end Binary64

end ApiFolio

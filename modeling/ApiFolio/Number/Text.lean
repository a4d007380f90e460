import ApiFolio.Number.Shortest
import ApiFolio.Text.Basic

/-!
# Numbers as text

Whole numbers in decimal. Doubles by their shortest digits: in positional notation, with at least
one digit on each side of the point, while the first digit stands for `10 ^ -5` to `10 ^ 15`; in
scientific notation with a signed exponent otherwise.
-/

namespace ApiFolio

def decimalText (n : Int) : String :=
  String.ofList ((if n < 0 then ['-'] else []) ++ Text.digits 10 n.natAbs)

namespace Decimal

/-- The first digit of scientific notation and the digits after its point. -/
def mantissa : List Char → List Char
  | [] => []
  | [d] => [d]
  | d :: ds => d :: '.' :: ds

/-- The text of digits whose last stands for `10 ^ exponent`. -/
def text (x : Decimal) : List Char :=
  let ds := Text.digits 10 x.digits
  let leading := x.exponent + ds.length - 1
  if 0 ≤ x.exponent ∧ leading ≤ 15 then
    ds ++ List.replicate x.exponent.toNat '0' ++ ['.', '0']
  else if 0 ≤ leading ∧ leading ≤ 15 then
    ds.take (leading.toNat + 1) ++ '.' :: ds.drop (leading.toNat + 1)
  else if -5 ≤ leading ∧ leading < 0 then
    '0' :: '.' :: (List.replicate (-leading - 1).toNat '0' ++ ds)
  else
    mantissa ds ++ 'e' :: (if leading < 0 then '-' else '+') :: Text.digits 10 leading.natAbs

end Decimal

def Binary64.text (x : Binary64) : String :=
  String.ofList ((if x.isNegative then ['-'] else []) ++
    if x.isZero then ['0', '.', '0'] else x.shortest.text)

/-- A number of a document: whole and within 64 bits, or a finite double. -/
inductive Number where
  /-- A whole number, from `-2 ^ 63` to `2 ^ 64 - 1`. -/
  | int (n : Int)
  | float (x : Binary64)
deriving DecidableEq, Inhabited

/-- The least whole number that 64 bits hold with a sign. -/
def Number.leastWhole : Int := -0x8000000000000000

/-- The greatest whole number that 64 bits hold without a sign. -/
def Number.greatestWhole : Int := 0xFFFFFFFFFFFFFFFF

def Number.text : Number → String
  | .int n => decimalText n
  | .float x => x.text

end ApiFolio

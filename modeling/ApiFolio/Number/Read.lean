import ApiFolio.Number.Text

/-!
# Reading the numbers of JSON

A number without point and exponent that fits 64 bits is whole. Any other is a double: the leading
digits, as many as fit 64 bits, are taken as one whole number, this number is rounded to a double,
and the double is scaled by a power of ten. Digits that do not fit count only for the scale.
-/

namespace ApiFolio.Number

/-- Appends digits to a significand while it fits 64 bits; the digits left over stay. -/
def gather (n : Nat) : List Char → Nat × List Char
  | [] => (n, [])
  | d :: ds =>
    let m := 10 * n + (d.toNat - 48)
    if m ≤ greatestWhole then gather m ds else (n, d :: ds)

/-- Divides a double by a power of ten, in steps of `10 ^ 308`, each rounded. -/
def dividePow10 (x : Binary64) (e : Nat) : Binary64 :=
  if x.isZero then x
  else if _h : e ≤ 308 then x.divMagnitude (.ofNat (Nat.pow 10 e))
  else dividePow10 (x.divMagnitude (.ofNat (Nat.pow 10 308))) (e - 308)
termination_by e

/-- The double of a significand scaled by a power of ten; none if it is too great. -/
def scaled? (significand : Nat) (e : Int) : Option Binary64 :=
  let x := Binary64.ofNat significand
  if e < 0 then some (dividePow10 x e.natAbs)
  else if x.isZero then some x
  else if e ≤ 308 then
    let y := x.mulMagnitude (.ofNat (Nat.pow 10 e.toNat))
    if y.isFinite then some y else none
  else none

/-- The parts of a written number. -/
structure Written where
  negative : Bool
  /-- The digits before the point. -/
  whole : List Char
  fraction : Option (List Char)
  exponent : Option Int

/-- Reads `e` or `E`, an optional sign and digits, to the end. -/
def readExponent? : List Char → Option (Option Int)
  | [] => some none
  | c :: cs =>
    if c = 'e' ∨ c = 'E' then
      let (negative, ds) := match cs with
        | '-' :: ds => (true, ds)
        | '+' :: ds => (false, ds)
        | ds => (false, ds)
      if ds.isEmpty || !ds.all Text.isDigit then none
      else
        let n : Int := Text.decimalValue ds
        some (some (if negative then -n else n))
    else none

/-- Reads the parts of a number: no leading zeros, digits on both sides of a point. -/
def readWritten? (cs : List Char) : Option Written :=
  let (negative, cs) := match cs with
    | '-' :: rest => (true, rest)
    | rest => (false, rest)
  let whole := cs.takeWhile Text.isDigit
  if whole.isEmpty ∨ (whole.head? = some '0' ∧ 1 < whole.length) then none
  else
    match cs.dropWhile Text.isDigit with
    | '.' :: rest =>
      let fraction := rest.takeWhile Text.isDigit
      if fraction.isEmpty then none
      else
        (readExponent? (rest.dropWhile Text.isDigit)).map
          fun e => ⟨negative, whole, some fraction, e⟩
    | rest => (readExponent? rest).map fun e => ⟨negative, whole, none, e⟩

/-- The number that written parts stand for. -/
def ofWritten? (w : Written) : Option Number :=
  let (significand, leftOver) := gather 0 w.whole
  if w.fraction.isNone ∧ w.exponent.isNone ∧ leftOver.isEmpty
      ∧ (w.negative = false ∨ (0 < significand ∧ leastWhole ≤ -significand)) then
    some (.int (if w.negative then -significand else significand))
  else
    let fraction := w.fraction.getD []
    let (significand, leftOverFraction) := gather significand fraction
    let scale : Int :=
      leftOver.length - (fraction.length - leftOverFraction.length : Nat) + w.exponent.getD 0
    (scaled? significand scale).map
      fun x => .float (if w.negative then x.negate else x)

/-- Reads a number of JSON. -/
def read? (cs : List Char) : Option Number := readWritten? cs >>= ofWritten?

end ApiFolio.Number

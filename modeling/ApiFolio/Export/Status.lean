import ApiFolio.Text.Basic

/-!
# Status codes

The keys of responses are status codes, or words such as `default`. A code is a decimal number
with at most one sign, white space around it being ignored, that fits 64 bits with a sign.
-/

namespace ApiFolio.Export

/-- The number of a list of characters that are all digits. -/
def digitsValue? (ds : List Char) : Option Nat :=
  if ds.isEmpty || !ds.all Text.isDigit then none else some (Text.decimalValue ds)

/-- The number of characters that are digits after at most one sign. -/
def signedValue? : List Char → Option Int
  | '-' :: ds => (digitsValue? ds).map fun n => -(n : Int)
  | '+' :: ds => (digitsValue? ds).map fun n => (n : Int)
  | ds => (digitsValue? ds).map fun n => (n : Int)

/-- The code of a status key, zero if it is no number or too great. -/
def statusCode (status : String) : Int :=
  match signedValue? (Text.trimChars status.toList) with
  | some z => if -0x8000000000000000 ≤ z ∧ z ≤ 0x7FFFFFFFFFFFFFFF then z else 0
  | none => 0

end ApiFolio.Export

import ApiFolio.Text.Basic

/-!
# Issues

A rule of the format that a document breaks, and where it does. Issues never keep a document from
being converted.
-/

namespace ApiFolio.Validation

/-- A broken rule. -/
structure Issue where
  location : String
  message : String
deriving DecidableEq, Inhabited, Repr

/-- Place and message in one line. -/
def Issue.text (issue : Issue) : String := issue.location ++ ": " ++ issue.message

/-- The place of a member of a list. -/
def indexed (place : String) (index : Nat) : String :=
  place ++ "[" ++ String.ofList (Text.digits 10 index) ++ "]"

end ApiFolio.Validation

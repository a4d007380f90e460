import ApiFolio.Yaml.Scanner
import ApiFolio.Yaml.Value

/-!
# Reading YAML

A text holds at most one document; where it holds none its value is null.
-/

namespace ApiFolio.Yaml

/-- Lists and tables of a document may stand this deep in one another. -/
def depthLimit : Nat := 128

/-- The value of a document. The aliases that may be followed are a hundred for each part of it. -/
def Value.ofDocument? (x : Node String) : Option Value := do
  let (x, _) ← x.number? ∅
  let (v, _) ← ofNode? { anchored := x.anchored, limit := 100 * x.size } depthLimit x 0
  return v

def read? (s : String) : Option Value := do
  let ts ← tokens? s.toList
  match ← Node.ofTokens? depthLimit ts with
  | none => some .null
  | some x => Value.ofDocument? x

end ApiFolio.Yaml

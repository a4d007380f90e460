import ApiFolio.Dict
import ApiFolio.Yaml.Node

/-!
# Anchors and aliases

Every anchor gets a number: how many different names came before it. An alias has the number of the
last anchor of its name so far. The node of a number is the last one that starts with it.
-/

namespace ApiFolio.Yaml.Node

/-- The properties with the anchor by its number, and the numbers of the names after it. -/
def numberProperties (names : Dict Nat) (p : Properties String) : Properties Nat × Dict Nat :=
  match p.anchor with
  | none => (⟨none, p.tag⟩, names)
  | some name => (⟨some names.size, p.tag⟩, names.insert name names.size)

mutual

/-- Replaces the names of anchors and aliases by numbers; an alias without an anchor is refused. -/
def number? (names : Dict Nat) : Node String → Option (Node Nat × Dict Nat)
  | .alias name => (names.get? name).map fun n => (.alias n, names)
  | .scalar p text plain =>
    let (q, names) := numberProperties names p
    some (.scalar q text plain, names)
  | .list p items => do
    let (q, names) := numberProperties names p
    let (items, names) ← numberItems? names items
    return (.list q items, names)
  | .table p entries => do
    let (q, names) := numberProperties names p
    let (entries, names) ← numberEntries? names entries
    return (.table q entries, names)

def numberItems? (names : Dict Nat) : List (Node String) → Option (List (Node Nat) × Dict Nat)
  | [] => some ([], names)
  | x :: xs => do
    let (y, names) ← number? names x
    let (ys, names) ← numberItems? names xs
    return (y :: ys, names)

def numberEntries? (names : Dict Nat) :
    List (Node String × Node String) → Option (List (Node Nat × Node Nat) × Dict Nat)
  | [] => some ([], names)
  | (k, v) :: rest => do
    let (k, names) ← number? names k
    let (v, names) ← number? names v
    let (es, names) ← numberEntries? names rest
    return ((k, v) :: es, names)

end

/-- What is said of a node beside its content; an alias has nothing said of it. -/
def properties {ρ : Type} : Node ρ → Properties ρ
  | .alias _ => {}
  | .scalar p _ _ => p
  | .list p _ => p
  | .table p _ => p

/-- The entry of a node with an anchor. -/
def ownAnchor (x : Node Nat) : List (Nat × Node Nat) := (x.properties.anchor.map (·, x)).toList

mutual

/-- The nodes with anchors in the order in which they start. -/
def anchored : Node Nat → List (Nat × Node Nat)
  | x@(.alias _) => ownAnchor x
  | x@(.scalar _ _ _) => ownAnchor x
  | x@(.list _ items) => ownAnchor x ++ anchoredItems items
  | x@(.table _ entries) => ownAnchor x ++ anchoredEntries entries

def anchoredItems : List (Node Nat) → List (Nat × Node Nat)
  | [] => []
  | x :: xs => anchored x ++ anchoredItems xs

def anchoredEntries : List (Node Nat × Node Nat) → List (Nat × Node Nat)
  | [] => []
  | (k, v) :: rest => anchored k ++ (anchored v ++ anchoredEntries rest)

end

mutual

/-- The number of scalars and aliases and of starts and ends of lists and tables. -/
def size : Node Nat → Nat
  | .alias _ => 1
  | .scalar _ _ _ => 1
  | .list _ items => 2 + sizeItems items
  | .table _ entries => 2 + sizeEntries entries

def sizeItems : List (Node Nat) → Nat
  | [] => 0
  | x :: xs => size x + sizeItems xs

def sizeEntries : List (Node Nat × Node Nat) → Nat
  | [] => 0
  | (k, v) :: rest => size k + size v + sizeEntries rest

end

end ApiFolio.Yaml.Node

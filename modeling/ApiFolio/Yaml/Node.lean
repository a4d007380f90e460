import ApiFolio.Yaml.Tag
import ApiFolio.Yaml.Token

/-!
# Nodes

The tree that the tokens of a document spell, with the names of anchors and aliases and the tags
in it. A node that is left out where one must be is an empty scalar. The readers take a bound on
the nesting and one on their steps; the number of tokens gives the second.
-/

namespace ApiFolio.Yaml

universe u

/-- What is said of a node beside its content. -/
structure Properties (ρ : Type u) where
  anchor : Option ρ := none
  tag : Option Tag := none

/-- A node, where `ρ` is what anchors and aliases are named by. -/
inductive Node (ρ : Type u) where
  /-- The node that has this name. -/
  | alias (name : ρ)
  /-- A scalar, and whether it is written without quotes or marks. -/
  | scalar (properties : Properties ρ) (text : String) (plain : Bool)
  | list (properties : Properties ρ) (items : List (Node ρ))
  | table (properties : Properties ρ) (entries : List (Node ρ × Node ρ))

instance {ρ : Type u} : Inhabited (Node ρ) := ⟨.scalar {} "" true⟩

namespace Node

/-- The node where none is written. -/
def absent : Node String := .scalar {} "" true

/-- Handles with the bytes at the beginning of tags that they stand for. -/
abbrev Handles := List (String × List UInt8)

/-- The handles that need no directive. -/
def standardHandles : Handles :=
  [("!", bytesOf "!".toList), ("!!", bytesOf "tag:yaml.org,2002:".toList)]

/-- The tag of a handle and a suffix. -/
def tagOf? (handles : Handles) (handle : String) (suffix : List UInt8) : Option Tag :=
  if handle.isEmpty then some (.ofBytes suffix)
  else (handles.find? fun h => h.1 = handle).map fun h => .ofBytes (h.2 ++ suffix)

/-- Reads an anchor and a tag, in either order. -/
def properties? (handles : Handles) : List Token → Option (Properties String × List Token)
  | .anchor a :: .tag h s :: ts => (tagOf? handles h s).map fun t => (⟨some a, some t⟩, ts)
  | .tag h s :: .anchor a :: ts => (tagOf? handles h s).map fun t => (⟨some a, some t⟩, ts)
  | .anchor a :: ts => some (⟨some a, none⟩, ts)
  | .tag h s :: ts => (tagOf? handles h s).map fun t => (⟨none, some t⟩, ts)
  | ts => some ({}, ts)

def isNext (stops : List Token) (ts : List Token) : Bool :=
  match ts with
  | [] => false
  | t :: _ => stops.contains t

/-- The nesting that is left inside a list or table; none if there may be no other. -/
def inside? : Nat → Option Nat
  | 0 => none
  | depth + 1 => some depth

/-- The node of which only the properties are written. -/
def absentWith? (p : Properties String) (ts : List Token) : Option (Node String × List Token) :=
  if p.anchor.isSome || p.tag.isSome then some (.scalar p "" true, ts) else none

mutual

/-- Reads a node. Blocks may start it only if `block` holds, and the items of a list without
indentation of its own only if `indentless` does. -/
def read? (handles : Handles) (depth : Nat) :
    Nat → Bool → Bool → List Token → Option (Node String × List Token)
  | 0, _, _, _ => none
  | _ + 1, _, _, .alias name :: ts => some (.alias name, ts)
  | steps + 1, block, indentless, ts => do
    let (p, ts) ← properties? handles ts
    match ts with
    | .scalar text plain :: ts => some (.scalar p text plain, ts)
    | .flowListStart :: ts => do
      let inner ← inside? depth
      let (items, ts) ← flowItems? handles inner steps true ts
      return (.list p items, ts)
    | .flowTableStart :: ts => do
      let inner ← inside? depth
      let (entries, ts) ← flowEntries? handles inner steps true ts
      return (.table p entries, ts)
    | .blockEntry :: _ =>
      if indentless then do
        let inner ← inside? depth
        let (items, ts) ← indentlessItems? handles inner steps ts
        return (.list p items, ts)
      else absentWith? p ts
    | .blockListStart :: rest =>
      if block then do
        let inner ← inside? depth
        let (items, ts) ← blockItems? handles inner steps rest
        return (.list p items, ts)
      else absentWith? p ts
    | .blockTableStart :: rest =>
      if block then do
        let inner ← inside? depth
        let (entries, ts) ← blockEntries? handles inner steps rest
        return (.table p entries, ts)
      else absentWith? p ts
    | ts => absentWith? p ts

/-- Reads a node, or none before some tokens. -/
def readUnless? (handles : Handles) (depth : Nat) :
    Nat → List Token → Bool → Bool → List Token → Option (Node String × List Token)
  | 0, _, _, _, _ => none
  | steps + 1, stops, block, indentless, ts =>
    if isNext stops ts then some (absent, ts) else read? handles depth steps block indentless ts

def blockItems? (handles : Handles) (depth : Nat) :
    Nat → List Token → Option (List (Node String) × List Token)
  | steps + 1, .blockEntry :: ts => do
    let (x, ts) ← readUnless? handles depth steps [.blockEntry, .blockEnd] true false ts
    let (xs, ts) ← blockItems? handles depth steps ts
    return (x :: xs, ts)
  | _, .blockEnd :: ts => some ([], ts)
  | _, _ => none

/-- Reads the items of a list without indentation of its own. -/
def indentlessItems? (handles : Handles) (depth : Nat) :
    Nat → List Token → Option (List (Node String) × List Token)
  | steps + 1, .blockEntry :: ts => do
    let (x, ts) ←
      readUnless? handles depth steps [.blockEntry, .key, .value, .blockEnd] true false ts
    let (xs, ts) ← indentlessItems? handles depth steps ts
    return (x :: xs, ts)
  | 0, _ => none
  | _, ts => some ([], ts)

def valueAfter? (handles : Handles) (depth : Nat) :
    Nat → List Token → Bool → List Token → Option (Node String × List Token)
  | steps + 1, stops, block, .value :: ts => readUnless? handles depth steps stops block block ts
  | 0, _, _, _ => none
  | _, _, _, ts => some (absent, ts)

def blockEntries? (handles : Handles) (depth : Nat) :
    Nat → List Token → Option (List (Node String × Node String) × List Token)
  | steps + 1, .key :: ts => do
    let stops := [.key, .value, .blockEnd]
    let (k, ts) ← readUnless? handles depth steps stops true true ts
    let (v, ts) ← valueAfter? handles depth steps stops true ts
    let (es, ts) ← blockEntries? handles depth steps ts
    return ((k, v) :: es, ts)
  | _, .blockEnd :: ts => some ([], ts)
  | _, _ => none

def flowItems? (handles : Handles) (depth : Nat) :
    Nat → Bool → List Token → Option (List (Node String) × List Token)
  | 0, _, _ => none
  | _, _, .flowListEnd :: ts => some ([], ts)
  | steps + 1, true, ts => flowItem? handles depth steps ts
  | steps + 1, false, .flowEntry :: ts => flowItem? handles depth steps ts
  | _, _, _ => none

/-- Reads an item of a list in brackets and those after it; an item may be a table of one entry. -/
def flowItem? (handles : Handles) (depth : Nat) :
    Nat → List Token → Option (List (Node String) × List Token)
  | 0, _ => none
  | _, .flowListEnd :: ts => some ([], ts)
  | steps + 1, .key :: ts => do
    let stops := [.value, .flowEntry, .flowListEnd]
    let inner ← inside? depth
    let (k, ts) ←
      if isNext stops ts then some (absent, ts.drop 1)
      else read? handles inner steps false false ts
    let (v, ts) ← valueAfter? handles inner steps [.flowEntry, .flowListEnd] false ts
    let (xs, ts) ← flowItems? handles depth steps false ts
    return (.table {} [(k, v)] :: xs, ts)
  | steps + 1, ts => do
    let (x, ts) ← read? handles depth steps false false ts
    let (xs, ts) ← flowItems? handles depth steps false ts
    return (x :: xs, ts)

def flowEntries? (handles : Handles) (depth : Nat) :
    Nat → Bool → List Token → Option (List (Node String × Node String) × List Token)
  | 0, _, _ => none
  | _, _, .flowTableEnd :: ts => some ([], ts)
  | steps + 1, true, ts => flowTableEntry? handles depth steps ts
  | steps + 1, false, .flowEntry :: ts => flowTableEntry? handles depth steps ts
  | _, _, _ => none

/-- Reads an entry of a table in braces and those after it; a node alone is a key. -/
def flowTableEntry? (handles : Handles) (depth : Nat) :
    Nat → List Token → Option (List (Node String × Node String) × List Token)
  | 0, _ => none
  | _, .flowTableEnd :: ts => some ([], ts)
  | steps + 1, .key :: ts => do
    let stops := [.value, .flowEntry, .flowTableEnd]
    let (k, ts) ← readUnless? handles depth steps stops false false ts
    let (v, ts) ← valueAfter? handles depth steps [.flowEntry, .flowTableEnd] false ts
    let (es, ts) ← flowEntries? handles depth steps false ts
    return ((k, v) :: es, ts)
  | steps + 1, ts => do
    let (k, ts) ← read? handles depth steps false false ts
    let (es, ts) ← flowEntries? handles depth steps false ts
    return ((k, absent) :: es, ts)

end

/-! ## Documents -/

/-- What the directives before a document say. -/
structure Directives where
  versioned : Bool := false
  handles : Handles := []

/-- Reads directives. A second version, an unknown version and a handle that is declared twice are
refused. -/
def directives? (d : Directives) : List Token → Option (Directives × List Token)
  | .version major minor :: ts =>
    if d.versioned ∨ major ≠ 1 ∨ (minor ≠ 1 ∧ minor ≠ 2) then none
    else directives? { d with versioned := true } ts
  | .tagHandle handle beginning :: ts =>
    if d.handles.any fun h => h.1 = handle then none
    else directives? { d with handles := d.handles ++ [(handle, beginning)] } ts
  | ts => some (d, ts)

/-- Whether a document is over before its content. -/
def isBare : List Token → Bool
  | .version _ _ :: _ => true
  | .tagHandle _ _ :: _ => true
  | .documentStart :: _ => true
  | .documentEnd :: _ => true
  | .streamEnd :: _ => true
  | _ => false

/-- Whether nothing but ends of documents comes before the end of the text. -/
def isOver : List Token → Bool
  | .documentEnd :: ts => isOver ts
  | [.streamEnd] => true
  | _ => false

/-- The node of the only document of a text, nothing if the text holds no document. Texts with
several documents are refused. -/
def ofTokens? (depth : Nat) (ts : List Token) : Option (Option (Node String)) := do
  let steps := 4 * ts.length + 8
  match ts with
  | [.streamEnd] => some none
  | ts =>
    if isBare ts && ts.head? != some .documentEnd then
      let (d, ts) ← directives? {} ts
      match ts with
      | .documentStart :: ts =>
        let (x, ts) ←
          if isBare ts then some (absent, ts)
          else read? (d.handles ++ standardHandles) depth steps true false ts
        if isOver ts then some (some x) else none
      | _ => none
    else
      let (x, ts) ← read? standardHandles depth steps true false ts
      if isOver ts then some (some x) else none

end Node

end ApiFolio.Yaml

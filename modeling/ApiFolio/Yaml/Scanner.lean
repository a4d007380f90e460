import ApiFolio.Yaml.Property
import ApiFolio.Yaml.Scalar

/-!
# Scanning YAML

The scanner turns a text into tokens. Outside of brackets, indentation opens and closes block lists
and tables. Whether a node is a key shows only when a colon follows it on its line: the place of a
node that may be a key is kept, and the tokens that make it one are put in there afterwards.
-/

namespace ApiFolio.Yaml

/-- A node that may turn out to be a key. -/
structure PossibleKey where
  /-- Whether it cannot be anything else. -/
  required : Bool
  /-- The number of tokens before it. -/
  position : Nat
  /-- The number of bytes before it. -/
  index : Nat
  line : Nat
  column : Nat

/-- The state of a scan. -/
structure Scanner where
  cursor : Cursor
  /-- The column of the innermost block, one before the first outside of all blocks. -/
  indent : Int := -1
  /-- The columns of the blocks around it, innermost first. -/
  outer : List Int := []
  keyAllowed : Bool := true
  /-- The possible key of the innermost brackets. -/
  key : Option PossibleKey := none
  /-- The possible keys of the brackets around, innermost first, one for each opening bracket. -/
  outerKeys : List (Option PossibleKey) := []
  /-- The tokens so far, last first. -/
  found : List Token := []
  count : Nat := 0

namespace Scanner

/-- Whether the place is inside brackets. -/
def inFlow (s : Scanner) : Bool := !s.outerKeys.isEmpty

def emit (s : Scanner) (t : Token) : Scanner :=
  { s with found := t :: s.found, count := s.count + 1 }

/-- Puts a token in after some of the tokens so far. -/
def emitAt (s : Scanner) (position : Nat) (t : Token) : Scanner :=
  let after := s.count - position
  { s with found := s.found.take after ++ t :: s.found.drop after, count := s.count + 1 }

def moveTo (s : Scanner) (c : Cursor) : Scanner := { s with cursor := c }

/-- Says whether a key may start at the place. -/
def allowKey (s : Scanner) (b : Bool) : Scanner := { s with keyAllowed := b }

/-- Opens a block at a column, unless it is inside brackets or not further in. -/
def openBlock (s : Scanner) (column : Nat) (position : Option Nat) (t : Token) : Scanner :=
  if s.inFlow then s
  else if s.indent < column then
    let s := { s with indent := column, outer := s.indent :: s.outer }
    match position with
    | some n => s.emitAt n t
    | none => s.emit t
  else s

/-- Closes the blocks further in than a column, the columns around being given. -/
def closeBlocksFrom (column : Int) : List Int → Scanner → Scanner
  | [], s => s
  | around :: outer, s =>
    if s.indent > column then
      closeBlocksFrom column outer { s.emit .blockEnd with indent := around, outer }
    else s

/-- Closes the blocks further in than a column, unless the place is inside brackets. -/
def closeBlocks (s : Scanner) (column : Int) : Scanner :=
  if s.inFlow then s else closeBlocksFrom column s.outer s

/-- Gives up the possible key; one that cannot be anything else is refused. -/
def dropKey? (s : Scanner) : Option Scanner :=
  match s.key with
  | some k => if k.required then none else some { s with key := none }
  | none => some s

/-- Keeps the place as that of a possible key, if a key may start here. -/
def saveKey? (s : Scanner) : Option Scanner :=
  if s.keyAllowed then do
    let s ← s.dropKey?
    let c := s.cursor
    return { s with
      key := some {
        required := !s.inFlow && s.indent == c.column, position := s.count, index := c.index,
        line := c.line, column := c.column } }
  else some s

/-- Whether a possible key is too far away: on another line, or more than 1024 bytes back. -/
def isStale (c : Cursor) (k : PossibleKey) : Bool := k.line < c.line || k.index + 1024 < c.index

/-- Gives up the possible key if it is too far away; one that cannot be anything else is refused.
The keys of the brackets around have their turn when these brackets are closed. -/
def dropStale? (s : Scanner) : Option Scanner :=
  if s.key.any (isStale s.cursor) then s.dropKey? else some s

/-- Walks over blanks, comments and line breaks before a token. A tab counts as blank only where no
key may start. -/
def toToken : Nat → Scanner → Scanner
  | 0, s => s
  | steps + 1, s =>
    let c := s.cursor
    let c := if c.column = 0 ∧ c.head? = some '\ufeff' then c.skip 1 else c
    let c := c.skipWhile fun ch => ch == ' ' || ((s.inFlow || !s.keyAllowed) && ch == '\t')
    let c := if c.head? = some '#' then c.skipWhile fun ch => !isBreak ch else c
    if c.head?.any isBreak then
      let s := s.moveTo c.lineBreak.2
      toToken steps (if s.inFlow then s else s.allowKey true)
    else s.moveTo c

/-! ## Tokens -/

def atEnd? (s : Scanner) : Option Scanner := do
  let s ← (s.closeBlocks (-1)).dropKey?
  return (s.allowKey false).emit .streamEnd

def atDirective? (s : Scanner) : Option Scanner := do
  let s ← (s.closeBlocks (-1)).dropKey?
  let (t, c) ← directive? (s.cursor.skip 1)
  return ((s.allowKey false).emit t).moveTo c

def atDocumentLimit? (t : Token) (s : Scanner) : Option Scanner := do
  let s ← (s.closeBlocks (-1)).dropKey?
  return ((s.allowKey false).emit t).moveTo (s.cursor.skip 3)

def atOpening? (t : Token) (s : Scanner) : Option Scanner := do
  let s ← s.saveKey?
  let s := { s with key := none, outerKeys := s.key :: s.outerKeys }
  return ((s.allowKey true).emit t).moveTo (s.cursor.skip 1)

def atClosing? (t : Token) (s : Scanner) : Option Scanner := do
  let s ← s.dropKey?
  let s :=
    match s.outerKeys with
    | [] => s
    | k :: ks => { s with key := k, outerKeys := ks }
  return ((s.allowKey false).emit t).moveTo (s.cursor.skip 1)

def atComma? (s : Scanner) : Option Scanner := do
  let s ← s.dropKey?
  return ((s.allowKey true).emit .flowEntry).moveTo (s.cursor.skip 1)

/-- The hyphen before an item. -/
def atHyphen? (s : Scanner) : Option Scanner := do
  if !s.inFlow && !s.keyAllowed then none
  else
    let s ← (s.openBlock s.cursor.column none .blockListStart).dropKey?
    return ((s.allowKey true).emit .blockEntry).moveTo (s.cursor.skip 1)

/-- The question mark before a key. -/
def atQuestion? (s : Scanner) : Option Scanner := do
  if !s.inFlow && !s.keyAllowed then none
  else
    let s ← (s.openBlock s.cursor.column none .blockTableStart).dropKey?
    return ((s.allowKey (!s.inFlow)).emit .key).moveTo (s.cursor.skip 1)

/-- The colon before a value: the possible key is one. -/
def atColon? (s : Scanner) : Option Scanner :=
  match s.key with
  | some k =>
    let s := { s.emitAt k.position .key with key := none }
    let s := s.openBlock k.column (some k.position) .blockTableStart
    some (((s.allowKey false).emit .value).moveTo (s.cursor.skip 1))
  | none =>
    if s.inFlow then some (((s.allowKey false).emit .value).moveTo (s.cursor.skip 1))
    else if s.keyAllowed then
      let s := s.openBlock s.cursor.column none .blockTableStart
      some (((s.allowKey true).emit .value).moveTo (s.cursor.skip 1))
    else none

/-- The name of an anchor or alias after its mark. -/
def atName? (make : String → Token) (s : Scanner) : Option Scanner := do
  let s ← s.saveKey?
  let (name, c) ← anchorName? (s.cursor.skip 1)
  return ((s.allowKey false).emit (make name)).moveTo c

def atTag? (s : Scanner) : Option Scanner := do
  let s ← s.saveKey?
  let (t, c) ← tag? s.inFlow s.cursor
  return ((s.allowKey false).emit t).moveTo c

def atBlockScalar? (literal : Bool) (s : Scanner) : Option Scanner := do
  let s ← s.dropKey?
  let (text, c) ← blockScalar? literal s.indent (s.cursor.skip 1)
  return ((s.allowKey true).emit (.scalar (String.ofList text) false)).moveTo c

def atQuote? (single : Bool) (s : Scanner) : Option Scanner := do
  let s ← s.saveKey?
  let (text, c) ← quotedScalar? single (s.cursor.size + 1) [] (s.cursor.skip 1)
  return ((s.allowKey false).emit (.scalar (String.ofList text) false)).moveTo c

def atPlain? (s : Scanner) : Option Scanner := do
  let s ← s.saveKey?
  let x ← plainScalar? s.inFlow (s.indent + 1).toNat (s.cursor.size + 1) [] {} s.cursor
  return ((s.allowKey x.broken).emit (.scalar (String.ofList x.text) true)).moveTo x.next

/-- The marks that cannot start a plain scalar. -/
def marks : List Char :=
  ['-', '?', ':', ',', '[', ']', '{', '}', '#', '&', '*', '!', '|', '>', '\'', '"', '%', '@',
    '`']

/-- Whether a plain scalar may start with a character before some text. -/
def startsPlain (flow : Bool) (ch : Char) (rest : List Char) : Bool :=
  (!marks.contains ch && !isBlank ch)
    || (ch == '-' && !(rest.head?.any isBlank))
    || (!flow && (ch == '?' || ch == ':') && !endsWord rest)

/-- One token more, or a few; none is left after the end of the text. -/
def next? (s : Scanner) : Option Scanner := do
  let s ← (toToken (s.cursor.size + 1) s).dropStale?
  let s := s.closeBlocks s.cursor.column
  match s.cursor.rest with
  | [] => s.atEnd?
  | ch :: rest =>
    if s.cursor.column = 0 ∧ ch = '%' then s.atDirective?
    else if s.cursor.atTriple '-' then s.atDocumentLimit? .documentStart
    else if s.cursor.atTriple '.' then s.atDocumentLimit? .documentEnd
    else if ch = '[' then s.atOpening? .flowListStart
    else if ch = '{' then s.atOpening? .flowTableStart
    else if ch = ']' then s.atClosing? .flowListEnd
    else if ch = '}' then s.atClosing? .flowTableEnd
    else if ch = ',' then s.atComma?
    else if ch = '-' ∧ endsWord rest then s.atHyphen?
    else if ch = '?' ∧ (s.inFlow ∨ endsWord rest) then s.atQuestion?
    else if ch = ':' ∧ (s.inFlow ∨ endsWord rest) then s.atColon?
    else if ch = '*' then s.atName? .alias
    else if ch = '&' then s.atName? .anchor
    else if ch = '!' then s.atTag?
    else if ch = '|' ∧ !s.inFlow then s.atBlockScalar? true
    else if ch = '>' ∧ !s.inFlow then s.atBlockScalar? false
    else if ch = '\'' then s.atQuote? true
    else if ch = '"' then s.atQuote? false
    else if startsPlain s.inFlow ch rest then s.atPlain?
    else none

/-- All tokens, with a bound on the steps. -/
def run? : Nat → Scanner → Option (List Token)
  | 0, _ => none
  | steps + 1, s => do
    let s ← s.next?
    if s.found.head? = some .streamEnd then return s.found.reverse else run? steps s

end Scanner

/-- The tokens of a text. Each step but the last passes a character. -/
def tokens? (cs : List Char) : Option (List Token) :=
  if cs.all isAllowed then Scanner.run? (cs.length + 2) { cursor := .ofText cs } else none

end ApiFolio.Yaml

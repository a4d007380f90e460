import ApiFolio.Yaml.Cursor

/-!
# Scanning scalars

A scalar is plain, quoted in one of two ways, or a block that is marked as literal or folded. In
plain and quoted scalars a single line break is a space, and of several all but the first are kept;
blanks around them are not. The scanners take a bound on their steps, which the length of the text
is.
-/

namespace ApiFolio.Yaml

/-- Blanks and line breaks between two parts of a scalar. -/
structure Gap where
  /-- The blanks, last first, while there is no line break. -/
  blanks : List Char := []
  /-- The first line break. -/
  first : List Char := []
  /-- The line breaks after the first, last first. -/
  more : List Char := []
  /-- Whether there is a line break, or one that is escaped. -/
  broken : Bool := false
deriving Inhabited

/-- What a gap stands for. -/
def Gap.text (g : Gap) : List Char :=
  if g.broken then
    if g.first = ['\n'] then (if g.more.isEmpty then [' '] else g.more.reverse)
    else g.first ++ g.more.reverse
  else g.blanks.reverse

/-- Walks over blanks and line breaks. After a line break, a tab before the column `tabLimit` is
refused. -/
def Gap.scan? (tabLimit : Nat) : Nat → Gap → Cursor → Option (Gap × Cursor)
  | 0, g, c => some (g, c)
  | steps + 1, g, c =>
    match c.rest with
    | [] => some (g, c)
    | ch :: _ =>
      if isBlank ch then
        if g.broken then
          if ch = '\t' ∧ c.column < tabLimit then none else scan? tabLimit steps g (c.skip 1)
        else scan? tabLimit steps { g with blanks := ch :: g.blanks } (c.skip 1)
      else if isBreak ch then
        let (b, next) := c.lineBreak
        if g.broken then scan? tabLimit steps { g with more := b ++ g.more } next
        else scan? tabLimit steps { first := b, broken := true } next
      else some (g, c)

/-! ## Quoted scalars -/

/-- The character of an escape of one letter. -/
def simpleEscape? (c : Char) : Option Char :=
  match c with
  | '0' => some '\x00'
  | 'a' => some '\x07'
  | 'b' => some '\x08'
  | 't' => some '\t'
  | '\t' => some '\t'
  | 'n' => some '\n'
  | 'v' => some '\x0b'
  | 'f' => some '\x0c'
  | 'r' => some '\r'
  | 'e' => some '\x1b'
  | ' ' => some ' '
  | '"' => some '"'
  | '/' => some '/'
  | '\\' => some '\\'
  | 'N' => some '\u0085'
  | '_' => some '\u00a0'
  | 'L' => some '\u2028'
  | 'P' => some '\u2029'
  | _ => none

/-- The number of hexadecimal digits of an escape by code point. -/
def codeLength? (c : Char) : Option Nat :=
  if c = 'x' then some 2 else if c = 'u' then some 4 else if c = 'U' then some 8 else none

/-- The value of hexadecimal digits. -/
def hexNumber? (cs : List Char) : Option Nat :=
  cs.foldlM (fun n d => (Text.hexValue? d).map (16 * n + ·)) 0

/-- The character of an escape after its backslash, and the place after it. -/
def escape? (c : Cursor) : Option (Char × Cursor) :=
  match c.rest with
  | [] => none
  | mark :: rest =>
    match simpleEscape? mark with
    | some ch => some (ch, c.skip 1)
    | none => do
      let n ← codeLength? mark
      if (rest.take n).length < n then none
      else
        let code ← hexNumber? (rest.take n)
        if (0xD800 ≤ code ∧ code ≤ 0xDFFF) ∨ 0x10FFFF < code then none
        else some (Char.ofNat code, c.skip (n + 1))

/-- Scans a quoted scalar after its first quote; what is seen so far stands last first. -/
def quotedScalar? (single : Bool) : Nat → List Char → Cursor → Option (List Char × Cursor)
  | 0, _, _ => none
  | steps + 1, seen, c =>
    if c.atDocumentLimit then none
    else
      match c.rest with
      | [] => none
      | ch :: rest =>
        if isBlank ch || isBreak ch then do
          let (g, next) ← Gap.scan? 0 c.size {} c
          quotedScalar? single steps (g.text.reverse ++ seen) next
        else if single then
          if ch = '\'' then
            if rest.head? = some '\'' then quotedScalar? single steps ('\'' :: seen) (c.skip 2)
            else some (seen.reverse, c.skip 1)
          else quotedScalar? single steps (ch :: seen) (c.skip 1)
        else if ch = '"' then some (seen.reverse, c.skip 1)
        else if ch = '\\' then
          if rest.head?.any isBreak then do
            let (g, next) ← Gap.scan? 0 c.size { broken := true } (c.skip 1).lineBreak.2
            quotedScalar? single steps (g.text.reverse ++ seen) next
          else do
            let (e, next) ← escape? (c.skip 1)
            quotedScalar? single steps (e :: seen) next
        else quotedScalar? single steps (ch :: seen) (c.skip 1)

/-! ## Plain scalars -/

/-- The marks that end a plain scalar inside brackets. -/
def isFlowMark (c : Char) : Bool :=
  c == ',' || c == '[' || c == ']' || c == '{' || c == '}'

/-- A part of a plain scalar without blanks; inside brackets a colon before a mark is refused. -/
def plainRun? (flow : Bool) : List Char → Option (List Char)
  | [] => some []
  | ch :: cs =>
    if isBlank ch || isBreak ch then some []
    else if flow && ch == ':' && cs.head?.any (fun d => isFlowMark d || d == '?') then none
    else if (ch == ':' && endsWord cs) || (flow && isFlowMark ch) then some []
    else (plainRun? flow cs).map (ch :: ·)

/-- A scanned plain scalar. -/
structure PlainScalar where
  text : List Char
  /-- Whether a line break follows it. -/
  broken : Bool
  /-- The place after it and after the gap that follows. -/
  next : Cursor

/-- Scans a plain scalar whose further lines stand at the column `indent` or right of it, unless it
is inside brackets; what is seen so far stands last first. -/
def plainScalar? (flow : Bool) (indent : Nat) :
    Nat → List Char → Gap → Cursor → Option PlainScalar
  | 0, _, _, _ => none
  | steps + 1, seen, g, c =>
    if c.atDocumentLimit || c.head? == some '#' then some ⟨seen.reverse, g.broken, c⟩
    else do
      let run ← plainRun? flow c.rest
      if run.isEmpty then some ⟨seen.reverse, g.broken, c⟩
      else
        let seen := run.reverse ++ (g.text.reverse ++ seen)
        let c := c.skip run.length
        if c.rest.head?.any fun ch => isBlank ch || isBreak ch then
          let (g, c) ← Gap.scan? indent c.size {} c
          if !flow && c.column < indent then some ⟨seen.reverse, g.broken, c⟩
          else plainScalar? flow indent steps seen g c
        else some ⟨seen.reverse, false, c⟩

/-! ## Block scalars -/

/-- What is done with the line breaks at the end of a block. -/
inductive Chomping where
  /-- None is kept. -/
  | strip
  /-- The first is kept. -/
  | clip
  /-- All are kept. -/
  | keep
deriving DecidableEq, Inhabited

/-- What stands after the mark of a block on its line. -/
structure BlockHeader where
  chomping : Chomping := .clip
  /-- How far the block is indented, if the header says so. -/
  increment : Option Nat := none
deriving Inhabited

/-- The chomping of a mark. -/
def chomping? (c : Char) : Option Chomping :=
  if c = '+' then some .keep else if c = '-' then some .strip else none

/-- Scans chomping and indentation in either order; an indentation of zero is refused. -/
def blockHeader? (c : Cursor) : Option (BlockHeader × Cursor) :=
  let increment? (d : Char) : Option (Option Nat) :=
    if d = '0' then none else some (some (d.toNat - 48))
  match c.rest with
  | a :: rest =>
    match chomping? a with
    | some chomping =>
      match rest with
      | d :: _ =>
        if Text.isDigit d then
          (increment? d).map fun increment => ({ chomping, increment }, c.skip 2)
        else some ({ chomping }, c.skip 1)
      | [] => some ({ chomping }, c.skip 1)
    | none =>
      if Text.isDigit a then
        (increment? a).map fun increment =>
          match rest.head?.bind chomping? with
          | some chomping => ({ chomping, increment }, c.skip 2)
          | none => ({ increment }, c.skip 1)
      else some ({}, c)
  | [] => some ({}, c)

/-- The empty lines and the indentation before a line of a block. -/
structure BlockBreaks where
  /-- The line breaks, last first. -/
  breaks : List Char := []
  /-- The greatest column that was reached. -/
  reached : Nat := 0
  next : Cursor

/-- Walks over empty lines and indentation up to the column `indent`, where zero is no limit. A tab
in the indentation is refused. -/
def blockBreaks? (indent : Nat) : Nat → BlockBreaks → Option BlockBreaks
  | 0, s => some s
  | steps + 1, s =>
    let spaces := s.next.rest.takeWhile (· == ' ')
    let width := if indent = 0 then spaces.length else min spaces.length (indent - s.next.column)
    let c := s.next.skip width
    let reached := max s.reached c.column
    if (indent = 0 ∨ c.column < indent) ∧ c.head? = some '\t' then none
    else if c.head?.any isBreak then
      let (b, next) := c.lineBreak
      blockBreaks? indent steps { breaks := b ++ s.breaks, reached, next }
    else some { s with reached, next := c }

/-- The lines of a block so far, and what is not yet known to belong to it. -/
structure BlockState where
  seen : List Char := []
  /-- The line break after the last line. -/
  leading : List Char := []
  /-- The line breaks of the empty lines after it. -/
  trailing : List Char := []
  /-- Whether the last line starts with a blank. -/
  blankBefore : Bool := false
  next : Cursor

/-- The lines of a block at the column `indent`. -/
def blockLines? (literal : Bool) (indent : Nat) : Nat → BlockState → Option BlockState
  | 0, s => some s
  | steps + 1, s =>
    if s.next.column = indent ∧ !s.next.rest.isEmpty then do
      let blankHere := s.next.head?.any isBlank
      let fold := !literal && s.leading.head? == some '\n' && !s.blankBefore && !blankHere
      let joined :=
        if fold then (if s.trailing.isEmpty then [' '] else s.trailing)
        else s.leading ++ s.trailing
      let (line, c) := s.next.span fun ch => !isBreak ch
      let (leading, c) := c.lineBreak
      let after ← blockBreaks? indent (c.size + 1) { next := c }
      blockLines? literal indent steps {
        seen := line.reverse ++ (joined.reverse ++ s.seen)
        leading, trailing := after.breaks.reverse, blankBefore := blankHere, next := after.next }
    else some s

/-- The rest of a line, which may hold blanks and a comment only, with the line break. -/
def blankLine? (c : Cursor) : Option Cursor :=
  let c := c.skipWhile isBlank
  let c := if c.head? = some '#' then c.skipWhile fun ch => !isBreak ch else c
  if endsLine c.rest then some c.lineBreak.2 else none

/-- Scans a block after its mark, in a node that is indented by `parent`. -/
def blockScalar? (literal : Bool) (parent : Int) (c : Cursor) : Option (List Char × Cursor) := do
  let (header, c) ← blockHeader? c
  let c ← blankLine? c
  let given : Nat :=
    match header.increment with
    | some n => if 0 ≤ parent then parent.toNat + n else n
    | none => 0
  let before ← blockBreaks? given (c.size + 1) { next := c }
  let indent := if given = 0 then max before.reached (max (parent + 1).toNat 1) else given
  let s ← blockLines? literal indent (c.size + 1)
    { trailing := before.breaks.reverse, next := before.next }
  let ending :=
    match header.chomping with
    | .strip => []
    | .clip => s.leading
    | .keep => s.leading ++ s.trailing
  return (s.seen.reverse ++ ending, s.next)

end ApiFolio.Yaml

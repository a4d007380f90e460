import ApiFolio.Yaml.Cursor
import ApiFolio.Yaml.Tag
import ApiFolio.Yaml.Token

/-!
# Scanning properties and directives

Anchors and aliases have plain names. A tag is written in full between angle brackets, or as a
handle and a rest. A directive stands on a line of its own before a document.
-/

namespace ApiFolio.Yaml

/-- Scans the name of an anchor or alias. -/
def anchorName? (c : Cursor) : Option (String × Cursor) :=
  let (name, c) := c.span isNameChar
  let ends := endsWord c.rest
    || c.head?.any fun ch => ['?', ':', ',', ']', '}', '%', '@', '`'].contains ch
  if name.isEmpty || !ends then none else some (String.ofList name, c)

/-- Scans the handle of a tag: an exclamation mark, and if a name follows that one closes, this
name and the mark. In a directive nothing but the mark alone may be without the closing one. -/
def tagHandle? (directive : Bool) (c : Cursor) : Option (List Char × Cursor) :=
  if c.head? = some '!' then
    let (name, next) := (c.skip 1).span isNameChar
    if next.head? = some '!' then some ('!' :: (name ++ ['!']), next.skip 1)
    else if directive && !name.isEmpty then none
    else some ('!' :: name, next)
  else none

/-- The characters of the rest of a tag; some of them only where brackets cannot end it. -/
def isUriChar (wide : Bool) (c : Char) : Bool :=
  isNameChar c || [';', '/', '?', ':', '@', '&', '=', '+', '$', '.', '!', '~', '*', '\'', '(',
    ')'].contains c || (wide && [',', '[', ']'].contains c)

/-- One byte written as a percent sign and two digits. -/
def escapedByte? : List Char → Option UInt8
  | '%' :: a :: b :: _ => do
    let m ← Text.hexValue? a
    let n ← Text.hexValue? b
    return UInt8.ofNat (16 * m + n)
  | _ => none

/-- The number of bytes of a character by its first byte. -/
def byteCount? (b : UInt8) : Option Nat :=
  if b < 0x80 then some 1
  else if 0xC0 ≤ b ∧ b < 0xE0 then some 2
  else if 0xE0 ≤ b ∧ b < 0xF0 then some 3
  else if 0xF0 ≤ b ∧ b < 0xF8 then some 4
  else none

/-- Whether a byte can follow the first of a character. -/
def isTrailingByte (b : UInt8) : Bool := 0x80 ≤ b && b < 0xC0

/-- The escaped bytes of one character by its first byte and their number; whether there is such a
character is not asked. -/
def escapedBytes? (c : Cursor) : Option (List UInt8 × Cursor) := do
  let first ← escapedByte? c.rest
  let n ← byteCount? first
  let others ← (List.range (n - 1)).mapM fun i => escapedByte? (c.rest.drop (3 * (i + 1)))
  if others.all isTrailingByte then some (first :: others, c.skip (3 * n)) else none

/-- Scans the bytes of the rest of a tag; what is seen so far stands last first. -/
def uri? (wide : Bool) : Nat → List UInt8 → Cursor → Option (List UInt8 × Cursor)
  | 0, seen, c => some (seen.reverse, c)
  | steps + 1, seen, c =>
    match c.rest with
    | [] => some (seen.reverse, c)
    | ch :: _ =>
      if ch = '%' then do
        let (bytes, next) ← escapedBytes? c
        uri? wide steps (bytes.reverse ++ seen) next
      else if isUriChar wide ch then uri? wide steps ((bytesOf [ch]).reverse ++ seen) (c.skip 1)
      else some (seen.reverse, c)

/-- Scans a tag: its handle and its suffix, where the handle of a full tag is empty. Inside
brackets a comma may follow, else a blank or a line break must. -/
def tag? (flow : Bool) (c : Cursor) : Option (Token × Cursor) := do
  let (handle, suffix, c) ←
    match c.rest with
    | '!' :: '<' :: _ => do
      let (uri, next) ← uri? true c.size [] (c.skip 2)
      if uri.isEmpty || next.head? != some '>' then none else some ([], uri, next.skip 1)
    | _ => do
      let (handle, next) ← tagHandle? false c
      if 1 < handle.length ∧ handle.getLast? = some '!' then
        let (uri, next) ← uri? false c.size [] next
        if uri.isEmpty then none else some (handle, uri, next)
      else
        let (uri, next) ← uri? false c.size (bytesOf handle.tail).reverse next
        if (beforeNul uri).isEmpty then some ([], bytesOf ['!'], next)
        else some (['!'], uri, next)
  if endsWord c.rest || (flow && c.head? == some ',') then
    some (.tag (String.ofList handle) (beforeNul suffix), c)
  else none

/-- Scans a number of a version, of at most nine digits. -/
def versionNumber? (c : Cursor) : Option (Nat × Cursor) :=
  let (ds, c) := c.span Text.isDigit
  if ds.isEmpty ∨ 9 < ds.length then none else some (Text.decimalValue ds, c)

/-- Scans what a directive says after its name. -/
def directiveValue? (name : List Char) (c : Cursor) : Option (Token × Cursor) :=
  let c := c.skipWhile isBlank
  if name = ['Y', 'A', 'M', 'L'] then do
    let (major, c) ← versionNumber? c
    if c.head? != some '.' then none
    else
      let (minor, c) ← versionNumber? (c.skip 1)
      some (.version major minor, c)
  else if name = ['T', 'A', 'G'] then do
    let (handle, c) ← tagHandle? true c
    if c.head?.any isBlank then
      let c := c.skipWhile isBlank
      let (uri, next) ← uri? true c.size [] c
      if uri.isEmpty || !endsWord next.rest then none
      else some (.tagHandle (String.ofList handle) (beforeNul uri), next)
    else none
  else none

/-- Scans a directive after its percent sign, up to the end of its line. -/
def directive? (c : Cursor) : Option (Token × Cursor) := do
  let (name, c) := c.span isNameChar
  if name.isEmpty || !endsWord c.rest then none
  else
    let (token, c) ← directiveValue? name c
    let c := c.skipWhile isBlank
    let c := if c.head? = some '#' then c.skipWhile fun ch => !isBreak ch else c
    if endsLine c.rest then some (token, c.lineBreak.2) else none

end ApiFolio.Yaml

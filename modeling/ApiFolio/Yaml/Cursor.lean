import ApiFolio.Text.Basic

/-!
# Places in a YAML text

The characters that a text may hold, those that part its lines and words, and a cursor that knows
its line and column. A carriage return with a line feed is one line break.
-/

namespace ApiFolio.Yaml

/-- Whether a text may hold the character. -/
def isAllowed (c : Char) : Bool :=
  let n := c.toNat
  n == 0x09 || n == 0x0A || n == 0x0D || (0x20 ≤ n && n ≤ 0x7E) || n == 0x85
    || (0xA0 ≤ n && n ≤ 0xD7FF) || (0xE000 ≤ n && n ≤ 0xFFFD) || 0x10000 ≤ n

def isBlank (c : Char) : Bool := c == ' ' || c == '\t'

def isBreak (c : Char) : Bool :=
  c == '\n' || c == '\r' || c == '\u0085' || c == '\u2028' || c == '\u2029'

def isNameChar (c : Char) : Bool := c.isAlphanum || c == '_' || c == '-'

/-- Whether a blank, a line break or the end comes next. -/
def endsWord : List Char → Bool
  | [] => true
  | c :: _ => isBlank c || isBreak c

/-- Whether a line break or the end comes next. -/
def endsLine : List Char → Bool
  | [] => true
  | c :: _ => isBreak c

/-- A place in a text. -/
structure Cursor where
  /-- The number of characters of the whole text, which no walk over it exceeds. -/
  size : Nat
  /-- The text from here on. -/
  rest : List Char
  /-- The number of bytes before. -/
  index : Nat := 0
  line : Nat := 0
  /-- The number of characters before on the line. -/
  column : Nat := 0
deriving Inhabited

namespace Cursor

/-- The start of a text. -/
def ofText (cs : List Char) : Cursor := { size := cs.length, rest := cs }

def head? (c : Cursor) : Option Char := c.rest.head?

/-- The number of bytes of some characters. -/
def byteLength (cs : List Char) : Nat := cs.foldl (fun n c => n + c.utf8Size) 0

/-- Past some characters of the line. -/
def skip (c : Cursor) (n : Nat) : Cursor :=
  { c with
    rest := c.rest.drop n, index := c.index + byteLength (c.rest.take n), column := c.column + n }

/-- The characters of the line up to the first that fails a test, and the place after them. -/
def span (c : Cursor) (p : Char → Bool) : List Char × Cursor :=
  let taken := c.rest.takeWhile p
  (taken, c.skip taken.length)

/-- Past the characters of the line that pass a test. -/
def skipWhile (c : Cursor) (p : Char → Bool) : Cursor := (c.span p).2

/-- Past a line break, with the text that the break stands for: a line feed, or itself if it is a
separator of lines or paragraphs. Where there is no break, nothing is passed. -/
def lineBreak (c : Cursor) : List Char × Cursor :=
  match c.rest with
  | '\r' :: '\n' :: rest =>
    (['\n'], { c with rest, index := c.index + 2, line := c.line + 1, column := 0 })
  | b :: rest =>
    let next := { c with rest, index := c.index + b.utf8Size, line := c.line + 1, column := 0 }
    if b = '\u2028' ∨ b = '\u2029' then ([b], next)
    else if isBreak b then (['\n'], next)
    else ([], c)
  | [] => ([], c)

/-- Whether the line starts here with three of a mark, as the limits of documents do. -/
def atTriple (c : Cursor) (mark : Char) : Bool :=
  c.column == 0 &&
    match c.rest with
    | a :: b :: d :: rest => a == mark && b == mark && d == mark && endsWord rest
    | _ => false

/-- Whether a limit of documents stands here. -/
def atDocumentLimit (c : Cursor) : Bool := c.atTriple '-' || c.atTriple '.'

end Cursor

end ApiFolio.Yaml

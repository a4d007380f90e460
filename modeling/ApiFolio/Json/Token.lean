import ApiFolio.Json.Basic
import ApiFolio.Number.Read

/-!
# The tokens of a JSON text

The scanner walks over the characters once. Strings come out with their escapes resolved; a
surrogate half that stands alone, a raw control character and an unknown escape are refused, as
is a word that is neither a number nor one of `null`, `true` and `false`.
-/

namespace ApiFolio.Json

/-- A token of a JSON text. -/
inductive Token where
  | openArray
  | closeArray
  | openObject
  | closeObject
  | comma
  | colon
  | text (s : String)
  /-- A number, a truth value or null. -/
  | atom (v : Json)

namespace Token

/-- What the scanner is inside of; characters gathered so far stand last first. -/
inductive Mode where
  | between
  | word (seen : List Char)
  | text (seen : List Char)
  | escape (seen : List Char)
  /-- In the four digits of a code unit, after the high half of a pair if there is one. -/
  | code (seen : List Char) (high : Option Nat) (value count : Nat)
  /-- After the high half of a surrogate pair, before the backslash of the low half. -/
  | lowHalf (seen : List Char) (high : Nat)
  /-- After the backslash of the low half. -/
  | lowHalfMark (seen : List Char) (high : Nat)

/-- The scanner: its mode, and the tokens found so far, last first. -/
structure Scanner where
  mode : Mode
  /-- The tokens found, last first. -/
  found : List Token

/-- White space between tokens. -/
def isSpace (c : Char) : Bool := c == ' ' || c == '\t' || c == '\n' || c == '\r'

/-- The characters of numbers and names. -/
def isWord (c : Char) : Bool := c.isAlphanum || c == '+' || c == '-' || c == '.'

/-- The token of a single punctuation character. -/
def ofPunctuation? (c : Char) : Option Token :=
  if c = '[' then some openArray
  else if c = ']' then some closeArray
  else if c = '{' then some openObject
  else if c = '}' then some closeObject
  else if c = ',' then some comma
  else if c = ':' then some colon
  else none

/-- The value of a word. -/
def ofWord? (cs : List Char) : Option Json :=
  if cs = ['n', 'u', 'l', 'l'] then some .null
  else if cs = ['t', 'r', 'u', 'e'] then some (.bool true)
  else if cs = ['f', 'a', 'l', 's', 'e'] then some (.bool false)
  else (Number.read? cs).map .num

/-- The character of a one-letter escape. -/
def ofEscape? (c : Char) : Option Char :=
  if c = '"' ∨ c = '\\' ∨ c = '/' then some c
  else if c = 'b' then some '\x08'
  else if c = 'f' then some '\x0c'
  else if c = 'n' then some '\n'
  else if c = 'r' then some '\r'
  else if c = 't' then some '\t'
  else none

/-- The scanner between tokens, before one more character. -/
def start? (found : List Token) (c : Char) : Option Scanner :=
  if isSpace c then some ⟨.between, found⟩
  else if c = '"' then some ⟨.text [], found⟩
  else if isWord c then some ⟨.word [c], found⟩
  else (ofPunctuation? c).map fun t => ⟨.between, t :: found⟩

/-- A code unit of a string is complete: half of a pair, or a character. -/
def codeUnit? (found : List Token) (seen : List Char) (high : Option Nat) (unit : Nat) :
    Option Scanner :=
  match high with
  | some h =>
    if 0xDC00 ≤ unit ∧ unit ≤ 0xDFFF then
      some ⟨.text (Char.ofNat (0x10000 + (h - 0xD800) * 0x400 + (unit - 0xDC00)) :: seen), found⟩
    else none
  | none =>
    if 0xD800 ≤ unit ∧ unit ≤ 0xDBFF then some ⟨.lowHalf seen unit, found⟩
    else if 0xDC00 ≤ unit ∧ unit ≤ 0xDFFF then none
    else some ⟨.text (Char.ofNat unit :: seen), found⟩

/-- One character more. -/
def step? (s : Scanner) (c : Char) : Option Scanner :=
  match s.mode with
  | .between => start? s.found c
  | .word seen =>
    if isWord c then some ⟨.word (c :: seen), s.found⟩
    else do
      let v ← ofWord? seen.reverse
      start? (atom v :: s.found) c
  | .text seen =>
    if c = '"' then some ⟨.between, text (String.ofList seen.reverse) :: s.found⟩
    else if c = '\\' then some ⟨.escape seen, s.found⟩
    else if c.toNat < 0x20 then none
    else some ⟨.text (c :: seen), s.found⟩
  | .escape seen =>
    if c = 'u' then some ⟨.code seen none 0 0, s.found⟩
    else (ofEscape? c).map fun e => ⟨.text (e :: seen), s.found⟩
  | .code seen high value count => do
    let d ← Text.hexValue? c
    if count = 3 then codeUnit? s.found seen high (16 * value + d)
    else some ⟨.code seen high (16 * value + d) (count + 1), s.found⟩
  | .lowHalf seen high => if c = '\\' then some ⟨.lowHalfMark seen high, s.found⟩ else none
  | .lowHalfMark seen high =>
    if c = 'u' then some ⟨.code seen (some high) 0 0, s.found⟩ else none

/-- The tokens at the end of the text. -/
def finish? (s : Scanner) : Option (List Token) :=
  match s.mode with
  | .between => some s.found.reverse
  | .word seen => (ofWord? seen.reverse).map fun v => (atom v :: s.found).reverse
  | _ => none

def scan? (cs : List Char) : Option (List Token) :=
  cs.foldlM step? ⟨.between, []⟩ >>= finish?

end Token

end ApiFolio.Json

/-!
# Words on text

White space as Unicode defines it, cutting at the ends, splitting at a separator, and taking a
known beginning off. The work is done on lists of characters.
-/

namespace ApiFolio.Text

/-- The characters with the Unicode property White_Space. -/
def isBlank (c : Char) : Bool :=
  let n := c.toNat
  (9 ≤ n && n ≤ 13) || n == 0x20 || n == 0x85 || n == 0xA0 || n == 0x1680
    || (0x2000 ≤ n && n ≤ 0x200A) || n == 0x2028 || n == 0x2029 || n == 0x202F || n == 0x205F
    || n == 0x3000

/-- The characters without the blank ones at the start. -/
def trimStartChars (cs : List Char) : List Char := cs.dropWhile isBlank

/-- The characters without the blank ones at both ends. -/
def trimChars (cs : List Char) : List Char :=
  (trimStartChars (trimStartChars cs).reverse).reverse

/-- The text without the white space at its start. -/
def trimStart (s : String) : String := String.ofList (trimStartChars s.toList)

def trim (s : String) : String := String.ofList (trimChars s.toList)

/-- The text without the white space at its end. -/
def trimEnd (s : String) : String := String.ofList (trimStartChars s.toList.reverse).reverse

def isBlankText (s : String) : Bool := s.toList.all isBlank

/-- The characters between the separators; `n` separators give `n + 1` pieces. -/
def splitChars (separator : Char) : List Char → List (List Char)
  | [] => [[]]
  | c :: cs =>
    if c = separator then [] :: splitChars separator cs
    else
      match splitChars separator cs with
      | [] => [[c]]
      | piece :: pieces => (c :: piece) :: pieces

/-- The pieces of a text between the separators. -/
def split (separator : Char) (s : String) : List String :=
  (splitChars separator s.toList).map String.ofList

/-- What follows a known beginning, if the characters have it. -/
def dropChars? : List Char → List Char → Option (List Char)
  | [], cs => some cs
  | _ :: _, [] => none
  | b :: bs, c :: cs => if b = c then dropChars? bs cs else none

/-- What follows a known beginning, if the text has it. -/
def dropBeginning? (beginning s : String) : Option String :=
  (dropChars? beginning.toList s.toList).map String.ofList

def startsWith (beginning s : String) : Bool := beginning.toList.isPrefixOf s.toList

/-- Whether `part` stands somewhere in the list. -/
def hasInfix (part : List Char) : List Char → Bool
  | [] => part.isEmpty
  | c :: cs => part.isPrefixOf (c :: cs) || hasInfix part cs

/-- The characters before the first place where `part` stands, or all of them. -/
def beforeInfix (part : List Char) : List Char → List Char
  | [] => []
  | c :: cs => if part.isPrefixOf (c :: cs) then [] else c :: beforeInfix part cs

def join (separator : String) (parts : List String) : String := separator.intercalate parts

def hexDigit (n : Nat) : Char :=
  if n < 10 then Char.ofNat (48 + n) else Char.ofNat (87 + n)

/-- The digits of a number in a base of two to sixteen, most significant first. -/
def digits (base n : Nat) : List Char :=
  if _h : base < 2 ∨ n < base then [hexDigit n]
  else digits base (n / base) ++ [hexDigit (n % base)]
termination_by n
decreasing_by exact Nat.div_lt_self (by omega) (by omega)

/-- The value of a hexadecimal digit. -/
def hexValue? (c : Char) : Option Nat :=
  let n := c.toNat
  if 48 ≤ n && n ≤ 57 then some (n - 48)
  else if 97 ≤ n && n ≤ 102 then some (n - 87)
  else if 65 ≤ n && n ≤ 70 then some (n - 55)
  else none

def isDigit (c : Char) : Bool := '0' ≤ c && c ≤ '9'

/-- The number that a list of decimal digits writes. -/
def decimalValue (ds : List Char) : Nat :=
  ds.foldl (fun n d => 10 * n + (d.toNat - 48)) 0

/-- The text with the ASCII capitals made small. -/
def lowerAscii (s : String) : String := String.ofList (s.toList.map Char.toLower)

end ApiFolio.Text

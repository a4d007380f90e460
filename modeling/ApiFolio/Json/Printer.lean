import ApiFolio.Json.Basic

/-!
# Writing JSON

Two layouts of one value: compact, without any space, and indented by two spaces a level, where
empty arrays and objects stay on their line. Strings escape the quote, the backslash and the
controls below the space, and nothing else.
-/

namespace ApiFolio.Json

/-- How one character stands in a string. -/
def escapedChar (c : Char) : List Char :=
  if c = '"' then ['\\', '"']
  else if c = '\\' then ['\\', '\\']
  else if c = '\x08' then ['\\', 'b']
  else if c = '\x0c' then ['\\', 'f']
  else if c = '\n' then ['\\', 'n']
  else if c = '\r' then ['\\', 'r']
  else if c = '\t' then ['\\', 't']
  else if c.toNat < 0x20 then
    ['\\', 'u', '0', '0', Text.hexDigit (c.toNat / 16), Text.hexDigit (c.toNat % 16)]
  else [c]

def quoted (s : String) : String :=
  String.ofList ('"' :: (s.toList.flatMap escapedChar ++ ['"']))

/-- The text in braces. -/
def inBraces (s : String) : String := String.singleton '{' ++ s ++ String.singleton '}'

mutual

/-- The value without any space. -/
def compact : Json → String
  | null => "null"
  | bool b => if b then "true" else "false"
  | num n => n.text
  | str s => quoted s
  | arr items => "[" ++ Text.join "," (compactItems items) ++ "]"
  | obj members => inBraces (Text.join "," (compactMembers members))

def compactItems : List Json → List String
  | [] => []
  | v :: vs => compact v :: compactItems vs

def compactMembers : List (String × Json) → List String
  | [] => []
  | (k, v) :: rest => (quoted k ++ ":" ++ compact v) :: compactMembers rest

end

/-- The start of a line at a level. -/
def margin (level : Nat) : String := String.ofList (List.replicate (2 * level) ' ')

mutual

/-- The value over several lines, its first line at the end of the line before. -/
def indented (level : Nat) : Json → String
  | null => "null"
  | bool b => if b then "true" else "false"
  | num n => n.text
  | str s => quoted s
  | arr [] => "[]"
  | arr (v :: vs) =>
    "[\n" ++ Text.join ",\n" (indentedItems (level + 1) (v :: vs)) ++ "\n" ++ margin level ++ "]"
  | obj [] => "{}"
  | obj (m :: ms) =>
    inBraces ("\n" ++ Text.join ",\n" (indentedMembers (level + 1) (m :: ms)) ++ "\n"
      ++ margin level)

def indentedItems (level : Nat) : List Json → List String
  | [] => []
  | v :: vs => (margin level ++ indented level v) :: indentedItems level vs

def indentedMembers (level : Nat) : List (String × Json) → List String
  | [] => []
  | (k, v) :: rest =>
    (margin level ++ quoted k ++ ": " ++ indented level v) :: indentedMembers level rest

end

/-- The value in the layout that is asked for. -/
def render (pretty : Bool) (v : Json) : String := if pretty then indented 0 v else compact v

end ApiFolio.Json

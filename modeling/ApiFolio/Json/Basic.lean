import ApiFolio.Dict
import ApiFolio.Number.Text

/-!
# JSON values

The values of a document before they have a meaning. Readers give objects in key order with each
key once (`Json.canonical` brings any value into this form); writers of typed data give the
members in the order of their declaration.
-/

namespace ApiFolio

/-- A JSON value. -/
inductive Json where
  | null
  | bool (b : Bool)
  | num (n : Number)
  | str (s : String)
  | arr (items : List Json)
  | obj (members : List (String × Json))
deriving Inhabited

namespace Json

/-- What kind of value this is, in words. -/
def kind : Json → String
  | null => "null"
  | bool _ => "a boolean"
  | num _ => "a number"
  | str _ => "a string"
  | arr _ => "an array"
  | obj _ => "an object"

def members? : Json → Option (List (String × Json))
  | obj members => some members
  | _ => none

def items? : Json → Option (List Json)
  | arr items => some items
  | _ => none

def text? : Json → Option String
  | str s => some s
  | _ => none

def bool? : Json → Option Bool
  | bool b => some b
  | _ => none

def get? (name : String) : Json → Option Json
  | obj members => Entries.get? name members
  | _ => none

def isText : Json → Bool
  | str _ => true
  | _ => false

/-- The text of a scalar; null, lists and objects have the empty text. -/
def scalarText : Json → String
  | str s => s
  | num n => n.text
  | bool b => if b then "true" else "false"
  | _ => ""

mutual

/-- The same value with the members of every object in key order, of equal keys the last. -/
def canonical : Json → Json
  | arr items => arr (canonicalItems items)
  | obj members => obj (Entries.sort (canonicalMembers members))
  | null => null
  | bool b => bool b
  | num n => num n
  | str s => str s

def canonicalItems : List Json → List Json
  | [] => []
  | v :: vs => canonical v :: canonicalItems vs

def canonicalMembers : List (String × Json) → List (String × Json)
  | [] => []
  | (k, v) :: rest => (k, canonical v) :: canonicalMembers rest

end

end Json

end ApiFolio

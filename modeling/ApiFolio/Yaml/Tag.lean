import ApiFolio.Text.Basic

/-!
# Tags

A tag is written as bytes, as escapes need not spell characters; it ends before the first byte that
is zero. Tags of one's own start with an exclamation mark.
-/

namespace ApiFolio.Yaml

def bytesOf (cs : List Char) : List UInt8 := cs.flatMap String.utf8EncodeChar

/-- The bytes before the first that is zero. -/
def beforeNul (bytes : List UInt8) : List UInt8 := bytes.takeWhile (· != 0)

/-- What the tag of a node says of its value. -/
inductive Tag where
  /-- It is kept around the value, by its name without the first exclamation mark. -/
  | own (name : String)
  /-- A tag of one's own whose name is no text says nothing. -/
  | nameless
  | bool
  | int
  | float
  | null
  /-- Any other tag: scalars are texts. -/
  | other
deriving DecidableEq, Inhabited

namespace Tag

/-- The tags that ask for a kind of scalar. -/
def standard : List (String × Tag) :=
  [("tag:yaml.org,2002:bool", bool), ("tag:yaml.org,2002:int", int),
    ("tag:yaml.org,2002:float", float), ("tag:yaml.org,2002:null", null)]

/-- The tag of a text. A lone exclamation mark is a name itself. -/
def ofText (s : String) : Tag :=
  match s.toList with
  | ['!'] => own "!"
  | '!' :: name => own (String.ofList name)
  | _ => ((standard.find? fun e => e.1 = s).map (·.2)).getD other

/-- The tag of some bytes. -/
def ofBytes (bytes : List UInt8) : Tag :=
  match String.fromUTF8? (ByteArray.mk bytes.toArray) with
  | some s => ofText s
  | none => if bytes.head? = some 0x21 then nameless else other

end Tag

end ApiFolio.Yaml

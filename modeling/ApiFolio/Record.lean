import ApiFolio.Json.Basic

/-!
# Records in JSON

How typed records are read from JSON and written to it. A record is read from an object, by the
names of its fields, names it does not know being passed over; a record that keeps no unknown
names is also read from an array that gives the fields in the order of their declaration. A field
that is absent or null has no value, where a value is not required.
-/

namespace ApiFolio

/-- The fields of a record in the order of their declaration; with each, whether an array may end
before it. -/
abbrev Layout := List (String × Bool)

namespace Record

universe u

variable {α : Type u}

/-- The members that an array gives to the fields of a layout. -/
def zip? : Layout → List Json → Option (List (String × Json))
  | [], [] => some []
  | [], _ :: _ => none
  | (name, _) :: fields, v :: vs => (zip? fields vs).map ((name, v) :: ·)
  | fields, [] => if fields.all (·.2) then some [] else none

/-- The members of a record that is written as an object or as an array. -/
def members? (layout : Layout) : Json → Option (List (String × Json))
  | .obj members => some members
  | .arr items => zip? layout items
  | _ => none

/-- A text that may be written as any scalar; what is absent or no scalar is empty. -/
def scalarText (members : List (String × Json)) (name : String) : String :=
  ((Entries.get? name members).map Json.scalarText).getD ""

/-- A value that must read if it is present, and has a default otherwise. -/
def withDefault? (members : List (String × Json)) (name : String) (default : α)
    (read : Json → Option α) : Option α :=
  match Entries.get? name members with
  | none => some default
  | some v => read v

/-- A string, empty when it is absent. -/
def string? (members : List (String × Json)) (name : String) : Option String :=
  withDefault? members name "" Json.text?

/-- A value that may be absent or null. -/
def optional? (members : List (String × Json)) (name : String) (read : Json → Option α) :
    Option (Option α) :=
  match Entries.get? name members with
  | none => some none
  | some .null => some none
  | some v => (read v).map some

/-- A string that may be absent or null. -/
def optionalString? (members : List (String × Json)) (name : String) : Option (Option String) :=
  optional? members name Json.text?

/-- A truth value that may be absent or null. -/
def optionalBool? (members : List (String × Json)) (name : String) : Option (Option Bool) :=
  optional? members name Json.bool?

/-- A value of any shape; null counts as absent. -/
def value (members : List (String × Json)) (name : String) : Option Json :=
  match Entries.get? name members with
  | none => none
  | some .null => none
  | some v => some v

/-- Reads the items of an array. -/
def readList? (read : Json → Option α) : Json → Option (List α)
  | .arr items => items.mapM read
  | _ => none

/-- Reads the members of an object. -/
def readDict? (read : Json → Option α) : Json → Option (Dict α)
  | .obj members => (Entries.traverse read members).map Dict.ofList
  | _ => none

/-- A list, empty when it is absent. -/
def list? (members : List (String × Json)) (name : String) (read : Json → Option α) :
    Option (List α) :=
  withDefault? members name [] (readList? read)

/-- A table, empty when it is absent. -/
def dict? (members : List (String × Json)) (name : String) (read : Json → Option α) :
    Option (Dict α) :=
  withDefault? members name ∅ (readDict? read)

/-- A list of strings, empty when it is absent. -/
def strings? (members : List (String × Json)) (name : String) : Option (List String) :=
  list? members name Json.text?

/-- The members under names that the layout does not know. -/
def unknown (layout : Layout) (members : List (String × Json)) : Dict Json :=
  Dict.ofList (members.filter fun m => (Entries.get? m.1 layout).isNone)

/-- One member. -/
def put (name : String) (v : Json) : List (String × Json) := [(name, v)]

/-- One member, unless there is no value. -/
def putOption (name : String) (write : α → Json) : Option α → List (String × Json)
  | none => []
  | some x => [(name, write x)]

/-- A list, unless it is empty. -/
def putList (name : String) (write : α → Json) : List α → List (String × Json)
  | [] => []
  | x :: xs => [(name, .arr (write x :: xs.map write))]

/-- The object of a table. -/
def writeDict (write : α → Json) (table : Dict α) : Json :=
  .obj (Entries.mapValues write table.entries)

/-- A table, unless it is empty. -/
def putDict (name : String) (write : α → Json) (table : Dict α) : List (String × Json) :=
  if table.isEmpty then [] else [(name, writeDict write table)]

end Record

end ApiFolio

import ApiFolio.Record

/-!
# Schemas

A schema keeps the keywords that the library works with in fields and every other member in
`extra`. A null keyword counts as absent. The value of `additionalProperties` stays as it is
written, beside the schema that it may be.
-/

namespace ApiFolio.OpenApi

/-- A schema of the format. -/
structure Schema where
  ref : Option String := none
  /-- A name of a type or several. -/
  type : Option Json := none
  format : Option String := none
  title : Option String := none
  description : Option String := none
  /-- The value that an absent one stands for. -/
  default : Option Json := none
  sample : Option Json := none
  choices : Option (List Json) := none
  nullable : Option Bool := none
  deprecated : Option Bool := none
  readOnly : Option Bool := none
  writeOnly : Option Bool := none
  /-- The names of the properties that must be present, in whatever form they are written. -/
  required : Option Json := none
  /-- The schemas of the properties, in the order of their names. -/
  properties : List (String × Schema) := []
  /-- What other properties may be: the value as written, and the schema it is, if it is one. -/
  additional : Option (Json × Option Schema) := none
  items : Option Schema := none
  allOf : Option (List Schema) := none
  anyOf : Option (List Schema) := none
  oneOf : Option (List Schema) := none
  /-- The schema that does not hold. -/
  excluded : Option Schema := none
  /-- Every other member. -/
  extra : Dict Json := ∅

namespace Schema

/-- The keywords that have a field of their own. -/
inductive Keyword where
  | ref | type | format | title | description | default | sample | choices | nullable | deprecated
  | readOnly | writeOnly | required | properties | additional | items | allOf | anyOf | oneOf
  | excluded
deriving DecidableEq, Repr

def Keyword.name : Keyword → String
  | ref => "$ref"
  | type => "type"
  | format => "format"
  | title => "title"
  | description => "description"
  | default => "default"
  | sample => "example"
  | choices => "enum"
  | nullable => "nullable"
  | deprecated => "deprecated"
  | readOnly => "readOnly"
  | writeOnly => "writeOnly"
  | required => "required"
  | properties => "properties"
  | additional => "additionalProperties"
  | items => "items"
  | allOf => "allOf"
  | anyOf => "anyOf"
  | oneOf => "oneOf"
  | excluded => "not"

/-- All keywords, in the order in which they are written. -/
def Keyword.all : List Keyword :=
  [ref, type, format, title, description, default, sample, choices, nullable, deprecated, readOnly,
    writeOnly, required, properties, additional, items, allOf, anyOf, oneOf, excluded]

def Keyword.ofName? (name : String) : Option Keyword := Keyword.all.find? fun k => k.name = name

/-- A schema that only points at another. -/
def pointingTo (pointer : String) : Schema := { ref := some pointer }

/-- A schema that only names a type. -/
def ofType (name : String) : Schema := { type := some (.str name) }

/-! ## Reading -/

/-- A value of any shape; null counts as absent. -/
def present : Json → Option Json
  | .null => none
  | v => some v

/-- A value that reads, or null, which counts as absent. -/
def presentAs? {α : Type} (read : Json → Option α) : Json → Option (Option α)
  | .null => some none
  | v => (read v).map some

mutual

def ofJson? : Json → Option Schema
  | .obj members => ofMembers? members
  | _ => none

/-- Reads the members of a schema; the first of several with one name counts. -/
def ofMembers? : List (String × Json) → Option Schema
  | [] => some {}
  | (name, v) :: rest => do
    let s ← ofMembers? rest
    match Keyword.ofName? name with
    | none => return { s with extra := s.extra.insert name v }
    | some .ref => (presentAs? Json.text? v).map fun x => { s with ref := x }
    | some .type => return { s with type := present v }
    | some .format => (presentAs? Json.text? v).map fun x => { s with format := x }
    | some .title => (presentAs? Json.text? v).map fun x => { s with title := x }
    | some .description => (presentAs? Json.text? v).map fun x => { s with description := x }
    | some .default => return { s with default := present v }
    | some .sample => return { s with sample := present v }
    | some .choices => (presentAs? Json.items? v).map fun x => { s with choices := x }
    | some .nullable => (presentAs? Json.bool? v).map fun x => { s with nullable := x }
    | some .deprecated => (presentAs? Json.bool? v).map fun x => { s with deprecated := x }
    | some .readOnly => (presentAs? Json.bool? v).map fun x => { s with readOnly := x }
    | some .writeOnly => (presentAs? Json.bool? v).map fun x => { s with writeOnly := x }
    | some .required => return { s with required := present v }
    | some .properties =>
      match v with
      | .obj members => (ofProperties? members).map fun x => { s with properties := x }
      | _ => none
    | some .additional =>
      match v with
      | .null => return { s with additional := none }
      | _ => return { s with additional := some (v, ofJson? v) }
    | some .items =>
      match v with
      | .null => return { s with items := none }
      | _ => (ofJson? v).map fun x => { s with items := some x }
    | some .allOf =>
      match v with
      | .null => return { s with allOf := none }
      | .arr vs => (ofItems? vs).map fun x => { s with allOf := some x }
      | _ => none
    | some .anyOf =>
      match v with
      | .null => return { s with anyOf := none }
      | .arr vs => (ofItems? vs).map fun x => { s with anyOf := some x }
      | _ => none
    | some .oneOf =>
      match v with
      | .null => return { s with oneOf := none }
      | .arr vs => (ofItems? vs).map fun x => { s with oneOf := some x }
      | _ => none
    | some .excluded =>
      match v with
      | .null => return { s with excluded := none }
      | _ => (ofJson? v).map fun x => { s with excluded := some x }

def ofProperties? : List (String × Json) → Option (List (String × Schema))
  | [] => some []
  | (name, v) :: rest => do
    let s ← ofJson? v
    let others ← ofProperties? rest
    return Entries.insert name s others

def ofItems? : List Json → Option (List Schema)
  | [] => some []
  | v :: rest => do
    let s ← ofJson? v
    let others ← ofItems? rest
    return s :: others

end

/-! ## Writing -/

mutual

/-- The members of a schema: its keywords in their order, then every other member. -/
def toMembers : Schema → List (String × Json)
  | .mk ref type format title description default sample choices nullable deprecated readOnly
      writeOnly required properties additional items allOf anyOf oneOf excluded extra =>
    Record.putOption Keyword.ref.name .str ref
      ++ Record.putOption Keyword.type.name id type
      ++ Record.putOption Keyword.format.name .str format
      ++ Record.putOption Keyword.title.name .str title
      ++ Record.putOption Keyword.description.name .str description
      ++ Record.putOption Keyword.default.name id default
      ++ Record.putOption Keyword.sample.name id sample
      ++ Record.putOption Keyword.choices.name .arr choices
      ++ Record.putOption Keyword.nullable.name .bool nullable
      ++ Record.putOption Keyword.deprecated.name .bool deprecated
      ++ Record.putOption Keyword.readOnly.name .bool readOnly
      ++ Record.putOption Keyword.writeOnly.name .bool writeOnly
      ++ Record.putOption Keyword.required.name id required
      ++ (if properties.isEmpty then []
          else [(Keyword.properties.name, .obj (toPropertyMembers properties))])
      ++ Record.putOption Keyword.additional.name (fun v => v.1) additional
      ++ toOptionMember Keyword.items.name items
      ++ toListMember Keyword.allOf.name allOf
      ++ toListMember Keyword.anyOf.name anyOf
      ++ toListMember Keyword.oneOf.name oneOf
      ++ toOptionMember Keyword.excluded.name excluded
      ++ extra.entries

/-- The member of a schema that may be absent. -/
def toOptionMember (name : String) : Option Schema → List (String × Json)
  | none => []
  | some s => [(name, .obj (toMembers s))]

/-- The member of a list of schemas that may be absent. -/
def toListMember (name : String) : Option (List Schema) → List (String × Json)
  | none => []
  | some schemas => [(name, .arr (toItems schemas))]

def toItems : List Schema → List Json
  | [] => []
  | s :: rest => .obj (toMembers s) :: toItems rest

def toPropertyMembers : List (String × Schema) → List (String × Json)
  | [] => []
  | (name, s) :: rest => (name, .obj (toMembers s)) :: toPropertyMembers rest

end

def toJson (s : Schema) : Json := .obj s.toMembers

/-- Whether the schema says nothing at all. -/
def isEmpty (s : Schema) : Bool := s.toMembers.isEmpty

/-! ## The schemas inside a schema -/

mutual

/-- The schema and all schemas below it, each before those inside it: those of the items, the
properties, the combinations, the exclusion and the additional properties, in this order. -/
def nested : Schema → List Schema
  | s@(.mk _ _ _ _ _ _ _ _ _ _ _ _ _ properties additional items allOf anyOf oneOf excluded _) =>
    s :: (nestedOption items ++ nestedProperties properties ++ nestedLists allOf
      ++ nestedLists anyOf ++ nestedLists oneOf ++ nestedOption excluded
      ++ nestedAdditional additional)

def nestedOption : Option Schema → List Schema
  | none => []
  | some s => nested s

def nestedProperties : List (String × Schema) → List Schema
  | [] => []
  | (_, s) :: rest => nested s ++ nestedProperties rest

def nestedLists : Option (List Schema) → List Schema
  | none => []
  | some schemas => nestedItems schemas

def nestedItems : List Schema → List Schema
  | [] => []
  | s :: rest => nested s ++ nestedItems rest

/-- The schemas in the additional properties, if their value is a schema. -/
def nestedAdditional : Option (Json × Option Schema) → List Schema
  | none => []
  | some (_, none) => []
  | some (_, some s) => nested s

end

/-- The pointers of the schema and of all schemas below it. -/
def pointers (s : Schema) : List String := s.nested.filterMap (·.ref)

end Schema

end ApiFolio.OpenApi

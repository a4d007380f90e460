import ApiFolio.Export.Item
import ApiFolio.OpenApi.Aliases
import ApiFolio.OpenApi.Components

/-!
# Folders of reusable schemas

The schemas, responses and request bodies among the components, one folder for each area that has
any to show. Entries that say nothing are left out, and so are request bodies whose chain of
aliases has no end.
-/

namespace ApiFolio.Export

open OpenApi

/-- A description, unless it is empty. -/
def nonEmpty? (s : String) : Option String := if s.isEmpty then none else some s

/-- The aliases among the request bodies: entries that are pointers themselves. -/
def bodyAliases (components : Components) : Aliases :=
  components.requestBodies.entries.foldl (fun aliases e =>
    match e.2 with
    | .ref target => aliases.record (Pointer.component "requestBodies" e.1) target
    | .item _ => aliases) {}

/-- The aliases among the request bodies of components that may be absent. -/
def bodyAliasesOf : Option Components → Aliases
  | none => {}
  | some components => bodyAliases components

/-- The item of a schema, unless it says nothing. -/
def schemaItem? (name : String) (schema : Schema) : Option SchemaItem :=
  if schema.isEmpty then none
  else
    some {
      id := Pointer.component "schemas" name, name, description := schema.description,
      jsonSchema := some schema }

/-- The item of a response, unless it says nothing. -/
def responseItem? (name : String) : Referable Response → Option SchemaItem
  | .ref pointer =>
    some {
      id := Pointer.component "responses" name, name, description := none,
      jsonSchema := some (.pointingTo pointer) }
  | .item response =>
    if response.description.isEmpty && response.content.isEmpty then none
    else
      some {
        id := Pointer.component "responses" name, name,
        description := nonEmpty? response.description, jsonSchema := response.content.firstSchema? }

/-- The item of a request body, unless it says nothing or its chain of aliases has no end. -/
def requestBodyItem? (ends : AliasEnds) (name : String) :
    Referable RequestBody → Option SchemaItem
  | .ref _ =>
    (ends.target? (Pointer.component "requestBodies" name)).map fun target => {
      id := Pointer.component "requestBodies" name, name, description := none,
      jsonSchema := some (.pointingTo target) }
  | .item body =>
    if (body.description.getD "").isEmpty && body.content.isEmpty then none
    else
      some {
        id := Pointer.component "requestBodies" name, name,
        description := nonEmpty? (body.description.getD ""),
        jsonSchema := body.content.firstSchema? }

/-- A folder with the items of a table, unless there are none. -/
def folder? {α : Type} (name : String) (item? : String → α → Option SchemaItem) (table : Dict α) :
    List SchemaFolder :=
  match table.entries.filterMap fun e => item? e.1 e.2 with
  | [] => []
  | item :: items => [{ name, items := item :: items }]

def schemaFolders (components : Components) (ends : AliasEnds) : List SchemaFolder :=
  folder? "Schemas" schemaItem? components.schemas
    ++ folder? "Response" responseItem? components.responses
    ++ folder? "RequestBodies" (requestBodyItem? ends) components.requestBodies

def schemaFoldersOf (components : Option Components) (ends : AliasEnds) : List SchemaFolder :=
  match components with
  | none => []
  | some components => schemaFolders components ends

end ApiFolio.Export

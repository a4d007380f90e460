import ApiFolio.OpenApi.Operation
import ApiFolio.OpenApi.Pointer
import ApiFolio.OpenApi.Security

/-!
# Components

The reusable parts of a document by area and name, and the look-up of a part by its pointer. An
entry that is itself a pointer is not followed.
-/

namespace ApiFolio.OpenApi

/-- The reusable parts of a document. -/
structure Components where
  schemas : Dict Schema := ∅
  responses : Dict (Referable Response) := ∅
  parameters : Dict (Referable Parameter) := ∅
  requestBodies : Dict (Referable RequestBody) := ∅
  securitySchemes : Dict (Referable SecurityScheme) := ∅
  /-- Every other member. -/
  extra : Dict Json := ∅
deriving Inhabited

namespace Components

def layout : Layout :=
  [("schemas", true), ("responses", true), ("parameters", true), ("requestBodies", true),
    ("securitySchemes", true)]

def ofJson? (v : Json) : Option Components := do
  let ms ← v.members?
  let schemas ← Record.dict? ms "schemas" Schema.ofJson?
  let responses ← Record.dict? ms "responses" (Referable.ofJson? Response.ofJson?)
  let parameters ← Record.dict? ms "parameters" Parameter.referable?
  let requestBodies ← Record.dict? ms "requestBodies" (Referable.ofJson? RequestBody.ofJson?)
  let securitySchemes ←
    Record.dict? ms "securitySchemes" (Referable.ofJson? SecurityScheme.ofJson?)
  return {
    schemas, responses, parameters, requestBodies, securitySchemes,
    extra := Record.unknown layout ms }

def toJson (x : Components) : Json :=
  .obj (Record.putDict "schemas" Schema.toJson x.schemas
    ++ Record.putDict "responses" (Referable.toJson Response.toJson) x.responses
    ++ Record.putDict "parameters" (Referable.toJson Parameter.toJson) x.parameters
    ++ Record.putDict "requestBodies" (Referable.toJson RequestBody.toJson) x.requestBodies
    ++ Record.putDict "securitySchemes" (Referable.toJson SecurityScheme.toJson) x.securitySchemes
    ++ x.extra.entries)

/-- The object that stands in a table under the name that a pointer into an area gives. -/
def lookUp? {α : Type} (area : String) (table : Dict (Referable α)) (pointer : String) :
    Option α := do
  let name ← Pointer.name? pointer area
  let entry ← table.get? name
  entry.item?

def parameter? (x : Components) (pointer : String) : Option Parameter :=
  lookUp? "parameters" x.parameters pointer

def response? (x : Components) (pointer : String) : Option Response :=
  lookUp? "responses" x.responses pointer

def requestBody? (x : Components) (pointer : String) : Option RequestBody :=
  lookUp? "requestBodies" x.requestBodies pointer

def securityScheme? (x : Components) (pointer : String) : Option SecurityScheme :=
  lookUp? "securitySchemes" x.securitySchemes pointer

end Components

end ApiFolio.OpenApi

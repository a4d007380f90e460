import ApiFolio.Json.Basic
import ApiFolio.OpenApi.Pointer

/-!
# Moving pointers

In version 2 of the format, definitions, parameters and responses stand at the top of the
document. Pointers to them are moved to where these parts stand in version 3: pointers to
parameters that are the body of a request go to the request bodies.
-/

namespace ApiFolio.Swagger

/-- The names of the parameters at the top that are the body of a request. -/
def bodyParameterNames (raw : Json) : List String :=
  match raw.get? "parameters" with
  | some (.obj members) =>
    (members.filter fun m => (m.2.get? "in" >>= Json.text?) = some "body").map (·.1)
  | _ => []

/-- Where a pointer points in version 3. -/
def movePointer (bodies : List String) (pointer : String) : String :=
  match Text.dropBeginning? "#/definitions/" pointer with
  | some token => OpenApi.Pointer.areaRoot "schemas" ++ token
  | none =>
    match Text.dropBeginning? "#/parameters/" pointer with
    | some token =>
      if bodies.contains (OpenApi.Pointer.unescapeText token) then
        OpenApi.Pointer.areaRoot "requestBodies" ++ token
      else OpenApi.Pointer.areaRoot "parameters" ++ token
    | none =>
      match Text.dropBeginning? "#/responses/" pointer with
      | some token => OpenApi.Pointer.areaRoot "responses" ++ token
      | none => pointer

mutual

/-- Moves the strings under `$ref` at every depth. -/
def movePointers (bodies : List String) : Json → Json
  | .obj members => .obj (movePointersMembers bodies members)
  | .arr items => .arr (movePointersItems bodies items)
  | v => v

def movePointersItems (bodies : List String) : List Json → List Json
  | [] => []
  | v :: rest => movePointers bodies v :: movePointersItems bodies rest

def movePointersMembers (bodies : List String) : List (String × Json) → List (String × Json)
  | [] => []
  | (key, .str s) :: rest =>
    (key, .str (if key = "$ref" then movePointer bodies s else s))
      :: movePointersMembers bodies rest
  | (key, v) :: rest => (key, movePointers bodies v) :: movePointersMembers bodies rest

end

end ApiFolio.Swagger

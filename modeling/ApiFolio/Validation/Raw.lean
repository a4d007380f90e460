import ApiFolio.Json.Basic
import ApiFolio.Validation.Issue

/-!
# Checks on the raw document

Versions, titles and other texts may be written as any scalar and are read as text. Where one is
not written as a string, that is an issue.
-/

namespace ApiFolio.Validation

/-- An issue if a value is present and is not a string. -/
def expectText (location : String) : Option Json → List Issue
  | none => []
  | some (.str _) => []
  | some v => [⟨location, "expected a string, found " ++ v.kind⟩]

/-- The members of an object, in key order; none if there is no object. -/
def membersOf (v : Option Json) : List (String × Json) :=
  match v with
  | some (.obj members) => members
  | _ => []

/-- The items of an array; none if there is no array. -/
def itemsOf (v : Option Json) : List Json :=
  match v with
  | some (.arr items) => items
  | _ => []

/-- The issues of the raw form of a server. -/
def rawServer (index : Nat) (server : Json) : List Issue :=
  let place := indexed "servers" index
  expectText (place ++ ".url") (server.get? "url")
    ++ (membersOf (server.get? "variables")).flatMap fun m =>
      expectText (place ++ ".variables." ++ m.1 ++ ".default") (m.2.get? "default")

/-- The issues of the raw form of a document. -/
def raw (v : Json) : List Issue :=
  let info (name : String) := v.get? "info" >>= Json.get? name
  expectText "openapi" (v.get? "openapi") ++ expectText "swagger" (v.get? "swagger")
    ++ expectText "info.title" (info "title") ++ expectText "info.version" (info "version")
    ++ (itemsOf (v.get? "servers")).zipIdx.flatMap fun s => rawServer s.2 s.1

end ApiFolio.Validation

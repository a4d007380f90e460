import ApiFolio.OpenApi.Components

/-!
# Documents

A whole description of an interface. Its paths are read one by one: entries whose key starts with
`x-` are extensions and are passed over, and so is an entry that does not read as a path item.
-/

namespace ApiFolio.OpenApi

/-- A description of an interface, in the form of version 3 of the format. -/
structure Document where
  openapi : String := ""
  info : Info := {}
  servers : List Server := []
  paths : Dict PathItem := ∅
  components : Option Components := none
  security : List SecurityRequirement := []
  tags : List Tag := []
  externalDocs : Option ExternalDocs := none
  /-- Every other member. -/
  extensions : Dict Json := ∅
deriving Inhabited

/-- Whether a key among the paths is an extension. -/
def isExtensionKey (key : String) : Bool := Text.startsWith "x-" key

/-- Reads path items one by one, without extensions and entries that do not read. -/
def readPaths? {α : Type} (read : Json → Option α) : Json → Option (Dict α)
  | .obj members =>
    some ((Dict.ofList members).filterMap fun key v =>
      if isExtensionKey key then none else read v)
  | _ => none

namespace Document

def layout : Layout :=
  [("openapi", true), ("info", true), ("servers", true), ("paths", true), ("components", false),
    ("security", true), ("tags", true), ("externalDocs", false)]

/-- Reads a document, which is an object; its version may be any scalar. -/
def ofJson? (v : Json) : Option Document := do
  let ms ← v.members?
  let info ← Record.withDefault? ms "info" {} Info.ofJson?
  let servers ← Record.list? ms "servers" Server.ofJson?
  let paths ← Record.withDefault? ms "paths" ∅ (readPaths? PathItem.ofJson?)
  let components ← Record.optional? ms "components" Components.ofJson?
  let security ← Record.list? ms "security" SecurityRequirement.ofJson?
  let tags ← Record.list? ms "tags" Tag.ofJson?
  let externalDocs ← Record.optional? ms "externalDocs" ExternalDocs.ofJson?
  return {
    openapi := Record.scalarText ms "openapi", info, servers, paths, components, security, tags,
    externalDocs, extensions := Record.unknown layout ms }

def toJson (x : Document) : Json :=
  .obj (Record.put "openapi" (.str x.openapi) ++ Record.put "info" x.info.toJson
    ++ Record.putList "servers" Server.toJson x.servers
    ++ Record.putDict "paths" PathItem.toJson x.paths
    ++ Record.putOption "components" Components.toJson x.components
    ++ Record.putList "security" SecurityRequirement.toJson x.security
    ++ Record.putList "tags" Tag.toJson x.tags
    ++ Record.putOption "externalDocs" ExternalDocs.toJson x.externalDocs
    ++ x.extensions.entries)

end Document

end ApiFolio.OpenApi

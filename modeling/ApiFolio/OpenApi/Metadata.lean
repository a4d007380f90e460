import ApiFolio.Record

/-!
# What a document says about itself

The title block of a document with its contact and licence, links to further documentation, the
tags that operations may carry, and the servers that offer the interface.
-/

namespace ApiFolio.OpenApi

/-- Whom to ask about an interface. -/
structure Contact where
  name : Option String := none
  url : Option String := none
  email : Option String := none
deriving Inhabited

namespace Contact

def layout : Layout := [("name", false), ("url", false), ("email", false)]

def ofJson? (v : Json) : Option Contact := do
  let ms ← Record.members? layout v
  let name ← Record.optionalString? ms "name"
  let url ← Record.optionalString? ms "url"
  let email ← Record.optionalString? ms "email"
  return { name, url, email }

def toJson (x : Contact) : Json :=
  .obj (Record.putOption "name" .str x.name ++ Record.putOption "url" .str x.url
    ++ Record.putOption "email" .str x.email)

end Contact

/-- The licence of an interface. -/
structure License where
  name : String := ""
  url : Option String := none
  identifier : Option String := none
deriving Inhabited

namespace License

def layout : Layout := [("name", true), ("url", false), ("identifier", false)]

def ofJson? (v : Json) : Option License := do
  let ms ← Record.members? layout v
  let name ← Record.string? ms "name"
  let url ← Record.optionalString? ms "url"
  let identifier ← Record.optionalString? ms "identifier"
  return { name, url, identifier }

def toJson (x : License) : Json :=
  .obj (Record.put "name" (.str x.name) ++ Record.putOption "url" .str x.url
    ++ Record.putOption "identifier" .str x.identifier)

end License

/-- The title block of a document. -/
structure Info where
  title : String := ""
  version : String := ""
  description : Option String := none
  termsOfService : Option String := none
  contact : Option Contact := none
  license : Option License := none
  summary : Option String := none
deriving Inhabited

namespace Info

def layout : Layout :=
  [("title", true), ("version", true), ("description", false), ("termsOfService", false),
    ("contact", false), ("license", false), ("summary", false)]

/-- Reads a title block; title and version may be any scalar. -/
def ofJson? (v : Json) : Option Info := do
  let ms ← Record.members? layout v
  let description ← Record.optionalString? ms "description"
  let termsOfService ← Record.optionalString? ms "termsOfService"
  let contact ← Record.optional? ms "contact" Contact.ofJson?
  let license ← Record.optional? ms "license" License.ofJson?
  let summary ← Record.optionalString? ms "summary"
  return {
    title := Record.scalarText ms "title", version := Record.scalarText ms "version", description,
    termsOfService, contact, license, summary }

def toJson (x : Info) : Json :=
  .obj (Record.put "title" (.str x.title) ++ Record.put "version" (.str x.version)
    ++ Record.putOption "description" .str x.description
    ++ Record.putOption "termsOfService" .str x.termsOfService
    ++ Record.putOption "contact" Contact.toJson x.contact
    ++ Record.putOption "license" License.toJson x.license
    ++ Record.putOption "summary" .str x.summary)

end Info

/-- A link to further documentation. -/
structure ExternalDocs where
  description : Option String := none
  url : String := ""
deriving Inhabited

namespace ExternalDocs

def layout : Layout := [("description", false), ("url", true)]

def ofJson? (v : Json) : Option ExternalDocs := do
  let ms ← Record.members? layout v
  let description ← Record.optionalString? ms "description"
  let url ← Record.string? ms "url"
  return { description, url }

def toJson (x : ExternalDocs) : Json :=
  .obj (Record.putOption "description" .str x.description ++ Record.put "url" (.str x.url))

end ExternalDocs

/-- A tag that operations may carry. -/
structure Tag where
  name : String := ""
  description : Option String := none
  externalDocs : Option ExternalDocs := none
deriving Inhabited

namespace Tag

def layout : Layout := [("name", true), ("description", false), ("externalDocs", false)]

def ofJson? (v : Json) : Option Tag := do
  let ms ← Record.members? layout v
  let name ← Record.string? ms "name"
  let description ← Record.optionalString? ms "description"
  let externalDocs ← Record.optional? ms "externalDocs" ExternalDocs.ofJson?
  return { name, description, externalDocs }

def toJson (x : Tag) : Json :=
  .obj (Record.put "name" (.str x.name) ++ Record.putOption "description" .str x.description
    ++ Record.putOption "externalDocs" ExternalDocs.toJson x.externalDocs)

end Tag

/-- A variable in the address of a server. -/
structure ServerVariable where
  choices : Option (List Json) := none
  /-- The value that is used. -/
  default : String := ""
  description : Option String := none
deriving Inhabited

namespace ServerVariable

def layout : Layout := [("enum", false), ("default", true), ("description", false)]

/-- Reads a variable; its default may be any scalar. -/
def ofJson? (v : Json) : Option ServerVariable := do
  let ms ← Record.members? layout v
  let choices ← Record.optional? ms "enum" Json.items?
  let description ← Record.optionalString? ms "description"
  return { choices, default := Record.scalarText ms "default", description }

def toJson (x : ServerVariable) : Json :=
  .obj (Record.putOption "enum" .arr x.choices ++ Record.put "default" (.str x.default)
    ++ Record.putOption "description" .str x.description)

end ServerVariable

/-- A server that offers the interface. -/
structure Server where
  /-- The address, in which names in braces are variables. -/
  url : String := ""
  description : Option String := none
  slots : Dict ServerVariable := ∅
deriving Inhabited

namespace Server

def layout : Layout := [("url", true), ("description", false), ("variables", true)]

def ofJson? (v : Json) : Option Server := do
  let ms ← Record.members? layout v
  let url ← Record.string? ms "url"
  let description ← Record.optionalString? ms "description"
  let slots ← Record.dict? ms "variables" ServerVariable.ofJson?
  return { url, description, slots }

def toJson (x : Server) : Json :=
  .obj (Record.put "url" (.str x.url) ++ Record.putOption "description" .str x.description
    ++ Record.putDict "variables" ServerVariable.toJson x.slots)

end Server

/-- What a caller must prove: the scopes needed of each named scheme. -/
abbrev SecurityRequirement := Dict (List String)

def SecurityRequirement.ofJson? : Json → Option SecurityRequirement :=
  Record.readDict? (Record.readList? Json.text?)

def SecurityRequirement.toJson (x : SecurityRequirement) : Json :=
  Record.writeDict (fun scopes => .arr (scopes.map .str)) x

end ApiFolio.OpenApi

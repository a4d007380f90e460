import ApiFolio.Export.FolderTree
import ApiFolio.Export.Operation
import ApiFolio.Export.Result
import ApiFolio.OpenApi.Document
import ApiFolio.Text.Template

/-!
# Converting a document

The operations of the paths, then those of the webhooks, are filed by their first tag; those
without a tag stay in the default folder, below which all others hang. Components, servers and the
rest of the document are carried over beside them.
-/

namespace ApiFolio.Export

open OpenApi

/-- The folder of the operations without a tag. -/
def defaultFolder : String := "Default"

/-- The members of a document that may hold its webhooks, the first that is present counts. -/
def webhookKeys : List String := ["webhooks", "x-webhooks"]

/-- The members of a document that may hold its base path, the first that is present counts. -/
def basePathKeys : List String := ["x-basePath", "x-base-path"]

/-- The extension under the first of several keys that is present. -/
def firstExtension? (doc : Document) (keys : List String) : Option Json :=
  keys.findSome? doc.extensions.get?

/-- The webhooks of a document that read as path items. -/
def webhooks (doc : Document) : Dict PathItem :=
  match firstExtension? doc webhookKeys with
  | some (.obj entries) => (Dict.ofList entries).filterMap fun _ v => PathItem.ofJson? v
  | _ => ∅

/-- What the operations of a document are exported with. -/
def surroundings (doc : Document) : Surroundings where
  components := doc.components
  ends := (bodyAliasesOf doc.components).resolve

/-- The exported operations in the order in which they are filed: those of the paths, then those
of the webhooks. -/
def documentItems (doc : Document) : List ApiItem :=
  (doc.paths.entries.flatMap fun e => (surroundings doc).apiItems e.1 e.2 false)
    ++ (webhooks doc).entries.flatMap fun e => (surroundings doc).apiItems e.1 e.2 true

/-- The folders by tag, and the operations that stay outside of them. -/
structure Filing where
  tree : FolderTree := {}
  /-- The operations without a tag that names a folder, in the order in which they came. -/
  unfiled : List ApiItem := []
deriving Inhabited

/-- Files one operation by its first tag. -/
def Filing.add (filing : Filing) (item : ApiItem) : Filing :=
  match item.tags with
  | [] => { filing with unfiled := filing.unfiled ++ [item] }
  | tag :: _ =>
    match filing.tree.insert tag item with
    | (tree, none) => { filing with tree }
    | (tree, some back) => { tree, unfiled := filing.unfiled ++ [back] }

/-- Files all operations of a document. -/
def filing (doc : Document) : Filing := (documentItems doc).foldl Filing.add {}

/-- The collection of all operations of a document. -/
def collection (doc : Document) : Collection :=
  let f := filing doc
  Collection.sort { name := defaultFolder, items := f.unfiled, children := f.tree.forest }

/-- The scheme that stands here or that is pointed at. -/
def securityScheme? (components : Components) : Referable SecurityScheme → Option SecurityScheme
  | .item scheme => some scheme
  | .ref pointer => components.securityScheme? pointer

def securitySchemeItem (name : String) (scheme : SecurityScheme) : SecuritySchemeItem where
  name := name
  type := scheme.type
  description := scheme.description
  location := scheme.location
  paramName := scheme.name
  scheme := scheme.scheme
  bearerFormat := scheme.bearerFormat
  flows := scheme.flows
  openIdConnectUrl := scheme.openIdConnectUrl

/-- The security schemes of a document; a pointer that leads nowhere is left out. -/
def securityCollection (doc : Document) : SecurityCollection where
  name := "SecuritySchemes"
  items :=
    match doc.components with
    | none => []
    | some components =>
      components.securitySchemes.entries.filterMap fun e =>
        (securityScheme? components e.2).map (securitySchemeItem e.1)

/-- The address of a server with the defaults of its variables filled in. -/
def baseUrl (server : Server) : String :=
  let value? (name : List Char) : Option (List Char) :=
    (server.slots.get? (String.ofList name)).map fun v => v.default.toList
  String.ofList (Text.Template.fill value? none server.url.toList)

/-- A server as an environment, named by its description or else by its address. -/
def environment (server : Server) : Environment :=
  let description := server.description.bind nonEmpty?
  { name := description.getD server.url
    baseUrl := baseUrl server
    description
    settings := server.slots.map (·.default) }

/-- The base path of a document, unless it is empty. -/
def basePath? (doc : Document) : Option String :=
  (firstExtension? doc basePathKeys).bind fun v => v.text?.bind nonEmpty?

/-- The data about a document that has no other place in the export. -/
def metadata (doc : Document) : List (String × Json) :=
  Record.putOption "version" .str (nonEmpty? doc.info.version)
    ++ Record.putOption "summary" .str doc.info.summary
    ++ Record.putOption "termsOfService" .str doc.info.termsOfService
    ++ Record.putOption "contact" (fun x => (Contact.toJson x).canonical) doc.info.contact
    ++ Record.putOption "license" (fun x => (License.toJson x).canonical) doc.info.license
    ++ Record.putOption "externalDocs" (fun x => (ExternalDocs.toJson x).canonical)
      doc.externalDocs
    ++ Record.putList "tags" (fun x => (Tag.toJson x).canonical) doc.tags
    ++ Record.putList "security" (fun x => (SecurityRequirement.toJson x).canonical) doc.security

/-- The metadata of a document, then its extensions other than webhooks and base path; of equal
keys the extension counts. -/
def extra (doc : Document) : Dict Json :=
  Dict.ofList (metadata doc ++ doc.extensions.entries.filter fun e =>
    !(webhookKeys.contains e.1 || basePathKeys.contains e.1))

/-- Converts a document that was written in a version of the format. -/
def convert (doc : Document) (contentVersion : String) : Result where
  httpCollections := [collection doc]
  dataSchemas := schemaFoldersOf doc.components (surroundings doc).ends
  securitySchemes := [securityCollection doc]
  environments := doc.servers.map environment
  extra := extra doc
  basePath := basePath? doc
  title := doc.info.title
  description := doc.info.description.bind nonEmpty?
  contentVersion := contentVersion

end ApiFolio.Export

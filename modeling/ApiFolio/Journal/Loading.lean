import ApiFolio.Journal.Entry
import ApiFolio.Source
import ApiFolio.Text.Url

/-!
# The journal of loading

What is told while a document is read, upgraded and checked. Members of a document are read in the
order of their names, so paths are told of only if the members before them read.
-/

namespace ApiFolio.Journal

open OpenApi (Referable)

/-- The lines on the paths that are passed over. -/
def skippedPaths {α : Type} (read : Json → Option α) (members : List (String × Json)) :
    List Entry :=
  (Dict.ofList members).entries.flatMap fun (key, v) =>
    if OpenApi.isExtensionKey key then [debug ("Ignoring paths extension " ++ key)]
    else if (read v).isSome then []
    else [warn ("Skipping malformed path item " ++ subject key)]

/-- The lines on the paths of a raw document. -/
def rawPaths {α : Type} (read : Json → Option α) (members : List (String × Json)) : List Entry :=
  match Entries.get? "paths" members with
  | some (.obj paths) => skippedPaths read paths
  | _ => []

/-- The journal of reading a document of version 3. -/
def readingOpenApi (members : List (String × Json)) : List Entry :=
  if (Record.optional? members "components" OpenApi.Components.ofJson?).isSome
      && (Record.optional? members "externalDocs" OpenApi.ExternalDocs.ofJson?).isSome
      && (Record.withDefault? members "info" {} OpenApi.Info.ofJson?).isSome then
    rawPaths OpenApi.PathItem.ofJson? members
  else []

/-- The journal of reading a document of version 2. -/
def readingSwagger (members : List (String × Json)) : List Entry :=
  if (Record.optionalString? members "basePath").isSome
      && (Record.strings? members "consumes").isSome
      && (Record.dict? members "definitions" OpenApi.Schema.ofJson?).isSome
      && (Record.optional? members "externalDocs" OpenApi.ExternalDocs.ofJson?).isSome
      && (Record.optionalString? members "host").isSome
      && (Record.withDefault? members "info" {} OpenApi.Info.ofJson?).isSome
      && (Record.dict? members "parameters" Swagger.Parameter.ofJson?).isSome then
    rawPaths Swagger.PathItem.ofJson? members
  else []

/-- The line on a parameter in a place that version 3 does not know. -/
def strayParameter (p : Swagger.Parameter) : List Entry :=
  if ["path", "query", "header"].contains p.location then []
  else
    [warn ("Parameter " ++ Text.quoted p.name ++ " has location " ++ Text.quoted p.location
      ++ ", which OpenAPI 3 does not define")]

/-- The story of an entry of the parameters of an operation. -/
def parameterStory (doc : Swagger.Document) (p : Referable Swagger.Parameter) : Story :=
  match p, doc.role p with
  | .item p, .body _ => .goOnIf p.schema.isSome
  | .item p, .plain _ => .tell (strayParameter p)
  | _, _ => {}

/-- The story of upgrading a path item. -/
def pathItemStory (doc : Swagger.Document) (item : Swagger.PathItem) : Story :=
  let own := item.parameters.filter fun p => !doc.isInherited p
  let inherited := item.parameters.filter doc.isInherited
  .sequence (own.map (parameterStory doc)
    ++ item.operations.flatMap fun op => (inherited ++ op.parameters).map (parameterStory doc))

/-- The lines on the servers that are no addresses. -/
def upgradedServers (doc : Swagger.Document) : List Entry :=
  match doc.host.filter fun h => !h.isEmpty with
  | none => []
  | some _ =>
    doc.servers.flatMap fun s =>
      if Text.Url.isAbsolute s.url then []
      else [warn ("Upgraded server URL " ++ s.url ++ " is not a valid URL")]

/-- The story of upgrading a parameter at the top of a document. -/
def sharedParameterStory (name : String) (p : Swagger.Parameter) : Story :=
  if p.location = "body" then .goOnIf p.schema.isSome
  else if p.location = "formData" then
    .tell [debug ("Global formData parameter " ++ name
      ++ " is folded into the bodies that reference it")]
  else .tell (strayParameter p)

/-- The story of upgrading a document that has been read. -/
def upgradeStory (doc : Swagger.Document) : Story :=
  .sequence
    ([.tell [debug ("Upgrading Swagger " ++ doc.swagger ++ " document with "
        ++ decimalText doc.paths.size ++ " paths")]]
      ++ (doc.paths.values.map (pathItemStory doc))
      ++ [.tell (upgradedServers doc)]
      ++ (doc.parameters.entries.map fun e => sharedParameterStory e.1 e.2))

/-- The journal of upgrading a raw document. -/
def upgrading (raw : Json) : List Entry :=
  (match (Swagger.movePointers (Swagger.bodyParameterNames raw) raw).members? with
    | some members => readingSwagger members
    | none => [])
    ++ match Swagger.readMoved? raw with
      | some doc => (upgradeStory doc).entries
      | none => []

/-- The lines on the issues of a document. -/
def issues (found : List Validation.Issue) : List Entry :=
  found.map (fun i => warn ("Validation: " ++ i.text))
    ++ if found.isEmpty then []
      else
        [warn ("Document has " ++ decimalText found.length
          ++ " validation issue(s), continuing with it as-is")]

/-- The journal of loading a document from its raw form. -/
def loading (v : Json) : List Entry :=
  match v with
  | .obj members =>
    (match swaggerVersion? v with
      | some version =>
        info ("Detected Swagger " ++ version ++ " document, upgrading") :: upgrading v
      | none =>
        readingOpenApi members ++
          match OpenApi.Document.ofJson? v with
          | some doc => [debug ("Loaded OpenAPI " ++ doc.openapi ++ " document")]
          | none => [])
      ++ match Loaded.ofJson v with
        | .ok loaded => issues loaded.issues
        | .error _ => []
  | _ => []

end ApiFolio.Journal

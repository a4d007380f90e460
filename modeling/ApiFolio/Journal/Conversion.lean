import ApiFolio.Export.Conversion
import ApiFolio.Journal.Loading

/-!
# The journal of converting

What is told while a loaded document is converted: on aliases, on what is left out, on parameters
that cannot be placed, and on each folder when it is first needed.
-/

namespace ApiFolio.Journal

open OpenApi Export

/-- The lines on the aliases among the request bodies. -/
def aliases (components : Option Components) : List Entry :=
  let found := bodyAliasesOf components
  (if found.isEmpty then []
    else [debug ("Recorded " ++ decimalText found.size ++ " request body reference(s)")])
    ++ found.targets.keys.map fun pointer =>
      match found.end? pointer with
      | some target => debug ("Resolved reference " ++ pointer ++ " -> " ++ target)
      | none => warn ("Reference chain starting at " ++ pointer ++ " is cyclic, dropping it")

/-- The lines on the components that are left out. -/
def skippedComponents (components : Components) (ends : AliasEnds) : List Entry :=
  (components.schemas.entries.flatMap fun e =>
      if (schemaItem? e.1 e.2).isSome then [] else [debug ("Skipping empty schema " ++ e.1)])
    ++ (components.responses.entries.flatMap fun e =>
      if (responseItem? e.1 e.2).isSome then [] else [debug ("Skipping empty response " ++ e.1)])
    ++ components.requestBodies.entries.flatMap fun e =>
      if (requestBodyItem? ends e.1 e.2).isSome then []
      else
        match e.2 with
        | .ref _ => [warn ("Request body " ++ e.1 ++ " has a cyclic reference chain, skipping")]
        | .item _ => [debug ("Skipping empty request body " ++ e.1)]

/-- The lines on parameters that cannot be resolved or replace others, after the parameters that
are there already. -/
def merging (around : Surroundings) (place : String) :
    List Parameter → List (Referable Parameter) → List Entry
  | _, [] => []
  | before, p :: rest =>
    match around.parameter? p with
    | none =>
      (match p with
        | .ref pointer => [warn ("Unresolvable parameter reference " ++ pointer ++ ", skipping")]
        | .item _ => [])
        ++ merging around place before rest
    | some x =>
      (if before.any fun q => q.name = x.name ∧ q.location = x.location then
        [debug (place ++ ": parameter " ++ x.name ++ " (" ++ x.location
          ++ ") overridden by operation")] else [])
        ++ merging around place (Surroundings.mergeParameter before x) rest

/-- The lines on the parameters of an operation. -/
def operationParameters (around : Surroundings) (path : String) (item : PathItem) (verb : Verb)
    (op : Operation) : List Entry :=
  let place := verb.name ++ " " ++ path
  merging around place [] (item.parameters ++ op.parameters)
    ++ (around.merged item op).flatMap fun p =>
      if ["path", "query", "header", "cookie"].contains p.location then []
      else
        [warn (place ++ ": parameter " ++ p.name ++ " has unknown location " ++ p.location
          ++ ", skipping")]

/-- The paths of the folders that a tag names, from the outermost. -/
def folderPaths (tag : String) : List String :=
  let segments := FolderTree.segments tag
  (List.range segments.length).map fun n => Text.join "/" (segments.take (n + 1))

/-- The lines on the folders that an operation is the first to need. -/
def newFolders (tree : FolderTree) (item : ApiItem) : List Entry :=
  match item.tags with
  | [] => []
  | tag :: _ =>
    ((folderPaths tag).filter fun path => (tree.get? path).isNone).map
      fun path => debug ("Creating folder " ++ path)

/-- The lines on filing the operations of a path item, and the folders after it. -/
def filingItem (around : Surroundings) (webhook : Bool) (state : Filing × List Entry)
    (entry : String × PathItem) : Filing × List Entry :=
  entry.2.operations.foldl (fun (filing, entries) vo =>
    let item := around.apiItem entry.1 vo.1.name entry.2 vo.2 webhook
    (filing.add item,
      entries ++ operationParameters around entry.1 entry.2 vo.1 vo.2
        ++ newFolders filing.tree item)) state

/-- The lines on the webhooks that are passed over. -/
def skippedWebhooks (doc : Document) : List Entry :=
  match firstExtension? doc webhookKeys with
  | none => []
  | some (.obj entries) =>
    (Dict.ofList entries).entries.flatMap fun e =>
      if (PathItem.ofJson? e.2).isSome then []
      else [warn ("Skipping malformed webhook " ++ subject e.1)]
  | some _ => [warn "Ignoring webhooks: expected an object keyed by webhook name"]

/-- The lines on filing the operations of a document. -/
def filing (doc : Document) : List Entry :=
  let around := surroundings doc
  let (afterPaths, onPaths) := doc.paths.entries.foldl (filingItem around false) ({}, [])
  let (afterAll, onWebhooks) :=
    (webhooks doc).entries.foldl (filingItem around true) (afterPaths, [])
  onPaths ++ skippedWebhooks doc ++ onWebhooks ++
    [if afterAll.tree.isEmpty then
        debug ("No tagged operations, everything stays in " ++ defaultFolder)
      else debug ("Built " ++ decimalText afterAll.tree.size ++ " tag folder(s)")]

/-- The lines on the security schemes that point nowhere. -/
def skippedSchemes (components : Components) : List Entry :=
  components.securitySchemes.entries.flatMap fun e =>
    match e.2 with
    | .item _ => []
    | .ref pointer =>
      if (components.securityScheme? pointer).isSome then []
      else
        [warn ("Security scheme " ++ e.1 ++ " references unknown " ++ pointer ++ ", skipping")]

/-- The lines on the servers that are no addresses, though they look like ones. -/
def servers (doc : Document) : List Entry :=
  doc.servers.flatMap fun s =>
    let url := baseUrl s
    if Text.hasInfix "://".toList url.toList && !Text.Url.isAbsolute url then
      [warn ("Server URL " ++ url ++ " does not parse")]
    else []

/-- The journal of converting a loaded document. -/
def converting (loaded : Loaded) : List Entry :=
  let doc := loaded.document
  let result := convert doc loaded.declaredVersion
  [debug ("Converting " ++ loaded.dialect.name ++ " document declared as "
      ++ loaded.declaredVersion)]
    ++ aliases doc.components
    ++ ((doc.components.map fun c => skippedComponents c (surroundings doc).ends).getD [])
    ++ filing doc
    ++ (doc.components.map skippedSchemes).getD []
    ++ servers doc
    ++ [info ("Converted " ++ decimalText result.apiItems.length ++ " operation(s) and "
      ++ decimalText result.dataSchemas.length ++ " schema folder(s)")]

end ApiFolio.Journal

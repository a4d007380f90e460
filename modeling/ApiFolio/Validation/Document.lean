import ApiFolio.Json.Printer
import ApiFolio.OpenApi.Document
import ApiFolio.Text.Quoted
import ApiFolio.Text.Template
import ApiFolio.Validation.Issue

/-!
# Checks on a document

The rules on a document that has been read: its head, its parameters, its operations path by path,
its components, and last that every pointer into the components leads to an entry.
-/

namespace ApiFolio.Validation

open OpenApi

/-- An issue if a text is empty or white space only. -/
def expectContent (location text : String) : List Issue :=
  if Text.isBlankText text then [⟨location, "must not be empty"⟩] else []

/-- The places where a parameter may stand. -/
def parameterLocations : List String := ["path", "query", "header", "cookie"]

def parameter (location : String) (p : Parameter) : List Issue :=
  (if Text.isBlankText p.name then [⟨location, "parameter has no name"⟩] else [])
    ++ if parameterLocations.contains p.location then []
      else
        [⟨location, "parameter " ++ Text.quoted p.name ++ " has invalid location "
          ++ Text.quoted p.location⟩]

/-- The issues of the parameters of a list that are no pointers. -/
def parameters (location : String) (ps : List (Referable Parameter)) : List Issue :=
  ps.zipIdx.flatMap fun p =>
    match p.1 with
    | .ref _ => []
    | .item x => parameter (indexed (location ++ ".parameters") p.2) x

/-- Whether a value lists names. -/
def listsNames : Json → Bool
  | .arr items => items.all Json.isText
  | _ => false

/-- The issues of a schema and of those below it. -/
def schema (location : String) (s : Schema) : List Issue :=
  s.nested.flatMap fun inner =>
    match inner.required with
    | none => []
    | some required =>
      if listsNames required then []
      else [⟨location, "required must list property names, found " ++ required.compact⟩]

/-- The names in the template of a path, ascending, each once. -/
def templateNames (path : String) : List String :=
  (Dict.ofList ((Text.Template.names none path.toList).map fun n => (String.ofList n, ()))).keys

/-- The parameter that stands here or that is pointed at. -/
def resolve? (components : Option Components) : Referable Parameter → Option Parameter
  | .item p => some p
  | .ref pointer => components.bind fun c => c.parameter? pointer

/-- The pointers among the parameters of an operation, its body and its responses. -/
def outerPointers (ps : List (Referable Parameter)) (op : Operation) : List String :=
  ps.filterMap Referable.pointer?
    ++ (op.requestBody.bind Referable.pointer?).toList
    ++ op.responses.values.filterMap Referable.pointer?

/-- The schemas of the parameters of an operation, its body and its responses, where these are no
pointers. -/
def outerSchemas (ps : List (Referable Parameter)) (op : Operation) : List Schema :=
  (ps.filterMap fun p => p.item?.bind (·.schema))
    ++ ((op.requestBody.bind Referable.item?).map fun b => b.content.schemas).getD []
    ++ op.responses.values.flatMap fun r => (r.item?.map fun x => x.content.schemas).getD []

/-- An operation of a document with its place. -/
structure Located where
  location : String
  path : String
  item : PathItem
  operation : Operation

namespace Located

/-- The parameters of the path, then those of the operation. -/
def parameters (x : Located) : List (Referable Parameter) :=
  x.item.parameters ++ x.operation.parameters

/-- The pointers of the operation in the order in which they are met. -/
def pointers (x : Located) : List String :=
  outerPointers x.parameters x.operation
    ++ (outerSchemas x.parameters x.operation).flatMap Schema.pointers

end Located

/-- The issues of the parameters of an operation that stand in the path. -/
def pathParameters (components : Option Components) (x : Located) : List Issue :=
  let names := templateNames x.path
  let declared := (x.parameters.filterMap (resolve? components)).filter fun p => p.location = "path"
  declared.flatMap (fun p =>
      (if p.required = some true then []
        else [⟨x.location, "path parameter " ++ Text.quoted p.name ++ " must be required"⟩])
        ++ if names.contains p.name then []
          else
            [⟨x.location, "path parameter " ++ Text.quoted p.name
              ++ " is not in the path template"⟩])
    ++ names.flatMap fun name =>
      if declared.any fun p => p.name = name then []
      else [⟨x.location, "path template parameter " ++ Text.quoted name ++ " is not declared"⟩]

/-- The issues of an operation, given the place of the last one with the same identifier. -/
def operation (components : Option Components) (previous : Option String) (x : Located) :
    List Issue :=
  Validation.parameters x.location x.operation.parameters
    ++ (if x.operation.responses.isEmpty then
        [⟨x.location, "operation declares no responses"⟩] else [])
    ++ (match x.operation.operationId, previous with
      | some id, some place =>
        [⟨x.location, "operationId " ++ Text.quoted id ++ " already used by " ++ place⟩]
      | _, _ => [])
    ++ pathParameters components x
    ++ (outerSchemas x.parameters x.operation).flatMap (schema x.location)

/-- Where the identifiers of operations were used last. -/
abbrev Uses := List (String × String)

/-- The place where the identifier of an operation was used last. -/
def Uses.previous (uses : Uses) (x : Located) : Option String :=
  x.operation.operationId.bind fun id => Entries.get? id uses

/-- Notes the use of the identifier of an operation. -/
def Uses.note (uses : Uses) (x : Located) : Uses :=
  match x.operation.operationId with
  | some id => (id, x.location) :: uses
  | none => uses

/-- The operations of a path with their places. -/
def located (path : String) (item : PathItem) : List Located :=
  item.operations.map fun vo => ⟨"paths." ++ path ++ "." ++ vo.1.name, path, item, vo.2⟩

def path (key : String) (item : PathItem) : List Issue :=
  (if Text.startsWith "/" key then [] else [⟨"paths." ++ key, "path must begin with '/'"⟩])
    ++ parameters ("paths." ++ key) item.parameters

/-- The issues of the operations of a path, after the uses of identifiers before them. -/
def operations (components : Option Components) : Uses → List Located → List Issue
  | _, [] => []
  | uses, x :: rest =>
    operation components (uses.previous x) x ++ operations components (uses.note x) rest

/-- The issues of all paths, after the uses of identifiers before them. -/
def paths (components : Option Components) : Uses → List (String × PathItem) → List Issue
  | _, [] => []
  | uses, (key, item) :: rest =>
    path key item ++ operations components uses (located key item)
      ++ paths components ((located key item).foldl Uses.note uses) rest

/-- The operations of a document with their places. -/
def documentOperations (doc : Document) : List Located :=
  doc.paths.entries.flatMap fun e => located e.1 e.2

/-- The place of a component schema. -/
def schemaPlace (name : String) : String := "components.schemas." ++ name

def components (x : Components) : List Issue :=
  (x.schemas.entries.flatMap fun e => schema (schemaPlace e.1) e.2)
    ++ (x.parameters.entries.flatMap fun e =>
      match e.2 with
      | .ref _ => []
      | .item p => parameter ("components.parameters." ++ e.1) p)
    ++ x.securitySchemes.entries.flatMap fun e =>
      match e.2 with
      | .ref _ => []
      | .item s => expectContent ("components.securitySchemes." ++ e.1 ++ ".type") s.type

/-- The pointers of a document with their places: those of the operations, then those of the
component schemas. -/
def locatedPointers (doc : Document) : List (String × String) :=
  ((documentOperations doc).flatMap fun x => x.pointers.map fun p => (x.location, p))
    ++ match doc.components with
      | none => []
      | some c =>
        c.schemas.entries.flatMap fun e => e.2.pointers.map fun p => (schemaPlace e.1, p)

/-- Whether a pointer into one of the areas that are read names an entry. A pointer that goes
elsewhere among the components passes. -/
def leadsToEntry (c : Components) (pointer : String) : Bool :=
  match Pointer.name? pointer "schemas" with
  | some name => c.schemas.contains name
  | none =>
    match Pointer.name? pointer "responses" with
    | some name => c.responses.contains name
    | none =>
      match Pointer.name? pointer "parameters" with
      | some name => c.parameters.contains name
      | none =>
        match Pointer.name? pointer "requestBodies" with
        | some name => c.requestBodies.contains name
        | none =>
          match Pointer.name? pointer "securitySchemes" with
          | some name => c.securitySchemes.contains name
          | none => true

/-- Whether a pointer goes into the components and leads nowhere. -/
def isDangling (components : Option Components) (pointer : String) : Bool :=
  Text.startsWith Pointer.root pointer &&
    match components with
    | none => true
    | some c => !leadsToEntry c pointer

def pointers (doc : Document) : List Issue :=
  (locatedPointers doc).filterMap fun lp =>
    if isDangling doc.components lp.2 then some ⟨lp.1, "unresolved reference " ++ lp.2⟩ else none

def head (doc : Document) : List Issue :=
  (if Text.startsWith "3" doc.openapi then []
    else
      [⟨"openapi", "unsupported version " ++ Text.quoted doc.openapi ++ ", expected 3.x"⟩])
    ++ expectContent "info.title" doc.info.title
    ++ expectContent "info.version" doc.info.version
    ++ (doc.servers.zipIdx.flatMap fun s => expectContent (indexed "servers" s.2 ++ ".url") s.1.url)
    ++ doc.tags.zipIdx.flatMap fun t => expectContent (indexed "tags" t.2 ++ ".name") t.1.name

def document (doc : Document) : List Issue :=
  head doc ++ paths doc.components [] doc.paths.entries
    ++ (doc.components.map components).getD [] ++ pointers doc

end ApiFolio.Validation

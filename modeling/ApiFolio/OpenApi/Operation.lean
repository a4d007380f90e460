import ApiFolio.OpenApi.Metadata
import ApiFolio.OpenApi.Referable
import ApiFolio.OpenApi.Schema

/-!
# Operations

What can be done at a path: one operation per verb, with its parameters, the body of its request
and its responses by status.
-/

namespace ApiFolio.OpenApi

/-- The verbs of operations. -/
inductive Verb where
  | get | put | post | delete | options | head | patch | trace
deriving DecidableEq, Repr, Inhabited

namespace Verb

def name : Verb → String
  | get => "get"
  | put => "put"
  | post => "post"
  | delete => "delete"
  | options => "options"
  | head => "head"
  | patch => "patch"
  | trace => "trace"

/-- All verbs, in the order in which operations are listed. -/
def all : List Verb := [get, put, post, delete, options, head, patch, trace]

end Verb

/-- A representation of a value under a media type. -/
structure MediaType where
  schema : Option Schema := none
  sample : Option Json := none
  samples : Dict Json := ∅
deriving Inhabited

namespace MediaType

def layout : Layout := [("schema", false), ("example", false), ("examples", true)]

def ofJson? (v : Json) : Option MediaType := do
  let ms ← Record.members? layout v
  let schema ← Record.optional? ms "schema" Schema.ofJson?
  let samples ← Record.dict? ms "examples" some
  return { schema, sample := Record.value ms "example", samples }

def toJson (x : MediaType) : Json :=
  .obj (Record.putOption "schema" Schema.toJson x.schema ++ Record.putOption "example" id x.sample
    ++ Record.putDict "examples" id x.samples)

end MediaType

/-- Representations by media type. -/
abbrev Content := Dict MediaType

namespace Content

/-- The first media type, empty if there is none. -/
def firstType (content : Content) : String :=
  match content.entries with
  | [] => ""
  | (name, _) :: _ => name

/-- The schema under the first media type. -/
def firstSchema? (content : Content) : Option Schema :=
  match content.entries with
  | [] => none
  | (_, media) :: _ => media.schema

def schemas (content : Content) : List Schema := content.values.filterMap (·.schema)

end Content

/-- The body of a request. -/
structure RequestBody where
  description : Option String := none
  content : Content := ∅
  required : Option Bool := none
deriving Inhabited

namespace RequestBody

def layout : Layout := [("description", false), ("content", true), ("required", false)]

def ofJson? (v : Json) : Option RequestBody := do
  let ms ← Record.members? layout v
  let description ← Record.optionalString? ms "description"
  let content ← Record.dict? ms "content" MediaType.ofJson?
  let required ← Record.optionalBool? ms "required"
  return { description, content, required }

def toJson (x : RequestBody) : Json :=
  .obj (Record.putOption "description" .str x.description
    ++ Record.put "content" (Record.writeDict MediaType.toJson x.content)
    ++ Record.putOption "required" .bool x.required)

end RequestBody

/-- A parameter of an operation. -/
structure Parameter where
  name : String := ""
  /-- Where it stands: in the path, the query, a header or a cookie. -/
  location : String := ""
  description : Option String := none
  required : Option Bool := none
  deprecated : Option Bool := none
  /-- How a structured value is laid out. -/
  style : Option String := none
  /-- Whether each part of a structured value stands for itself. -/
  explode : Option Bool := none
  schema : Option Schema := none
  sample : Option Json := none
  content : Content := ∅
deriving Inhabited

namespace Parameter

def layout : Layout :=
  [("name", true), ("in", true), ("description", false), ("required", false),
    ("deprecated", false), ("style", false), ("explode", false), ("schema", false),
    ("example", false), ("content", true)]

def ofJson? (v : Json) : Option Parameter := do
  let ms ← Record.members? layout v
  let name ← Record.string? ms "name"
  let location ← Record.string? ms "in"
  let description ← Record.optionalString? ms "description"
  let required ← Record.optionalBool? ms "required"
  let deprecated ← Record.optionalBool? ms "deprecated"
  let style ← Record.optionalString? ms "style"
  let explode ← Record.optionalBool? ms "explode"
  let schema ← Record.optional? ms "schema" Schema.ofJson?
  let content ← Record.dict? ms "content" MediaType.ofJson?
  return {
    name, location, description, required, deprecated, style, explode, schema,
    sample := Record.value ms "example", content }

def toJson (x : Parameter) : Json :=
  .obj (Record.put "name" (.str x.name) ++ Record.put "in" (.str x.location)
    ++ Record.putOption "description" .str x.description
    ++ Record.putOption "required" .bool x.required
    ++ Record.putOption "deprecated" .bool x.deprecated
    ++ Record.putOption "style" .str x.style ++ Record.putOption "explode" .bool x.explode
    ++ Record.putOption "schema" Schema.toJson x.schema
    ++ Record.putOption "example" id x.sample
    ++ Record.putDict "content" MediaType.toJson x.content)

def referable? : Json → Option (Referable Parameter) := Referable.ofJson? ofJson?

end Parameter

/-- A response to a request. -/
structure Response where
  description : String := ""
  headers : Dict Json := ∅
  content : Content := ∅
  links : Dict Json := ∅
deriving Inhabited

namespace Response

def layout : Layout :=
  [("description", true), ("headers", true), ("content", true), ("links", true)]

/-- Reads a response; its description may be any scalar. -/
def ofJson? (v : Json) : Option Response := do
  let ms ← Record.members? layout v
  let headers ← Record.dict? ms "headers" some
  let content ← Record.dict? ms "content" MediaType.ofJson?
  let links ← Record.dict? ms "links" some
  return { description := Record.scalarText ms "description", headers, content, links }

def toJson (x : Response) : Json :=
  .obj (Record.put "description" (.str x.description) ++ Record.putDict "headers" id x.headers
    ++ Record.putDict "content" MediaType.toJson x.content ++ Record.putDict "links" id x.links)

end Response

/-- An operation of the interface. -/
structure Operation where
  tags : List String := []
  summary : Option String := none
  description : Option String := none
  externalDocs : Option ExternalDocs := none
  operationId : Option String := none
  /-- Its parameters, beside those of its path. -/
  parameters : List (Referable Parameter) := []
  requestBody : Option (Referable RequestBody) := none
  responses : Dict (Referable Response) := ∅
  deprecated : Option Bool := none
  security : List SecurityRequirement := []
  servers : List Server := []
deriving Inhabited

namespace Operation

def layout : Layout :=
  [("tags", true), ("summary", false), ("description", false), ("externalDocs", false),
    ("operationId", false), ("parameters", true), ("requestBody", false), ("responses", true),
    ("deprecated", false), ("security", true), ("servers", true)]

def ofJson? (v : Json) : Option Operation := do
  let ms ← Record.members? layout v
  let tags ← Record.strings? ms "tags"
  let summary ← Record.optionalString? ms "summary"
  let description ← Record.optionalString? ms "description"
  let externalDocs ← Record.optional? ms "externalDocs" ExternalDocs.ofJson?
  let operationId ← Record.optionalString? ms "operationId"
  let parameters ← Record.list? ms "parameters" Parameter.referable?
  let requestBody ← Record.optional? ms "requestBody" (Referable.ofJson? RequestBody.ofJson?)
  let responses ← Record.dict? ms "responses" (Referable.ofJson? Response.ofJson?)
  let deprecated ← Record.optionalBool? ms "deprecated"
  let security ← Record.list? ms "security" SecurityRequirement.ofJson?
  let servers ← Record.list? ms "servers" Server.ofJson?
  return {
    tags, summary, description, externalDocs, operationId, parameters, requestBody, responses,
    deprecated, security, servers }

def toJson (x : Operation) : Json :=
  .obj (Record.putList "tags" .str x.tags ++ Record.putOption "summary" .str x.summary
    ++ Record.putOption "description" .str x.description
    ++ Record.putOption "externalDocs" ExternalDocs.toJson x.externalDocs
    ++ Record.putOption "operationId" .str x.operationId
    ++ Record.putList "parameters" (Referable.toJson Parameter.toJson) x.parameters
    ++ Record.putOption "requestBody" (Referable.toJson RequestBody.toJson) x.requestBody
    ++ Record.put "responses" (Record.writeDict (Referable.toJson Response.toJson) x.responses)
    ++ Record.putOption "deprecated" .bool x.deprecated
    ++ Record.putList "security" SecurityRequirement.toJson x.security
    ++ Record.putList "servers" Server.toJson x.servers)

end Operation

/-- What can be done at one path. -/
structure PathItem where
  summary : Option String := none
  description : Option String := none
  get : Option Operation := none
  put : Option Operation := none
  post : Option Operation := none
  delete : Option Operation := none
  options : Option Operation := none
  head : Option Operation := none
  patch : Option Operation := none
  trace : Option Operation := none
  servers : List Server := []
  /-- The parameters of all operations of the path. -/
  parameters : List (Referable Parameter) := []
deriving Inhabited

namespace PathItem

def layout : Layout :=
  [("summary", false), ("description", false), ("get", false), ("put", false), ("post", false),
    ("delete", false), ("options", false), ("head", false), ("patch", false), ("trace", false),
    ("servers", true), ("parameters", true)]

def operation? (x : PathItem) : Verb → Option Operation
  | .get => x.get
  | .put => x.put
  | .post => x.post
  | .delete => x.delete
  | .options => x.options
  | .head => x.head
  | .patch => x.patch
  | .trace => x.trace

/-- The operations with their verbs, in the order of the verbs. -/
def operations (x : PathItem) : List (Verb × Operation) :=
  Verb.all.filterMap fun verb => (x.operation? verb).map fun op => (verb, op)

def ofJson? (v : Json) : Option PathItem := do
  let ms ← Record.members? layout v
  let summary ← Record.optionalString? ms "summary"
  let description ← Record.optionalString? ms "description"
  let get ← Record.optional? ms "get" Operation.ofJson?
  let put ← Record.optional? ms "put" Operation.ofJson?
  let post ← Record.optional? ms "post" Operation.ofJson?
  let delete ← Record.optional? ms "delete" Operation.ofJson?
  let options ← Record.optional? ms "options" Operation.ofJson?
  let head ← Record.optional? ms "head" Operation.ofJson?
  let patch ← Record.optional? ms "patch" Operation.ofJson?
  let trace ← Record.optional? ms "trace" Operation.ofJson?
  let servers ← Record.list? ms "servers" Server.ofJson?
  let parameters ← Record.list? ms "parameters" Parameter.referable?
  return {
    summary, description, get, put, post, delete, options, head, patch, trace, servers,
    parameters }

def toJson (x : PathItem) : Json :=
  .obj (Record.putOption "summary" .str x.summary
    ++ Record.putOption "description" .str x.description
    ++ Record.putOption "get" Operation.toJson x.get
    ++ Record.putOption "put" Operation.toJson x.put
    ++ Record.putOption "post" Operation.toJson x.post
    ++ Record.putOption "delete" Operation.toJson x.delete
    ++ Record.putOption "options" Operation.toJson x.options
    ++ Record.putOption "head" Operation.toJson x.head
    ++ Record.putOption "patch" Operation.toJson x.patch
    ++ Record.putOption "trace" Operation.toJson x.trace
    ++ Record.putList "servers" Server.toJson x.servers
    ++ Record.putList "parameters" (Referable.toJson Parameter.toJson) x.parameters)

end PathItem

end ApiFolio.OpenApi

import ApiFolio.OpenApi.Document

/-!
# Documents of version 2

The form of a description in version 2 of the format, as far as it differs from version 3: the
server is given in parts, parameters include bodies and form fields, and security schemes name one
flow. These records are only read.
-/

namespace ApiFolio.Swagger

open OpenApi

/-- A parameter. -/
structure Parameter where
  name : String := ""
  /-- Where it stands: in the path, the query, a header, the body or a form. -/
  location : String := ""
  description : Option String := none
  required : Option Bool := none
  /-- The schema of a body. -/
  schema : Option Schema := none
  type : Option String := none
  format : Option String := none
  items : Option Schema := none
  choices : Option (List Json) := none
  default : Option Json := none
  /-- How a list is laid out. -/
  collectionFormat : Option String := none
  /-- Every other member. -/
  extra : Dict Json := ∅
deriving Inhabited

namespace Parameter

def layout : Layout :=
  [("name", true), ("in", true), ("description", false), ("required", false), ("schema", false),
    ("type", false), ("format", false), ("items", false), ("enum", false), ("default", false),
    ("collectionFormat", false)]

/-- Reads a parameter, which is an object. -/
def ofJson? (v : Json) : Option Parameter := do
  let ms ← v.members?
  let name ← Record.string? ms "name"
  let location ← Record.string? ms "in"
  let description ← Record.optionalString? ms "description"
  let required ← Record.optionalBool? ms "required"
  let schema ← Record.optional? ms "schema" Schema.ofJson?
  let type ← Record.optionalString? ms "type"
  let format ← Record.optionalString? ms "format"
  let items ← Record.optional? ms "items" Schema.ofJson?
  let choices ← Record.optional? ms "enum" Json.items?
  let collectionFormat ← Record.optionalString? ms "collectionFormat"
  return {
    name, location, description, required, schema, type, format, items, choices,
    default := Record.value ms "default", collectionFormat, extra := Record.unknown layout ms }

end Parameter

/-- A response. -/
structure Response where
  description : String := ""
  schema : Option Schema := none
  headers : Dict Json := ∅
  /-- Examples of its body by media type. -/
  examples : Dict Json := ∅
deriving Inhabited

namespace Response

def layout : Layout :=
  [("description", true), ("schema", false), ("headers", true), ("examples", true)]

def ofJson? (v : Json) : Option Response := do
  let ms ← Record.members? layout v
  let description ← Record.string? ms "description"
  let schema ← Record.optional? ms "schema" Schema.ofJson?
  let headers ← Record.dict? ms "headers" some
  let examples ← Record.dict? ms "examples" some
  return { description, schema, headers, examples }

end Response

/-- A security scheme. -/
structure SecurityScheme where
  type : String := ""
  description : Option String := none
  /-- The name of the parameter that carries a key. -/
  name : Option String := none
  /-- Where that parameter stands. -/
  location : Option String := none
  flow : Option String := none
  authorizationUrl : Option String := none
  tokenUrl : Option String := none
  scopes : Dict String := ∅
deriving Inhabited

namespace SecurityScheme

def layout : Layout :=
  [("type", true), ("description", false), ("name", false), ("in", false), ("flow", false),
    ("authorizationUrl", false), ("tokenUrl", false), ("scopes", true)]

def ofJson? (v : Json) : Option SecurityScheme := do
  let ms ← Record.members? layout v
  let type ← Record.string? ms "type"
  let description ← Record.optionalString? ms "description"
  let name ← Record.optionalString? ms "name"
  let location ← Record.optionalString? ms "in"
  let flow ← Record.optionalString? ms "flow"
  let authorizationUrl ← Record.optionalString? ms "authorizationUrl"
  let tokenUrl ← Record.optionalString? ms "tokenUrl"
  let scopes ← Record.dict? ms "scopes" Json.text?
  return { type, description, name, location, flow, authorizationUrl, tokenUrl, scopes }

end SecurityScheme

/-- An operation. -/
structure Operation where
  tags : List String := []
  summary : Option String := none
  description : Option String := none
  externalDocs : Option ExternalDocs := none
  operationId : Option String := none
  consumes : List String := []
  produces : List String := []
  /-- Its parameters, beside those of its path. -/
  parameters : List (Referable Parameter) := []
  responses : Dict (Referable Response) := ∅
  deprecated : Option Bool := none
  security : List SecurityRequirement := []
deriving Inhabited

namespace Operation

def layout : Layout :=
  [("tags", true), ("summary", false), ("description", false), ("externalDocs", false),
    ("operationId", false), ("consumes", true), ("produces", true), ("parameters", true),
    ("responses", true), ("deprecated", false), ("security", true)]

def ofJson? (v : Json) : Option Operation := do
  let ms ← Record.members? layout v
  let tags ← Record.strings? ms "tags"
  let summary ← Record.optionalString? ms "summary"
  let description ← Record.optionalString? ms "description"
  let externalDocs ← Record.optional? ms "externalDocs" ExternalDocs.ofJson?
  let operationId ← Record.optionalString? ms "operationId"
  let consumes ← Record.strings? ms "consumes"
  let produces ← Record.strings? ms "produces"
  let parameters ← Record.list? ms "parameters" (Referable.ofJson? Parameter.ofJson?)
  let responses ← Record.dict? ms "responses" (Referable.ofJson? Response.ofJson?)
  let deprecated ← Record.optionalBool? ms "deprecated"
  let security ← Record.list? ms "security" SecurityRequirement.ofJson?
  return {
    tags, summary, description, externalDocs, operationId, consumes, produces, parameters,
    responses, deprecated, security }

end Operation

/-- What can be done at one path. -/
structure PathItem where
  get : Option Operation := none
  put : Option Operation := none
  post : Option Operation := none
  delete : Option Operation := none
  options : Option Operation := none
  head : Option Operation := none
  patch : Option Operation := none
  /-- The parameters of all operations of the path. -/
  parameters : List (Referable Parameter) := []
deriving Inhabited

namespace PathItem

def layout : Layout :=
  [("get", false), ("put", false), ("post", false), ("delete", false), ("options", false),
    ("head", false), ("patch", false), ("parameters", true)]

def ofJson? (v : Json) : Option PathItem := do
  let ms ← Record.members? layout v
  let get ← Record.optional? ms "get" Operation.ofJson?
  let put ← Record.optional? ms "put" Operation.ofJson?
  let post ← Record.optional? ms "post" Operation.ofJson?
  let delete ← Record.optional? ms "delete" Operation.ofJson?
  let options ← Record.optional? ms "options" Operation.ofJson?
  let head ← Record.optional? ms "head" Operation.ofJson?
  let patch ← Record.optional? ms "patch" Operation.ofJson?
  let parameters ← Record.list? ms "parameters" (Referable.ofJson? Parameter.ofJson?)
  return { get, put, post, delete, options, head, patch, parameters }

def operations (x : PathItem) : List Operation :=
  [x.get, x.put, x.post, x.delete, x.options, x.head, x.patch].filterMap id

end PathItem

/-- A description of an interface, in the form of version 2 of the format. -/
structure Document where
  swagger : String := ""
  info : Info := {}
  host : Option String := none
  basePath : Option String := none
  schemes : List String := []
  consumes : List String := []
  produces : List String := []
  paths : Dict PathItem := ∅
  definitions : Dict Schema := ∅
  parameters : Dict Parameter := ∅
  responses : Dict Response := ∅
  securityDefinitions : Dict SecurityScheme := ∅
  security : List SecurityRequirement := []
  tags : List Tag := []
  externalDocs : Option ExternalDocs := none
  /-- Every other member. -/
  extensions : Dict Json := ∅
deriving Inhabited

namespace Document

def layout : Layout :=
  [("swagger", true), ("info", true), ("host", false), ("basePath", false), ("schemes", true),
    ("consumes", true), ("produces", true), ("paths", true), ("definitions", true),
    ("parameters", true), ("responses", true), ("securityDefinitions", true), ("security", true),
    ("tags", true), ("externalDocs", false)]

/-- Reads a document, which is an object; its version may be any scalar. -/
def ofJson? (v : Json) : Option Document := do
  let ms ← v.members?
  let info ← Record.withDefault? ms "info" {} Info.ofJson?
  let host ← Record.optionalString? ms "host"
  let basePath ← Record.optionalString? ms "basePath"
  let schemes ← Record.strings? ms "schemes"
  let consumes ← Record.strings? ms "consumes"
  let produces ← Record.strings? ms "produces"
  let paths ← Record.withDefault? ms "paths" ∅ (readPaths? PathItem.ofJson?)
  let definitions ← Record.dict? ms "definitions" Schema.ofJson?
  let parameters ← Record.dict? ms "parameters" Parameter.ofJson?
  let responses ← Record.dict? ms "responses" Response.ofJson?
  let securityDefinitions ← Record.dict? ms "securityDefinitions" SecurityScheme.ofJson?
  let security ← Record.list? ms "security" SecurityRequirement.ofJson?
  let tags ← Record.list? ms "tags" Tag.ofJson?
  let externalDocs ← Record.optional? ms "externalDocs" ExternalDocs.ofJson?
  return {
    swagger := Record.scalarText ms "swagger", info, host, basePath, schemes, consumes, produces,
    paths, definitions, parameters, responses, securityDefinitions, security, tags, externalDocs,
    extensions := Record.unknown layout ms }

end Document

end ApiFolio.Swagger

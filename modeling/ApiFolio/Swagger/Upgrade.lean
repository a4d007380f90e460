import ApiFolio.Swagger.Document
import ApiFolio.Swagger.Pointers
import ApiFolio.Text.Quoted

/-!
# Upgrading documents

A document of version 2 becomes one of version 3: its pointers are moved, its server is put
together from its parts, body and form parameters become request bodies, and security schemes take
their new shape. Form fields at the top of the document are folded into the operations that point
at them. The upgrade refuses bodies without a schema and security schemes that it does not know.
-/

namespace ApiFolio.Swagger

open OpenApi (Referable Schema Server Content MediaType RequestBody Components OAuthFlow OAuthFlows)

/-- Why a document cannot be upgraded. -/
inductive UpgradeError where
  /-- It does not have the form of version 2. -/
  | unreadable
  | bodyWithoutSchema (name : String)
  | unknownFlow (name : String) (flow : Option String)
  | unknownScheme (name type : String)
deriving DecidableEq, Inhabited

/-- What is wrong, in words; nothing is said of a document that does not have the form at all. -/
def UpgradeError.detail? : UpgradeError → Option String
  | unreadable => none
  | bodyWithoutSchema name => some ("body parameter " ++ name ++ " has no schema")
  | unknownFlow name flow =>
    some ("security scheme " ++ name ++ " has unsupported oauth2 flow " ++ Text.quotedOption flow)
  | unknownScheme name type =>
    some ("security scheme " ++ name ++ " has unsupported type " ++ type)

/-- The version of the format that upgraded documents are written in. -/
def upgradedVersion : String := "3.0.3"

/-- The media type of a form with files. -/
def multipartForm : String := "multipart/form-data"

/-- The media type of a form without files. -/
def urlencodedForm : String := "application/x-www-form-urlencoded"

/-- The media types that count: those at hand, else those of the document, else JSON. -/
def mediaTypes (own shared : List String) : List String :=
  if !own.isEmpty then own
  else if !shared.isEmpty then shared
  else ["application/json"]

/-! ## Parameters -/

/-- The keywords of a schema that a parameter may carry itself. -/
def inlineKeywords : List String :=
  ["maximum", "exclusiveMaximum", "minimum", "exclusiveMinimum", "maxLength", "minLength",
    "pattern", "maxItems", "minItems", "uniqueItems", "multipleOf"]

namespace Parameter

/-- Whether the value of a parameter is a file. -/
def isFile (p : Parameter) : Bool := p.type = some "file"

/-- The schema of the value of a parameter: its own, or one made of the keywords it carries. -/
def inlineSchema (p : Parameter) : Schema :=
  match p.schema with
  | some schema => schema
  | none => {
      type := if p.isFile then some (.str "string") else p.type.map .str
      format := if p.isFile then some "binary" else p.format
      items := p.items
      choices := p.choices
      default := p.default
      extra := p.extra.filter fun key _ => inlineKeywords.contains key }

/-- How a list is laid out in version 3. -/
def collectionStyle (format : Option String) (location : String) : Option String × Option Bool :=
  match format with
  | some "csv" => (some (if location = "query" then "form" else "simple"), some false)
  | some "ssv" => (some "spaceDelimited", some false)
  | some "pipes" => (some "pipeDelimited", some false)
  | some "multi" => (some "form", some true)
  | _ => (none, none)

/-- A parameter that is neither a body nor a form field. A place that version 3 does not know
stays as it is. -/
def upgrade (p : Parameter) : OpenApi.Parameter where
  name := p.name
  location := p.location
  description := p.description
  required := p.required
  style := (collectionStyle p.collectionFormat p.location).1
  explode := (collectionStyle p.collectionFormat p.location).2
  schema := some p.inlineSchema
  sample := p.extra.get? "x-example"

/-- A body parameter, under each of the media types. -/
def upgradeBody (p : Parameter) (consumes : List String) : Except UpgradeError RequestBody :=
  match p.schema with
  | none => .error (.bodyWithoutSchema p.name)
  | some schema =>
    .ok {
      description := p.description
      content := Dict.ofList (consumes.map fun mime => (mime, { schema := some schema }))
      required := p.required }

/-- A form field as a property. -/
def property (p : Parameter) : Schema :=
  let schema := p.inlineSchema
  { schema with description := schema.description <|> p.description }

end Parameter

/-- The object that the fields of a form make up. -/
def formSchema (fields : List Parameter) : Schema :=
  let required := (fields.filter fun f => f.required = some true).map fun f => Json.str f.name
  { Schema.ofType "object" with
    properties := Entries.sort (fields.map fun f => (f.name, f.property))
    required := if required.isEmpty then none else some (.arr required) }

/-- The body that the fields of a form make up. -/
def formBody (fields : List Parameter) (consumes : List String) : RequestBody where
  content :=
    let multipart := fields.any Parameter.isFile || consumes.contains multipartForm
    Dict.ofList
      [(if multipart then multipartForm else urlencodedForm,
        { schema := some (formSchema fields) })]
  required := some (fields.any fun f => f.required = some true)

/-- A response, under each of the media types if it has a body. -/
def Response.upgrade (r : Response) (produces : List String) : OpenApi.Response where
  description := r.description
  headers := r.headers
  content :=
    match r.schema with
    | none => ∅
    | some schema =>
      Dict.ofList (produces.map fun mime =>
        (mime, { schema := some schema, sample := r.examples.get? mime }))

/-! ## Operations -/

namespace Document

variable (doc : Document)

/-- The form field at the top of the document that a moved pointer names. -/
def sharedFormField? (pointer : String) : Option Parameter := do
  let name ← OpenApi.Pointer.name? pointer "parameters"
  let p ← doc.parameters.get? name
  if p.location = "formData" then some p else none

/-- What an entry of a parameter list is. -/
inductive ParameterRole where
  /-- A pointer to the body of the request. -/
  | bodyPointer (pointer : String)
  | body (p : Parameter)
  /-- A field of a form. -/
  | field (p : Parameter)
  /-- Any other parameter. -/
  | plain (p : Referable OpenApi.Parameter)

/-- What an entry of a parameter list is. -/
def role : Referable Parameter → ParameterRole
  | .ref pointer =>
    if Text.startsWith (OpenApi.Pointer.areaRoot "requestBodies") pointer then .bodyPointer pointer
    else
      match doc.sharedFormField? pointer with
      | some field => .field field
      | none => .plain (.ref pointer)
  | .item p =>
    if p.location = "body" then .body p
    else if p.location = "formData" then .field p
    else .plain (.item p.upgrade)

/-- Whether an entry of the parameters of a path goes into its operations. -/
def isInherited (p : Referable Parameter) : Bool :=
  match doc.role p with
  | .plain _ => false
  | _ => true

/-- The entries that stay parameters, in version 3. -/
def plainParameters (ps : List (Referable Parameter)) : List (Referable OpenApi.Parameter) :=
  ps.filterMap fun p =>
    match doc.role p with
    | .plain x => some x
    | _ => none

/-- The form fields among the entries; of equal names the last, in its place. -/
def formFields (ps : List (Referable Parameter)) : List Parameter :=
  ps.foldl (fun fields p =>
    match doc.role p with
    | .field f => (fields.filter fun g => g.name ≠ f.name) ++ [f]
    | _ => fields) []

/-- The body among the entries; of several the last. -/
def explicitBody (consumes : List String) (ps : List (Referable Parameter)) :
    Except UpgradeError (Option (Referable RequestBody)) :=
  ps.foldlM (fun body p =>
    match doc.role p with
    | .bodyPointer pointer => .ok (some (.ref pointer))
    | .body p => (p.upgradeBody consumes).map fun b => some (.item b)
    | _ => .ok body) none

/-- The body of a request: the one among the entries, or that of the form fields. -/
def requestBody (consumes : List String) (ps : List (Referable Parameter)) :
    Except UpgradeError (Option (Referable RequestBody)) := do
  match ← doc.explicitBody consumes ps with
  | some body => return some body
  | none =>
    match doc.formFields ps with
    | [] => return none
    | f :: fs => return some (.item (formBody (f :: fs) consumes))

/-- An operation, with the parameters of its path that go into it. -/
def upgradeOperation (inherited : List (Referable Parameter)) (op : Operation) :
    Except UpgradeError OpenApi.Operation := do
  let ps := inherited ++ op.parameters
  let requestBody ← doc.requestBody (mediaTypes op.consumes doc.consumes) ps
  let produces := mediaTypes op.produces doc.produces
  return {
    tags := op.tags, summary := op.summary, description := op.description,
    externalDocs := op.externalDocs, operationId := op.operationId,
    parameters := doc.plainParameters ps, requestBody
    responses := op.responses.map fun r =>
      match r with
      | .ref pointer => .ref pointer
      | .item r => .item (r.upgrade produces)
    deprecated := op.deprecated, security := op.security }

def upgradeOperation? (inherited : List (Referable Parameter)) :
    Option Operation → Except UpgradeError (Option OpenApi.Operation)
  | none => .ok none
  | some op => (doc.upgradeOperation inherited op).map some

def upgradePathItem (item : PathItem) : Except UpgradeError OpenApi.PathItem := do
  let inherited := item.parameters.filter doc.isInherited
  let get ← doc.upgradeOperation? inherited item.get
  let put ← doc.upgradeOperation? inherited item.put
  let post ← doc.upgradeOperation? inherited item.post
  let delete ← doc.upgradeOperation? inherited item.delete
  let options ← doc.upgradeOperation? inherited item.options
  let head ← doc.upgradeOperation? inherited item.head
  let patch ← doc.upgradeOperation? inherited item.patch
  return {
    get, put, post, delete, options, head, patch,
    parameters := doc.plainParameters item.parameters }

/-! ## The document -/

/-- The servers: the host under each scheme, or the base path alone. -/
def servers : List Server :=
  let basePath := doc.basePath.getD ""
  match doc.host.filter fun h => !h.isEmpty with
  | some host =>
    (if doc.schemes.isEmpty then ["https"] else doc.schemes).map fun scheme =>
      { url := scheme ++ "://" ++ host ++ basePath }
  | none => if basePath.isEmpty then [] else [{ url := basePath }]

end Document

def SecurityScheme.upgrade (name : String) (s : SecurityScheme) :
    Except UpgradeError OpenApi.SecurityScheme :=
  if s.type = "basic" then
    .ok { description := s.description, type := "http", scheme := some "basic" }
  else if s.type = "apiKey" then
    .ok { description := s.description, type := "apiKey", name := s.name, location := s.location }
  else if s.type = "oauth2" then
    let flow : OAuthFlow :=
      { authorizationUrl := s.authorizationUrl, tokenUrl := s.tokenUrl, scopes := s.scopes }
    let flows? : Option OAuthFlows :=
      match s.flow with
      | some "implicit" => some { implicit := some flow }
      | some "password" => some { password := some flow }
      | some "application" => some { clientCredentials := some flow }
      | some "accessCode" => some { authorizationCode := some flow }
      | _ => none
    match flows? with
    | some flows => .ok { description := s.description, type := "oauth2", flows := some flows }
    | none => .error (.unknownFlow name s.flow)
  else .error (.unknownScheme name s.type)

/-- Upgrades the values of a list of entries one after the other. -/
def upgradeEntries {α β : Type} (upgrade : String → α → Except UpgradeError β) :
    List (String × α) → Except UpgradeError (List (String × β))
  | [] => .ok []
  | (key, x) :: rest => do
    let y ← upgrade key x
    let ys ← upgradeEntries upgrade rest
    return (key, y) :: ys

namespace Document

variable (doc : Document)

/-- The parameters at the top that are bodies. -/
def bodyParameters : List (String × Parameter) :=
  doc.parameters.entries.filter fun e => e.2.location = "body"

/-- The parameters at the top that are neither bodies nor form fields. -/
def plainSharedParameters : List (String × Parameter) :=
  doc.parameters.entries.filter fun e => e.2.location ≠ "body" ∧ e.2.location ≠ "formData"

/-- The reusable parts. -/
def components : Except UpgradeError Components := do
  let consumes := mediaTypes [] doc.consumes
  let produces := mediaTypes [] doc.produces
  let bodies ← upgradeEntries (fun _ p => p.upgradeBody consumes) doc.bodyParameters
  let schemes ← upgradeEntries SecurityScheme.upgrade doc.securityDefinitions.entries
  return {
    schemas := doc.definitions
    responses := doc.responses.map fun r => .item (r.upgrade produces)
    parameters :=
      Dict.ofList (Entries.mapValues (fun p => .item p.upgrade) doc.plainSharedParameters)
    requestBodies := Dict.ofList (Entries.mapValues .item bodies)
    securitySchemes := Dict.ofList (Entries.mapValues .item schemes) }

/-- The extensions, with the base path among them unless it is empty or already there. -/
def upgradedExtensions : Dict Json :=
  match doc.basePath.filter fun p => !p.isEmpty with
  | some basePath => doc.extensions.insertIfNew "x-basePath" (.str basePath)
  | none => doc.extensions

/-- Upgrades a document whose pointers have been moved. -/
def upgrade : Except UpgradeError OpenApi.Document := do
  let paths ← upgradeEntries (fun _ item => doc.upgradePathItem item) doc.paths.entries
  let components ← doc.components
  return {
    openapi := upgradedVersion, info := doc.info, servers := doc.servers,
    paths := Dict.ofList paths, components := some components, security := doc.security,
    tags := doc.tags, externalDocs := doc.externalDocs, extensions := doc.upgradedExtensions }

end Document

/-- Reads a raw document of version 2, after moving its pointers. -/
def readMoved? (raw : Json) : Option Document :=
  Document.ofJson? (movePointers (bodyParameterNames raw) raw)

/-- Upgrades a raw document of version 2. -/
def upgrade (raw : Json) : Except UpgradeError OpenApi.Document :=
  match readMoved? raw with
  | none => .error .unreadable
  | some doc => doc.upgrade

end ApiFolio.Swagger

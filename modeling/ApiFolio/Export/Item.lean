import ApiFolio.OpenApi.Operation
import ApiFolio.OpenApi.Security

/-!
# What an export consists of

The leaves of an export: operations with their parameters, responses and bodies, reusable schemas,
security schemes and environments. Each writes its members in the order of its fields.
-/

namespace ApiFolio.Export

open OpenApi (Schema OAuthFlows)

/-- A truth value that is written only if it holds. -/
def putFlag (name : String) (b : Bool) : List (String × Json) :=
  if b then [(name, .bool true)] else []

/-- A parameter of an exported operation. -/
structure ParameterItem where
  name : String
  required : Bool
  description : Option String
  deprecated : Bool
  schema : Option Schema
  sample : Option Json

def ParameterItem.toJson (x : ParameterItem) : Json :=
  .obj (Record.put "name" (.str x.name) ++ Record.put "required" (.bool x.required)
    ++ Record.putOption "description" .str x.description ++ putFlag "deprecated" x.deprecated
    ++ Record.putOption "schema" Schema.toJson x.schema ++ Record.putOption "example" id x.sample)

/-- The parameters of an exported operation by where they stand. -/
structure ParameterBuckets where
  path : List ParameterItem := []
  query : List ParameterItem := []
  header : List ParameterItem := []
  cookie : List ParameterItem := []
deriving Inhabited

def ParameterBuckets.toJson (x : ParameterBuckets) : Json :=
  .obj [("path", .arr (x.path.map ParameterItem.toJson)),
    ("query", .arr (x.query.map ParameterItem.toJson)),
    ("header", .arr (x.header.map ParameterItem.toJson)),
    ("cookie", .arr (x.cookie.map ParameterItem.toJson))]

/-- A response of an exported operation. -/
structure ResponseItem where
  /-- Verb, path and status, with colons between them. -/
  id : String
  /-- The status as it is written in the document. -/
  name : String
  /-- The status as a number, zero if it is none. -/
  code : Int
  /-- The first media type. -/
  contentType : String
  description : Option String
  jsonSchema : Option Schema

def ResponseItem.toJson (x : ResponseItem) : Json :=
  .obj (Record.put "id" (.str x.id) ++ Record.put "name" (.str x.name)
    ++ Record.put "code" (.num (.int x.code)) ++ Record.put "contentType" (.str x.contentType)
    ++ Record.putOption "description" .str x.description
    ++ Record.putOption "jsonSchema" Schema.toJson x.jsonSchema)

/-- The body of the request of an exported operation. -/
structure RequestBodyItem where
  required : Bool
  /-- The first media type. -/
  contentType : String
  description : Option String
  jsonSchema : Option Schema

def RequestBodyItem.toJson (x : RequestBodyItem) : Json :=
  .obj (Record.put "required" (.bool x.required) ++ Record.put "contentType" (.str x.contentType)
    ++ Record.putOption "description" .str x.description
    ++ Record.putOption "jsonSchema" Schema.toJson x.jsonSchema)

/-- An exported operation. -/
structure ApiItem where
  name : String := ""
  description : Option String := none
  operationId : Option String := none
  /-- Its path, or the name of its webhook. -/
  path : String := ""
  method : String := ""
  tags : List String := []
  deprecated : Bool := false
  /-- Whether it is called by the interface and not by its users. -/
  webhook : Bool := false
  parameters : ParameterBuckets := {}
  /-- Its responses, in the order of their status. -/
  responses : List ResponseItem := []
  requestBody : Option RequestBodyItem := none
deriving Inhabited

def ApiItem.toJson (x : ApiItem) : Json :=
  .obj (Record.put "name" (.str x.name) ++ Record.putOption "description" .str x.description
    ++ Record.putOption "operationId" .str x.operationId ++ Record.put "path" (.str x.path)
    ++ Record.put "method" (.str x.method) ++ Record.put "tags" (.arr (x.tags.map .str))
    ++ putFlag "deprecated" x.deprecated ++ putFlag "webhook" x.webhook
    ++ Record.put "parameters" x.parameters.toJson
    ++ Record.put "responses" (.arr (x.responses.map ResponseItem.toJson))
    ++ Record.putOption "requestBody" RequestBodyItem.toJson x.requestBody)

/-- A reusable schema. -/
structure SchemaItem where
  /-- The pointer to the component. -/
  id : String
  name : String
  description : Option String
  jsonSchema : Option Schema

def SchemaItem.toJson (x : SchemaItem) : Json :=
  .obj (Record.put "id" (.str x.id) ++ Record.put "name" (.str x.name)
    ++ Record.putOption "description" .str x.description
    ++ Record.putOption "jsonSchema" Schema.toJson x.jsonSchema)

/-- The reusable schemas of one area of the components. -/
structure SchemaFolder where
  name : String
  items : List SchemaItem

def SchemaFolder.toJson (x : SchemaFolder) : Json :=
  .obj [("name", .str x.name), ("items", .arr (x.items.map SchemaItem.toJson))]

/-- An exported security scheme. -/
structure SecuritySchemeItem where
  name : String
  type : String
  description : Option String
  /-- Where the parameter that carries a key stands. -/
  location : Option String
  /-- The name of that parameter. -/
  paramName : Option String
  /-- The scheme of the authorization header. -/
  scheme : Option String
  bearerFormat : Option String
  flows : Option OAuthFlows
  openIdConnectUrl : Option String

def SecuritySchemeItem.toJson (x : SecuritySchemeItem) : Json :=
  .obj (Record.put "name" (.str x.name) ++ Record.put "type" (.str x.type)
    ++ Record.putOption "description" .str x.description ++ Record.putOption "in" .str x.location
    ++ Record.putOption "paramName" .str x.paramName ++ Record.putOption "scheme" .str x.scheme
    ++ Record.putOption "bearerFormat" .str x.bearerFormat
    ++ Record.putOption "flows" OAuthFlows.toJson x.flows
    ++ Record.putOption "openIdConnectUrl" .str x.openIdConnectUrl)

/-- A named list of security schemes. -/
structure SecurityCollection where
  name : String
  /-- The schemes, in the order of their names. -/
  items : List SecuritySchemeItem

def SecurityCollection.toJson (x : SecurityCollection) : Json :=
  .obj [("name", .str x.name), ("items", .arr (x.items.map SecuritySchemeItem.toJson))]

/-- A server as a place to send requests to. -/
structure Environment where
  name : String
  /-- Its address, with the variables filled in. -/
  baseUrl : String
  description : Option String
  settings : Dict String

def Environment.toJson (x : Environment) : Json :=
  .obj (Record.put "name" (.str x.name) ++ Record.put "baseUrl" (.str x.baseUrl)
    ++ Record.putOption "description" .str x.description
    ++ Record.put "variables" (Record.writeDict .str x.settings))

end ApiFolio.Export

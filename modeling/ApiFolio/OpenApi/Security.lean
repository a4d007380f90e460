import ApiFolio.Record

/-!
# Security schemes

How a caller proves who they are: by the mechanism that a scheme names, for OAuth by one or more
flows.
-/

namespace ApiFolio.OpenApi

/-- One flow of OAuth. -/
structure OAuthFlow where
  authorizationUrl : Option String := none
  tokenUrl : Option String := none
  refreshUrl : Option String := none
  scopes : Dict String := ∅
deriving Inhabited

namespace OAuthFlow

def layout : Layout :=
  [("authorizationUrl", false), ("tokenUrl", false), ("refreshUrl", false), ("scopes", true)]

def ofJson? (v : Json) : Option OAuthFlow := do
  let ms ← Record.members? layout v
  let authorizationUrl ← Record.optionalString? ms "authorizationUrl"
  let tokenUrl ← Record.optionalString? ms "tokenUrl"
  let refreshUrl ← Record.optionalString? ms "refreshUrl"
  let scopes ← Record.dict? ms "scopes" Json.text?
  return { authorizationUrl, tokenUrl, refreshUrl, scopes }

def toJson (x : OAuthFlow) : Json :=
  .obj (Record.putOption "authorizationUrl" .str x.authorizationUrl
    ++ Record.putOption "tokenUrl" .str x.tokenUrl
    ++ Record.putOption "refreshUrl" .str x.refreshUrl
    ++ Record.put "scopes" (Record.writeDict .str x.scopes))

end OAuthFlow

/-- The flows of OAuth that a scheme offers. -/
structure OAuthFlows where
  implicit : Option OAuthFlow := none
  password : Option OAuthFlow := none
  clientCredentials : Option OAuthFlow := none
  authorizationCode : Option OAuthFlow := none
deriving Inhabited

namespace OAuthFlows

def layout : Layout :=
  [("implicit", false), ("password", false), ("clientCredentials", false),
    ("authorizationCode", false)]

def ofJson? (v : Json) : Option OAuthFlows := do
  let ms ← Record.members? layout v
  let implicit ← Record.optional? ms "implicit" OAuthFlow.ofJson?
  let password ← Record.optional? ms "password" OAuthFlow.ofJson?
  let clientCredentials ← Record.optional? ms "clientCredentials" OAuthFlow.ofJson?
  let authorizationCode ← Record.optional? ms "authorizationCode" OAuthFlow.ofJson?
  return { implicit, password, clientCredentials, authorizationCode }

def toJson (x : OAuthFlows) : Json :=
  .obj (Record.putOption "implicit" OAuthFlow.toJson x.implicit
    ++ Record.putOption "password" OAuthFlow.toJson x.password
    ++ Record.putOption "clientCredentials" OAuthFlow.toJson x.clientCredentials
    ++ Record.putOption "authorizationCode" OAuthFlow.toJson x.authorizationCode)

end OAuthFlows

/-- A way to prove who one is. -/
structure SecurityScheme where
  type : String := ""
  description : Option String := none
  /-- The name of the parameter that carries a key. -/
  name : Option String := none
  /-- Where that parameter stands. -/
  location : Option String := none
  /-- The scheme of the authorization header. -/
  scheme : Option String := none
  bearerFormat : Option String := none
  flows : Option OAuthFlows := none
  openIdConnectUrl : Option String := none
deriving Inhabited

namespace SecurityScheme

def layout : Layout :=
  [("type", true), ("description", false), ("name", false), ("in", false), ("scheme", false),
    ("bearerFormat", false), ("flows", false), ("openIdConnectUrl", false)]

def ofJson? (v : Json) : Option SecurityScheme := do
  let ms ← Record.members? layout v
  let type ← Record.string? ms "type"
  let description ← Record.optionalString? ms "description"
  let name ← Record.optionalString? ms "name"
  let location ← Record.optionalString? ms "in"
  let scheme ← Record.optionalString? ms "scheme"
  let bearerFormat ← Record.optionalString? ms "bearerFormat"
  let flows ← Record.optional? ms "flows" OAuthFlows.ofJson?
  let openIdConnectUrl ← Record.optionalString? ms "openIdConnectUrl"
  return { type, description, name, location, scheme, bearerFormat, flows, openIdConnectUrl }

def toJson (x : SecurityScheme) : Json :=
  .obj (Record.put "type" (.str x.type) ++ Record.putOption "description" .str x.description
    ++ Record.putOption "name" .str x.name ++ Record.putOption "in" .str x.location
    ++ Record.putOption "scheme" .str x.scheme
    ++ Record.putOption "bearerFormat" .str x.bearerFormat
    ++ Record.putOption "flows" OAuthFlows.toJson x.flows
    ++ Record.putOption "openIdConnectUrl" .str x.openIdConnectUrl)

end SecurityScheme

end ApiFolio.OpenApi

import ApiFolio.OpenApi.Document
import ApiFolio.Proofs.Dict.Lookup

/-!
# The fields that were read

When a record has been read, each of its fields has been read, from the members of one object or
array. The records here have one field for each field of the type they are about.
-/

namespace ApiFolio.OpenApi

/-- A variable of a server, each field read from the member of its name. -/
structure ServerVariable.ReadFrom (ms : List (String × Json)) (x : ServerVariable) : Prop where
  choices : Record.optional? ms "enum" Json.items? = some x.choices
  description : Record.optionalString? ms "description" = some x.description
  default : x.default = Record.scalarText ms "default"

theorem ServerVariable.ofJson?_eq_some_iff {v : Json} {x : ServerVariable} :
    ofJson? v = some x ↔ ∃ ms, Record.members? layout v = some ms ∧ ReadFrom ms x := by
  constructor
  · intro h
    obtain ⟨ms, hms, h⟩ := Option.bind_eq_some_iff.1 h
    obtain ⟨choices, hchoices, h⟩ := Option.bind_eq_some_iff.1 h
    obtain ⟨description, hdescription, h⟩ := Option.bind_eq_some_iff.1 h
    cases h
    exact ⟨ms, hms, ⟨hchoices, hdescription, rfl⟩⟩
  · rintro ⟨ms, hms, h⟩
    simp only [ofJson?, hms, h.choices, h.description, ← h.default, Option.bind_eq_bind,
      Option.bind_some]
    rfl

/-- A server, each field read from the member of its name. -/
structure Server.ReadFrom (ms : List (String × Json)) (x : Server) : Prop where
  url : Record.string? ms "url" = some x.url
  description : Record.optionalString? ms "description" = some x.description
  slots : Record.dict? ms "variables" ServerVariable.ofJson? = some x.slots

theorem Server.ofJson?_eq_some_iff {v : Json} {x : Server} :
    ofJson? v = some x ↔ ∃ ms, Record.members? layout v = some ms ∧ ReadFrom ms x := by
  constructor
  · intro h
    obtain ⟨ms, hms, h⟩ := Option.bind_eq_some_iff.1 h
    obtain ⟨url, hurl, h⟩ := Option.bind_eq_some_iff.1 h
    obtain ⟨description, hdescription, h⟩ := Option.bind_eq_some_iff.1 h
    obtain ⟨slots, hslots, h⟩ := Option.bind_eq_some_iff.1 h
    cases h
    exact ⟨ms, hms, ⟨hurl, hdescription, hslots⟩⟩
  · rintro ⟨ms, hms, h⟩
    simp only [ofJson?, hms, h.url, h.description, h.slots, Option.bind_eq_bind, Option.bind_some]
    rfl

/-- A representation, each field read from the member of its name. -/
structure MediaType.ReadFrom (ms : List (String × Json)) (x : MediaType) : Prop where
  schema : Record.optional? ms "schema" Schema.ofJson? = some x.schema
  samples : Record.dict? ms "examples" some = some x.samples
  sample : x.sample = Record.value ms "example"

theorem MediaType.ofJson?_eq_some_iff {v : Json} {x : MediaType} :
    ofJson? v = some x ↔ ∃ ms, Record.members? layout v = some ms ∧ ReadFrom ms x := by
  constructor
  · intro h
    obtain ⟨ms, hms, h⟩ := Option.bind_eq_some_iff.1 h
    obtain ⟨schema, hschema, h⟩ := Option.bind_eq_some_iff.1 h
    obtain ⟨samples, hsamples, h⟩ := Option.bind_eq_some_iff.1 h
    cases h
    exact ⟨ms, hms, ⟨hschema, hsamples, rfl⟩⟩
  · rintro ⟨ms, hms, h⟩
    simp only [ofJson?, hms, h.schema, h.samples, ← h.sample, Option.bind_eq_bind,
      Option.bind_some]
    rfl

/-- A body, each field read from the member of its name. -/
structure RequestBody.ReadFrom (ms : List (String × Json)) (x : RequestBody) : Prop where
  description : Record.optionalString? ms "description" = some x.description
  content : Record.dict? ms "content" MediaType.ofJson? = some x.content
  required : Record.optionalBool? ms "required" = some x.required

theorem RequestBody.ofJson?_eq_some_iff {v : Json} {x : RequestBody} :
    ofJson? v = some x ↔ ∃ ms, Record.members? layout v = some ms ∧ ReadFrom ms x := by
  constructor
  · intro h
    obtain ⟨ms, hms, h⟩ := Option.bind_eq_some_iff.1 h
    obtain ⟨description, hdescription, h⟩ := Option.bind_eq_some_iff.1 h
    obtain ⟨content, hcontent, h⟩ := Option.bind_eq_some_iff.1 h
    obtain ⟨required, hrequired, h⟩ := Option.bind_eq_some_iff.1 h
    cases h
    exact ⟨ms, hms, ⟨hdescription, hcontent, hrequired⟩⟩
  · rintro ⟨ms, hms, h⟩
    simp only [ofJson?, hms, h.description, h.content, h.required, Option.bind_eq_bind,
      Option.bind_some]
    rfl

/-- A parameter, each field read from the member of its name. -/
structure Parameter.ReadFrom (ms : List (String × Json)) (x : Parameter) : Prop where
  name : Record.string? ms "name" = some x.name
  location : Record.string? ms "in" = some x.location
  description : Record.optionalString? ms "description" = some x.description
  required : Record.optionalBool? ms "required" = some x.required
  deprecated : Record.optionalBool? ms "deprecated" = some x.deprecated
  style : Record.optionalString? ms "style" = some x.style
  explode : Record.optionalBool? ms "explode" = some x.explode
  schema : Record.optional? ms "schema" Schema.ofJson? = some x.schema
  content : Record.dict? ms "content" MediaType.ofJson? = some x.content
  sample : x.sample = Record.value ms "example"

theorem Parameter.ofJson?_eq_some_iff {v : Json} {x : Parameter} :
    ofJson? v = some x ↔ ∃ ms, Record.members? layout v = some ms ∧ ReadFrom ms x := by
  constructor
  · intro h
    obtain ⟨ms, hms, h⟩ := Option.bind_eq_some_iff.1 h
    obtain ⟨name, hname, h⟩ := Option.bind_eq_some_iff.1 h
    obtain ⟨location, hlocation, h⟩ := Option.bind_eq_some_iff.1 h
    obtain ⟨description, hdescription, h⟩ := Option.bind_eq_some_iff.1 h
    obtain ⟨required, hrequired, h⟩ := Option.bind_eq_some_iff.1 h
    obtain ⟨deprecated, hdeprecated, h⟩ := Option.bind_eq_some_iff.1 h
    obtain ⟨style, hstyle, h⟩ := Option.bind_eq_some_iff.1 h
    obtain ⟨explode, hexplode, h⟩ := Option.bind_eq_some_iff.1 h
    obtain ⟨schema, hschema, h⟩ := Option.bind_eq_some_iff.1 h
    obtain ⟨content, hcontent, h⟩ := Option.bind_eq_some_iff.1 h
    cases h
    exact ⟨ms, hms, ⟨hname, hlocation, hdescription, hrequired, hdeprecated, hstyle, hexplode,
      hschema, hcontent, rfl⟩⟩
  · rintro ⟨ms, hms, h⟩
    simp only [ofJson?, hms, h.name, h.location, h.description, h.required, h.deprecated, h.style,
      h.explode, h.schema, h.content, ← h.sample, Option.bind_eq_bind, Option.bind_some]
    rfl

/-- A response, each field read from the member of its name. -/
structure Response.ReadFrom (ms : List (String × Json)) (x : Response) : Prop where
  headers : Record.dict? ms "headers" some = some x.headers
  content : Record.dict? ms "content" MediaType.ofJson? = some x.content
  links : Record.dict? ms "links" some = some x.links
  description : x.description = Record.scalarText ms "description"

theorem Response.ofJson?_eq_some_iff {v : Json} {x : Response} :
    ofJson? v = some x ↔ ∃ ms, Record.members? layout v = some ms ∧ ReadFrom ms x := by
  constructor
  · intro h
    obtain ⟨ms, hms, h⟩ := Option.bind_eq_some_iff.1 h
    obtain ⟨headers, hheaders, h⟩ := Option.bind_eq_some_iff.1 h
    obtain ⟨content, hcontent, h⟩ := Option.bind_eq_some_iff.1 h
    obtain ⟨links, hlinks, h⟩ := Option.bind_eq_some_iff.1 h
    cases h
    exact ⟨ms, hms, ⟨hheaders, hcontent, hlinks, rfl⟩⟩
  · rintro ⟨ms, hms, h⟩
    simp only [ofJson?, hms, h.headers, h.content, h.links, ← h.description, Option.bind_eq_bind,
      Option.bind_some]
    rfl

/-- An operation, each field read from the member of its name. -/
structure Operation.ReadFrom (ms : List (String × Json)) (x : Operation) : Prop where
  tags : Record.strings? ms "tags" = some x.tags
  summary : Record.optionalString? ms "summary" = some x.summary
  description : Record.optionalString? ms "description" = some x.description
  externalDocs : Record.optional? ms "externalDocs" ExternalDocs.ofJson? = some x.externalDocs
  operationId : Record.optionalString? ms "operationId" = some x.operationId
  parameters : Record.list? ms "parameters" Parameter.referable? = some x.parameters
  requestBody : Record.optional? ms "requestBody" (Referable.ofJson? RequestBody.ofJson?) =
    some x.requestBody
  responses : Record.dict? ms "responses" (Referable.ofJson? Response.ofJson?) = some x.responses
  deprecated : Record.optionalBool? ms "deprecated" = some x.deprecated
  security : Record.list? ms "security" SecurityRequirement.ofJson? = some x.security
  servers : Record.list? ms "servers" Server.ofJson? = some x.servers

theorem Operation.ofJson?_eq_some_iff {v : Json} {x : Operation} :
    ofJson? v = some x ↔ ∃ ms, Record.members? layout v = some ms ∧ ReadFrom ms x := by
  constructor
  · intro h
    obtain ⟨ms, hms, h⟩ := Option.bind_eq_some_iff.1 h
    obtain ⟨tags, htags, h⟩ := Option.bind_eq_some_iff.1 h
    obtain ⟨summary, hsummary, h⟩ := Option.bind_eq_some_iff.1 h
    obtain ⟨description, hdescription, h⟩ := Option.bind_eq_some_iff.1 h
    obtain ⟨externalDocs, hexternalDocs, h⟩ := Option.bind_eq_some_iff.1 h
    obtain ⟨operationId, hoperationId, h⟩ := Option.bind_eq_some_iff.1 h
    obtain ⟨parameters, hparameters, h⟩ := Option.bind_eq_some_iff.1 h
    obtain ⟨requestBody, hrequestBody, h⟩ := Option.bind_eq_some_iff.1 h
    obtain ⟨responses, hresponses, h⟩ := Option.bind_eq_some_iff.1 h
    obtain ⟨deprecated, hdeprecated, h⟩ := Option.bind_eq_some_iff.1 h
    obtain ⟨security, hsecurity, h⟩ := Option.bind_eq_some_iff.1 h
    obtain ⟨servers, hservers, h⟩ := Option.bind_eq_some_iff.1 h
    cases h
    exact ⟨ms, hms, ⟨htags, hsummary, hdescription, hexternalDocs, hoperationId, hparameters,
      hrequestBody, hresponses, hdeprecated, hsecurity, hservers⟩⟩
  · rintro ⟨ms, hms, h⟩
    simp only [ofJson?, hms, h.tags, h.summary, h.description, h.externalDocs, h.operationId,
      h.parameters, h.requestBody, h.responses, h.deprecated, h.security, h.servers,
      Option.bind_eq_bind, Option.bind_some]
    rfl

/-- A path item, each field read from the member of its name. -/
structure PathItem.ReadFrom (ms : List (String × Json)) (x : PathItem) : Prop where
  summary : Record.optionalString? ms "summary" = some x.summary
  description : Record.optionalString? ms "description" = some x.description
  get : Record.optional? ms "get" Operation.ofJson? = some x.get
  put : Record.optional? ms "put" Operation.ofJson? = some x.put
  post : Record.optional? ms "post" Operation.ofJson? = some x.post
  delete : Record.optional? ms "delete" Operation.ofJson? = some x.delete
  options : Record.optional? ms "options" Operation.ofJson? = some x.options
  head : Record.optional? ms "head" Operation.ofJson? = some x.head
  patch : Record.optional? ms "patch" Operation.ofJson? = some x.patch
  trace : Record.optional? ms "trace" Operation.ofJson? = some x.trace
  servers : Record.list? ms "servers" Server.ofJson? = some x.servers
  parameters : Record.list? ms "parameters" Parameter.referable? = some x.parameters

theorem PathItem.ofJson?_eq_some_iff {v : Json} {x : PathItem} :
    ofJson? v = some x ↔ ∃ ms, Record.members? layout v = some ms ∧ ReadFrom ms x := by
  constructor
  · intro h
    obtain ⟨ms, hms, h⟩ := Option.bind_eq_some_iff.1 h
    obtain ⟨summary, hsummary, h⟩ := Option.bind_eq_some_iff.1 h
    obtain ⟨description, hdescription, h⟩ := Option.bind_eq_some_iff.1 h
    obtain ⟨get, hget, h⟩ := Option.bind_eq_some_iff.1 h
    obtain ⟨put, hput, h⟩ := Option.bind_eq_some_iff.1 h
    obtain ⟨post, hpost, h⟩ := Option.bind_eq_some_iff.1 h
    obtain ⟨delete, hdelete, h⟩ := Option.bind_eq_some_iff.1 h
    obtain ⟨options, hoptions, h⟩ := Option.bind_eq_some_iff.1 h
    obtain ⟨head, hhead, h⟩ := Option.bind_eq_some_iff.1 h
    obtain ⟨patch, hpatch, h⟩ := Option.bind_eq_some_iff.1 h
    obtain ⟨trace, htrace, h⟩ := Option.bind_eq_some_iff.1 h
    obtain ⟨servers, hservers, h⟩ := Option.bind_eq_some_iff.1 h
    obtain ⟨parameters, hparameters, h⟩ := Option.bind_eq_some_iff.1 h
    cases h
    exact ⟨ms, hms, ⟨hsummary, hdescription, hget, hput, hpost, hdelete, hoptions, hhead, hpatch,
      htrace, hservers, hparameters⟩⟩
  · rintro ⟨ms, hms, h⟩
    simp only [ofJson?, hms, h.summary, h.description, h.get, h.put, h.post, h.delete, h.options,
      h.head, h.patch, h.trace, h.servers, h.parameters, Option.bind_eq_bind, Option.bind_some]
    rfl

/-- Components, each field read from the member of its name. -/
structure Components.ReadFrom (ms : List (String × Json)) (x : Components) : Prop where
  schemas : Record.dict? ms "schemas" Schema.ofJson? = some x.schemas
  responses : Record.dict? ms "responses" (Referable.ofJson? Response.ofJson?) = some x.responses
  parameters : Record.dict? ms "parameters" Parameter.referable? = some x.parameters
  requestBodies : Record.dict? ms "requestBodies" (Referable.ofJson? RequestBody.ofJson?) =
    some x.requestBodies
  securitySchemes : Record.dict? ms "securitySchemes" (Referable.ofJson? SecurityScheme.ofJson?) =
    some x.securitySchemes
  extra : x.extra = Record.unknown layout ms

theorem Components.ofJson?_eq_some_iff {v : Json} {x : Components} :
    ofJson? v = some x ↔ ∃ ms, v.members? = some ms ∧ ReadFrom ms x := by
  constructor
  · intro h
    obtain ⟨ms, hms, h⟩ := Option.bind_eq_some_iff.1 h
    obtain ⟨schemas, hschemas, h⟩ := Option.bind_eq_some_iff.1 h
    obtain ⟨responses, hresponses, h⟩ := Option.bind_eq_some_iff.1 h
    obtain ⟨parameters, hparameters, h⟩ := Option.bind_eq_some_iff.1 h
    obtain ⟨requestBodies, hrequestBodies, h⟩ := Option.bind_eq_some_iff.1 h
    obtain ⟨securitySchemes, hsecuritySchemes, h⟩ := Option.bind_eq_some_iff.1 h
    cases h
    exact ⟨ms, hms, ⟨hschemas, hresponses, hparameters, hrequestBodies, hsecuritySchemes, rfl⟩⟩
  · rintro ⟨ms, hms, h⟩
    simp only [ofJson?, hms, h.schemas, h.responses, h.parameters, h.requestBodies,
      h.securitySchemes, ← h.extra, Option.bind_eq_bind, Option.bind_some]
    rfl

/-- A document, each field read from the member of its name. -/
structure Document.ReadFrom (ms : List (String × Json)) (x : Document) : Prop where
  info : Record.withDefault? ms "info" {} Info.ofJson? = some x.info
  servers : Record.list? ms "servers" Server.ofJson? = some x.servers
  paths : Record.withDefault? ms "paths" ∅ (readPaths? PathItem.ofJson?) = some x.paths
  components : Record.optional? ms "components" Components.ofJson? = some x.components
  security : Record.list? ms "security" SecurityRequirement.ofJson? = some x.security
  tags : Record.list? ms "tags" Tag.ofJson? = some x.tags
  externalDocs : Record.optional? ms "externalDocs" ExternalDocs.ofJson? = some x.externalDocs
  openapi : x.openapi = Record.scalarText ms "openapi"
  extensions : x.extensions = Record.unknown layout ms

theorem Document.ofJson?_eq_some_iff {v : Json} {x : Document} :
    ofJson? v = some x ↔ ∃ ms, v.members? = some ms ∧ ReadFrom ms x := by
  constructor
  · intro h
    obtain ⟨ms, hms, h⟩ := Option.bind_eq_some_iff.1 h
    obtain ⟨info, hinfo, h⟩ := Option.bind_eq_some_iff.1 h
    obtain ⟨servers, hservers, h⟩ := Option.bind_eq_some_iff.1 h
    obtain ⟨paths, hpaths, h⟩ := Option.bind_eq_some_iff.1 h
    obtain ⟨components, hcomponents, h⟩ := Option.bind_eq_some_iff.1 h
    obtain ⟨security, hsecurity, h⟩ := Option.bind_eq_some_iff.1 h
    obtain ⟨tags, htags, h⟩ := Option.bind_eq_some_iff.1 h
    obtain ⟨externalDocs, hexternalDocs, h⟩ := Option.bind_eq_some_iff.1 h
    cases h
    exact ⟨ms, hms, ⟨hinfo, hservers, hpaths, hcomponents, hsecurity, htags, hexternalDocs, rfl,
      rfl⟩⟩
  · rintro ⟨ms, hms, h⟩
    simp only [ofJson?, hms, h.info, h.servers, h.paths, h.components, h.security, h.tags,
      h.externalDocs, ← h.openapi, ← h.extensions, Option.bind_eq_bind, Option.bind_some]
    rfl

/-- Paths are read entry by entry, without extensions and without what does not read. -/
theorem get?_readPaths? {α : Type} {read : Json → Option α} {members : List (String × Json)}
    {paths : Dict α} (h : readPaths? read (.obj members) = some paths) (key : String) :
    paths.get? key =
      (Entries.last? key members).bind fun v => if isExtensionKey key then none else read v := by
  cases h
  show Entries.get? key (Entries.filterMapValues _ (Entries.sort members)) = _
  rw [Entries.get?_filterMapValues _ (Entries.sorted_sort members), Entries.get?_sort]

end ApiFolio.OpenApi

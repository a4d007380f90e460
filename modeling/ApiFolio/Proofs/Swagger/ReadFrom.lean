import ApiFolio.Swagger.Document

/-!
# The fields that were read of a document of version 2

As for version 3: when a record has been read, each of its fields has been read.
-/

namespace ApiFolio.Swagger

open OpenApi (Referable Schema ExternalDocs SecurityRequirement Info Tag readPaths?)

/-- A parameter, each field read from the member of its name. -/
structure Parameter.ReadFrom (ms : List (String × Json)) (x : Parameter) : Prop where
  name : Record.string? ms "name" = some x.name
  location : Record.string? ms "in" = some x.location
  description : Record.optionalString? ms "description" = some x.description
  required : Record.optionalBool? ms "required" = some x.required
  schema : Record.optional? ms "schema" Schema.ofJson? = some x.schema
  type : Record.optionalString? ms "type" = some x.type
  format : Record.optionalString? ms "format" = some x.format
  items : Record.optional? ms "items" Schema.ofJson? = some x.items
  choices : Record.optional? ms "enum" Json.items? = some x.choices
  collectionFormat : Record.optionalString? ms "collectionFormat" = some x.collectionFormat
  default : x.default = Record.value ms "default"
  extra : x.extra = Record.unknown layout ms

theorem Parameter.ofJson?_eq_some_iff {v : Json} {x : Parameter} :
    ofJson? v = some x ↔ ∃ ms, v.members? = some ms ∧ ReadFrom ms x := by
  constructor
  · intro h
    obtain ⟨ms, hms, h⟩ := Option.bind_eq_some_iff.1 h
    obtain ⟨name, hname, h⟩ := Option.bind_eq_some_iff.1 h
    obtain ⟨location, hlocation, h⟩ := Option.bind_eq_some_iff.1 h
    obtain ⟨description, hdescription, h⟩ := Option.bind_eq_some_iff.1 h
    obtain ⟨required, hrequired, h⟩ := Option.bind_eq_some_iff.1 h
    obtain ⟨schema, hschema, h⟩ := Option.bind_eq_some_iff.1 h
    obtain ⟨type, htype, h⟩ := Option.bind_eq_some_iff.1 h
    obtain ⟨format, hformat, h⟩ := Option.bind_eq_some_iff.1 h
    obtain ⟨items, hitems, h⟩ := Option.bind_eq_some_iff.1 h
    obtain ⟨choices, hchoices, h⟩ := Option.bind_eq_some_iff.1 h
    obtain ⟨collectionFormat, hcollectionFormat, h⟩ := Option.bind_eq_some_iff.1 h
    cases h
    exact ⟨ms, hms, ⟨hname, hlocation, hdescription, hrequired, hschema, htype, hformat, hitems,
      hchoices, hcollectionFormat, rfl, rfl⟩⟩
  · rintro ⟨ms, hms, h⟩
    simp only [ofJson?, hms, h.name, h.location, h.description, h.required, h.schema, h.type,
      h.format, h.items, h.choices, h.collectionFormat, ← h.default, ← h.extra,
      Option.bind_eq_bind, Option.bind_some]
    rfl

/-- A response, each field read from the member of its name. -/
structure Response.ReadFrom (ms : List (String × Json)) (x : Response) : Prop where
  description : Record.string? ms "description" = some x.description
  schema : Record.optional? ms "schema" Schema.ofJson? = some x.schema
  headers : Record.dict? ms "headers" some = some x.headers
  examples : Record.dict? ms "examples" some = some x.examples

theorem Response.ofJson?_eq_some_iff {v : Json} {x : Response} :
    ofJson? v = some x ↔ ∃ ms, Record.members? layout v = some ms ∧ ReadFrom ms x := by
  constructor
  · intro h
    obtain ⟨ms, hms, h⟩ := Option.bind_eq_some_iff.1 h
    obtain ⟨description, hdescription, h⟩ := Option.bind_eq_some_iff.1 h
    obtain ⟨schema, hschema, h⟩ := Option.bind_eq_some_iff.1 h
    obtain ⟨headers, hheaders, h⟩ := Option.bind_eq_some_iff.1 h
    obtain ⟨examples, hexamples, h⟩ := Option.bind_eq_some_iff.1 h
    cases h
    exact ⟨ms, hms, ⟨hdescription, hschema, hheaders, hexamples⟩⟩
  · rintro ⟨ms, hms, h⟩
    simp only [ofJson?, hms, h.description, h.schema, h.headers, h.examples, Option.bind_eq_bind,
      Option.bind_some]
    rfl

/-- An operation, each field read from the member of its name. -/
structure Operation.ReadFrom (ms : List (String × Json)) (x : Operation) : Prop where
  tags : Record.strings? ms "tags" = some x.tags
  summary : Record.optionalString? ms "summary" = some x.summary
  description : Record.optionalString? ms "description" = some x.description
  externalDocs : Record.optional? ms "externalDocs" ExternalDocs.ofJson? = some x.externalDocs
  operationId : Record.optionalString? ms "operationId" = some x.operationId
  consumes : Record.strings? ms "consumes" = some x.consumes
  produces : Record.strings? ms "produces" = some x.produces
  parameters : Record.list? ms "parameters" (Referable.ofJson? Parameter.ofJson?) =
    some x.parameters
  responses : Record.dict? ms "responses" (Referable.ofJson? Response.ofJson?) = some x.responses
  deprecated : Record.optionalBool? ms "deprecated" = some x.deprecated
  security : Record.list? ms "security" SecurityRequirement.ofJson? = some x.security

theorem Operation.ofJson?_eq_some_iff {v : Json} {x : Operation} :
    ofJson? v = some x ↔ ∃ ms, Record.members? layout v = some ms ∧ ReadFrom ms x := by
  constructor
  · intro h
    obtain ⟨ms, hms, h⟩ := Option.bind_eq_some_iff.1 h
    obtain ⟨tags, htags, h⟩ := Option.bind_eq_some_iff.1 h
    obtain ⟨summary, hsummary, h⟩ := Option.bind_eq_some_iff.1 h
    obtain ⟨description, hdescription, h⟩ := Option.bind_eq_some_iff.1 h
    obtain ⟨externalDocs, hexternalDocs, h⟩ := Option.bind_eq_some_iff.1 h
    obtain ⟨operationId, hoperationId, h⟩ := Option.bind_eq_some_iff.1 h
    obtain ⟨consumes, hconsumes, h⟩ := Option.bind_eq_some_iff.1 h
    obtain ⟨produces, hproduces, h⟩ := Option.bind_eq_some_iff.1 h
    obtain ⟨parameters, hparameters, h⟩ := Option.bind_eq_some_iff.1 h
    obtain ⟨responses, hresponses, h⟩ := Option.bind_eq_some_iff.1 h
    obtain ⟨deprecated, hdeprecated, h⟩ := Option.bind_eq_some_iff.1 h
    obtain ⟨security, hsecurity, h⟩ := Option.bind_eq_some_iff.1 h
    cases h
    exact ⟨ms, hms, ⟨htags, hsummary, hdescription, hexternalDocs, hoperationId, hconsumes,
      hproduces, hparameters, hresponses, hdeprecated, hsecurity⟩⟩
  · rintro ⟨ms, hms, h⟩
    simp only [ofJson?, hms, h.tags, h.summary, h.description, h.externalDocs, h.operationId,
      h.consumes, h.produces, h.parameters, h.responses, h.deprecated, h.security,
      Option.bind_eq_bind, Option.bind_some]
    rfl

/-- A path item, each field read from the member of its name. -/
structure PathItem.ReadFrom (ms : List (String × Json)) (x : PathItem) : Prop where
  get : Record.optional? ms "get" Operation.ofJson? = some x.get
  put : Record.optional? ms "put" Operation.ofJson? = some x.put
  post : Record.optional? ms "post" Operation.ofJson? = some x.post
  delete : Record.optional? ms "delete" Operation.ofJson? = some x.delete
  options : Record.optional? ms "options" Operation.ofJson? = some x.options
  head : Record.optional? ms "head" Operation.ofJson? = some x.head
  patch : Record.optional? ms "patch" Operation.ofJson? = some x.patch
  parameters : Record.list? ms "parameters" (Referable.ofJson? Parameter.ofJson?) =
    some x.parameters

theorem PathItem.ofJson?_eq_some_iff {v : Json} {x : PathItem} :
    ofJson? v = some x ↔ ∃ ms, Record.members? layout v = some ms ∧ ReadFrom ms x := by
  constructor
  · intro h
    obtain ⟨ms, hms, h⟩ := Option.bind_eq_some_iff.1 h
    obtain ⟨get, hget, h⟩ := Option.bind_eq_some_iff.1 h
    obtain ⟨put, hput, h⟩ := Option.bind_eq_some_iff.1 h
    obtain ⟨post, hpost, h⟩ := Option.bind_eq_some_iff.1 h
    obtain ⟨delete, hdelete, h⟩ := Option.bind_eq_some_iff.1 h
    obtain ⟨options, hoptions, h⟩ := Option.bind_eq_some_iff.1 h
    obtain ⟨head, hhead, h⟩ := Option.bind_eq_some_iff.1 h
    obtain ⟨patch, hpatch, h⟩ := Option.bind_eq_some_iff.1 h
    obtain ⟨parameters, hparameters, h⟩ := Option.bind_eq_some_iff.1 h
    cases h
    exact ⟨ms, hms, ⟨hget, hput, hpost, hdelete, hoptions, hhead, hpatch, hparameters⟩⟩
  · rintro ⟨ms, hms, h⟩
    simp only [ofJson?, hms, h.get, h.put, h.post, h.delete, h.options, h.head, h.patch,
      h.parameters, Option.bind_eq_bind, Option.bind_some]
    rfl

/-- A document, each field read from the member of its name. -/
structure Document.ReadFrom (ms : List (String × Json)) (x : Document) : Prop where
  info : Record.withDefault? ms "info" {} Info.ofJson? = some x.info
  host : Record.optionalString? ms "host" = some x.host
  basePath : Record.optionalString? ms "basePath" = some x.basePath
  schemes : Record.strings? ms "schemes" = some x.schemes
  consumes : Record.strings? ms "consumes" = some x.consumes
  produces : Record.strings? ms "produces" = some x.produces
  paths : Record.withDefault? ms "paths" ∅ (readPaths? PathItem.ofJson?) = some x.paths
  definitions : Record.dict? ms "definitions" Schema.ofJson? = some x.definitions
  parameters : Record.dict? ms "parameters" Parameter.ofJson? = some x.parameters
  responses : Record.dict? ms "responses" Response.ofJson? = some x.responses
  securityDefinitions : Record.dict? ms "securityDefinitions" SecurityScheme.ofJson? =
    some x.securityDefinitions
  security : Record.list? ms "security" SecurityRequirement.ofJson? = some x.security
  tags : Record.list? ms "tags" Tag.ofJson? = some x.tags
  externalDocs : Record.optional? ms "externalDocs" ExternalDocs.ofJson? = some x.externalDocs
  swagger : x.swagger = Record.scalarText ms "swagger"
  extensions : x.extensions = Record.unknown layout ms

theorem Document.ofJson?_eq_some_iff {v : Json} {x : Document} :
    ofJson? v = some x ↔ ∃ ms, v.members? = some ms ∧ ReadFrom ms x := by
  constructor
  · intro h
    obtain ⟨ms, hms, h⟩ := Option.bind_eq_some_iff.1 h
    obtain ⟨info, hinfo, h⟩ := Option.bind_eq_some_iff.1 h
    obtain ⟨host, hhost, h⟩ := Option.bind_eq_some_iff.1 h
    obtain ⟨basePath, hbasePath, h⟩ := Option.bind_eq_some_iff.1 h
    obtain ⟨schemes, hschemes, h⟩ := Option.bind_eq_some_iff.1 h
    obtain ⟨consumes, hconsumes, h⟩ := Option.bind_eq_some_iff.1 h
    obtain ⟨produces, hproduces, h⟩ := Option.bind_eq_some_iff.1 h
    obtain ⟨paths, hpaths, h⟩ := Option.bind_eq_some_iff.1 h
    obtain ⟨definitions, hdefinitions, h⟩ := Option.bind_eq_some_iff.1 h
    obtain ⟨parameters, hparameters, h⟩ := Option.bind_eq_some_iff.1 h
    obtain ⟨responses, hresponses, h⟩ := Option.bind_eq_some_iff.1 h
    obtain ⟨securityDefinitions, hsecurityDefinitions, h⟩ := Option.bind_eq_some_iff.1 h
    obtain ⟨security, hsecurity, h⟩ := Option.bind_eq_some_iff.1 h
    obtain ⟨tags, htags, h⟩ := Option.bind_eq_some_iff.1 h
    obtain ⟨externalDocs, hexternalDocs, h⟩ := Option.bind_eq_some_iff.1 h
    cases h
    exact ⟨ms, hms, ⟨hinfo, hhost, hbasePath, hschemes, hconsumes, hproduces, hpaths,
      hdefinitions, hparameters, hresponses, hsecurityDefinitions, hsecurity, htags,
      hexternalDocs, rfl, rfl⟩⟩
  · rintro ⟨ms, hms, h⟩
    refine Option.bind_eq_some_iff.2 ⟨ms, hms, ?_⟩
    refine Option.bind_eq_some_iff.2 ⟨_, h.info, ?_⟩
    refine Option.bind_eq_some_iff.2 ⟨_, h.host, ?_⟩
    refine Option.bind_eq_some_iff.2 ⟨_, h.basePath, ?_⟩
    refine Option.bind_eq_some_iff.2 ⟨_, h.schemes, ?_⟩
    refine Option.bind_eq_some_iff.2 ⟨_, h.consumes, ?_⟩
    refine Option.bind_eq_some_iff.2 ⟨_, h.produces, ?_⟩
    refine Option.bind_eq_some_iff.2 ⟨_, h.paths, ?_⟩
    refine Option.bind_eq_some_iff.2 ⟨_, h.definitions, ?_⟩
    refine Option.bind_eq_some_iff.2 ⟨_, h.parameters, ?_⟩
    refine Option.bind_eq_some_iff.2 ⟨_, h.responses, ?_⟩
    refine Option.bind_eq_some_iff.2 ⟨_, h.securityDefinitions, ?_⟩
    refine Option.bind_eq_some_iff.2 ⟨_, h.security, ?_⟩
    refine Option.bind_eq_some_iff.2 ⟨_, h.tags, ?_⟩
    refine Option.bind_eq_some_iff.2 ⟨_, h.externalDocs, ?_⟩
    rw [← h.swagger, ← h.extensions]
    rfl

end ApiFolio.Swagger

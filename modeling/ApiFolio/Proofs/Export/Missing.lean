import ApiFolio.Proofs.Export.Parameters
import ApiFolio.Proofs.Export.RequestBodies
import ApiFolio.Proofs.OpenApi.Subschemas
import ApiFolio.Proofs.Swagger.Loading

/-!
# Exported pointers to missing parts

A pointer of an operation or of a component schema that names a missing part is told by an issue
(`Loaded.tells_of_mem`). The schemas that an operation of a path is exported with have only such
pointers, and so have the component schemas (`missing_told`), but there are three exceptions: a body
at the end of a chain of pointers (`Export.BodyFollowed`), a shared parameter
(`Export.ParameterFollowed`), and a parameter that is written in its place but has its schema in its
content (`Export.SchemaFromContent`). Webhooks and the other components are not looked at
(`not_missing_told`).
-/

namespace ApiFolio

open OpenApi
open Validation (Area Located placeOf)
open Export (Surroundings surroundings convert)

/-- A pointer that names a part in an area of the components which has none of the name. -/
def Validation.NamesMissing (components : Option Components) (pointer : String) : Prop :=
  ∃ area name, Pointer.name? pointer (Area.name area) = some name ∧
    ∀ c, components = some c → area.contains c name = false

theorem Validation.NamesMissing.isDangling {components : Option Components} {pointer : String}
    (h : NamesMissing components pointer) : isDangling components pointer = true := by
  obtain ⟨area, name, hname, hmissing⟩ := h
  rw [isDangling_eq area hname]
  cases components with
  | none => rfl
  | some c => simp [hmissing c rfl]

theorem OpenApi.Content.mem_schemas_of_firstSchema? {content : Content} {s : Schema}
    (h : content.firstSchema? = some s) : s ∈ content.schemas := by
  unfold firstSchema? at h
  split at h
  · cases h
  · rename_i name media rest hentries
    refine List.mem_filterMap.2 ⟨media, ?_, h⟩
    unfold Dict.values
    rw [hentries]
    exact List.mem_cons_self

namespace Export

/-- The operation is given its body by the pointer that is written for the name of an alias, so the
body is exported with the end of a chain. -/
def BodyFollowed (components : Option Components) (op : Operation) : Prop :=
  ∃ c name target, components = some c ∧
    op.requestBody = some (.ref (Pointer.component "requestBodies" name)) ∧
    c.requestBodies.get? name = some (.ref target)

/-- The parameter is one that the operation is given by a pointer, so its schema is that of a shared
parameter. -/
def ParameterFollowed (around : Surroundings) (ps : List (Referable Parameter))
    (x : ParameterItem) : Prop :=
  ∃ pointer p, .ref pointer ∈ ps ∧ around.parameter? (.ref pointer) = some p ∧
    x = Surroundings.parameterItem p

/-- The parameter is written in its place, without a schema beside its content, so it is exported
with the first schema of its content. -/
def SchemaFromContent (ps : List (Referable Parameter)) (x : ParameterItem) : Prop :=
  ∃ p, .item p ∈ ps ∧ p.schema = none ∧ x = Surroundings.parameterItem p

end Export

namespace Loaded

/-- An issue tells that a pointer leads nowhere. -/
def Tells (x : Loaded) (pointer : String) : Prop :=
  ∃ issue ∈ x.issues, issue.message = Validation.unresolved pointer

/-- The issues tell of every pointer to a missing part that stands at some depth of a schema. -/
def TellsAll (x : Loaded) (s : Schema) : Prop :=
  ∀ t pointer, s.Below t → t.ref = some pointer →
    Validation.NamesMissing x.document.components pointer → x.Tells pointer

variable {raw : Json} {loaded : Loaded}

theorem document_subset_issues (h : ofJson raw = .ok loaded) :
    Validation.document loaded.document ⊆ loaded.issues := by
  rw [issues_of_ofJson h]
  exact List.subset_append_right _ _

variable (h : ofJson raw = .ok loaded)

include h

theorem tells_of_mem {location pointer : String}
    (hmem : (location, pointer) ∈ Validation.locatedPointers loaded.document)
    (hmissing : Validation.NamesMissing loaded.document.components pointer) :
    loaded.Tells pointer :=
  ⟨_, document_subset_issues h (Validation.unresolved_mem_document hmem hmissing.isDangling), rfl⟩

/-- The pointers of a schema are told if they are among those of the document. -/
theorem tellsAll_of_located (location : String) {s : Schema}
    (hs : ∀ pointer ∈ s.pointers,
      (location, pointer) ∈ Validation.locatedPointers loaded.document) :
    loaded.TellsAll s :=
  fun _ pointer hbelow href hmissing =>
    tells_of_mem h (hs pointer (hbelow.ref_mem_pointers href)) hmissing

theorem tellsAll_of_mem_schemas {c : Components} (hc : loaded.document.components = some c)
    {e : String × Schema} (he : e ∈ c.schemas.entries) : loaded.TellsAll e.2 := by
  refine tellsAll_of_located h (Validation.schemaPlace e.1) fun pointer hpointer => ?_
  refine List.mem_append_right _ ?_
  rw [hc]
  exact List.mem_flatMap.2 ⟨e, he, List.mem_map_of_mem hpointer⟩

section Operation

variable {x : Located} (hx : x ∈ Validation.documentOperations loaded.document)

include hx

/-- The pointers of a schema that an operation holds itself are told. -/
theorem tellsAll_of_mem_outerSchemas {s : Schema}
    (hs : s ∈ Validation.outerSchemas x.parameters x.operation) : loaded.TellsAll s := by
  refine tellsAll_of_located h _ fun pointer hpointer => Validation.mem_locatedPointers hx ?_
  exact List.mem_append_right _ (List.mem_flatMap.2 ⟨s, hs, hpointer⟩)

/-- A pointer in the place of a part of an operation is told. -/
theorem tellsAll_pointingTo {pointer : String}
    (hp : pointer ∈ Validation.outerPointers x.parameters x.operation) :
    loaded.TellsAll (.pointingTo pointer) := by
  refine tellsAll_of_located h _ fun other hother => Validation.mem_locatedPointers hx ?_
  have heq : (Schema.pointingTo pointer).pointers = [pointer] := by rfl
  rw [heq, List.mem_singleton] at hother
  exact List.mem_append_left _ (hother ▸ hp)

/-- What the responses of an operation point at is told. -/
theorem tellsAll_responseItem (around : Surroundings) {path method : String}
    {e : String × Referable Response} (he : e ∈ x.operation.responses.entries) {s : Schema}
    (hs : (around.responseItem path method e.1 e.2).jsonSchema = some s) :
    loaded.TellsAll s := by
  have hvalue : e.2 ∈ x.operation.responses.values := List.mem_map_of_mem he
  cases hr : e.2 with
  | ref pointer =>
    rw [hr] at hs hvalue
    cases hs
    refine tellsAll_pointingTo h hx (List.mem_append_right _ ?_)
    exact List.mem_filterMap.2 ⟨_, hvalue, rfl⟩
  | item r =>
    rw [hr] at hs hvalue
    refine tellsAll_of_mem_outerSchemas h hx (List.mem_append_right _ ?_)
    exact List.mem_flatMap.2 ⟨_, hvalue, Content.mem_schemas_of_firstSchema? hs⟩

/-- What the body of an operation points at is told, unless its pointer names an alias. -/
theorem tellsAll_requestBody {body : Export.RequestBodyItem}
    (hbody : x.operation.requestBody.bind (surroundings loaded.document).requestBody? = some body)
    {s : Schema} (hs : body.jsonSchema = some s) :
    loaded.TellsAll s ∨ Export.BodyFollowed loaded.document.components x.operation := by
  obtain ⟨r, hr, hbody⟩ := Option.bind_eq_some_iff.1 hbody
  cases r with
  | item b =>
    cases hbody
    refine .inl (tellsAll_of_mem_outerSchemas h hx ?_)
    refine List.mem_append_left _ (List.mem_append_right _ ?_)
    rw [hr]
    exact Content.mem_schemas_of_firstSchema? hs
  | ref pointer =>
    obtain ⟨target, htarget, rfl⟩ := Option.map_eq_some_iff.1 hbody
    cases hs
    obtain ⟨steps, hends⟩ := Aliases.target?_resolve_eq_some_iff.1 htarget
    cases hends with
    | here =>
      refine .inl (tellsAll_pointingTo h hx ?_)
      refine List.mem_append_left _ (List.mem_append_right _ ?_)
      rw [hr]
      exact List.mem_singleton.2 rfl
    | next hsome =>
      refine .inr ?_
      cases hc : loaded.document.components with
      | none =>
        rw [hc] at hsome
        cases hsome
      | some c =>
        rw [hc] at hsome
        obtain ⟨name, rfl, hget⟩ := Export.get?_bodyAliases.1 hsome
        exact ⟨c, name, _, rfl, hr, hget⟩

/-- What a parameter of an operation points at is told if the parameter is written in its place,
with a schema beside its content. -/
theorem tellsAll_parameterItem {e : String × Export.ParameterItem}
    (he : e ∈ ((surroundings loaded.document).parameters x.item x.operation).located) {s : Schema}
    (hs : e.2.schema = some s) :
    loaded.TellsAll s ∨
      Export.ParameterFollowed (surroundings loaded.document) x.parameters e.2 ∨
      Export.SchemaFromContent x.parameters e.2 := by
  obtain ⟨p, hp, rfl⟩ := Surroundings.exists_isLast_of_mem_located he
  obtain ⟨r, hr, hrp⟩ := List.mem_filterMap.1 hp.mem
  cases r with
  | ref pointer => exact .inr (.inl ⟨pointer, p, hr, hrp, rfl⟩)
  | item q =>
    cases hrp
    cases hschema : p.schema with
    | none => exact .inr (.inr ⟨p, hr, hschema, rfl⟩)
    | some t =>
      have hst : (p.schema <|> p.content.firstSchema?) = some s := hs
      rw [hschema] at hst
      cases hst
      refine .inl (tellsAll_of_mem_outerSchemas h hx ?_)
      refine List.mem_append_left _ (List.mem_append_left _ ?_)
      exact List.mem_filterMap.2 ⟨.item p, hr, hschema⟩

end Operation

end Loaded

namespace Export

/-- An exported operation that is of no webhook is one of a path. -/
theorem exists_operation_of_mem {doc : Document} {version : String} {i : ApiItem}
    (hi : i ∈ (convert doc version).apiItems) (hwebhook : i.webhook = false) :
    ∃ item verb op, doc.paths.get? i.path = some item ∧ item.operation? verb = some op ∧
      i = (surroundings doc).apiItem i.path verb.name item op false := by
  rcases List.mem_append.1 ((apiItems_convert doc version).mem_iff.1 hi) with hi | hi
  · obtain ⟨e, he, hi⟩ := List.mem_flatMap.1 hi
    obtain ⟨⟨verb, op⟩, hop, rfl⟩ := List.mem_map.1 hi
    exact ⟨e.2, verb, op, (Dict.mem_entries _).1 he, PathItem.mem_operations_iff.1 hop, rfl⟩
  · obtain ⟨e, -, hi⟩ := List.mem_flatMap.1 hi
    obtain ⟨vo, -, rfl⟩ := List.mem_map.1 hi
    cases hwebhook

end Export

open Export

/-- The issues of a loaded document tell of every pointer to a missing part in all exported
component schemas, and in the schemas that operations of paths are exported with, save for those of
bodies and parameters whose pointers are followed, and those that a parameter written in its place
has in its content. -/
theorem missing_told (raw : Json) (loaded : Loaded) (h : Loaded.ofJson raw = .ok loaded) :
    (∀ i ∈ (convert loaded.document loaded.declaredVersion).apiItems, i.webhook = false →
      ∃ item verb op, loaded.document.paths.get? i.path = some item ∧
        item.operation? verb = some op ∧ i.method = verb.name ∧
        (∀ r ∈ i.responses, ∀ s ∈ r.jsonSchema, loaded.TellsAll s) ∧
        (∀ body ∈ i.requestBody, ∀ s ∈ body.jsonSchema,
          loaded.TellsAll s ∨ BodyFollowed loaded.document.components op) ∧
        ∀ e ∈ i.parameters.located, ∀ s ∈ e.2.schema, loaded.TellsAll s ∨
          ParameterFollowed (surroundings loaded.document) (item.parameters ++ op.parameters) e.2 ∨
          SchemaFromContent (item.parameters ++ op.parameters) e.2) ∧
    ∀ folder ∈ (convert loaded.document loaded.declaredVersion).dataSchemas,
      folder.name = "Schemas" → ∀ x ∈ folder.items, ∀ s ∈ x.jsonSchema, loaded.TellsAll s := by
  constructor
  · intro i hi hwebhook
    obtain ⟨item, verb, op, hitem, hop, heq⟩ := exists_operation_of_mem hi hwebhook
    have hx := Validation.placeOf_mem_documentOperations hitem hop
    refine ⟨item, verb, op, hitem, hop, congrArg ApiItem.method heq, ?_, ?_, ?_⟩
    · intro r hr s hs
      rw [heq] at hr
      obtain ⟨e, he, rfl⟩ := List.mem_map.1 hr
      exact Loaded.tellsAll_responseItem h hx _ he hs
    · intro body hbody s hs
      rw [heq] at hbody
      exact Loaded.tellsAll_requestBody h hx hbody hs
    · intro e he s hs
      rw [heq] at he
      exact Loaded.tellsAll_parameterItem h hx he hs
  · intro folder hfolder hname x hx s hs
    have hfolder : folder ∈ schemaFoldersOf loaded.document.components
        (surroundings loaded.document).ends := hfolder
    cases hc : loaded.document.components with
    | none =>
      rw [hc] at hfolder
      cases hfolder
    | some c =>
      rw [hc] at hfolder
      obtain ⟨e, he, hitem⟩ := exists_schema_of_mem hfolder hname hx
      rw [(schemaItem?_eq_some hitem).2] at hs
      cases hs
      exact Loaded.tellsAll_of_mem_schemas h hc he

/-- An operation with a response that is missing. -/
def strayDocument : Json :=
  .obj [("info", .obj [("title", .str "Pets"), ("version", .str "1")]),
    ("openapi", .str "3.0.0"),
    ("paths", .obj [("/pets", .obj [("get", .obj [("responses", .obj [
      ("200", .obj [("$ref", .str "#/components/responses/Gone")])])])])])]

theorem missing_told_strayDocument :
    ∃ loaded, Loaded.ofJson strayDocument = .ok loaded ∧
      loaded.Tells "#/components/responses/Gone" := by
  obtain ⟨loaded, hloaded, i, hi, hwebhook, r, hr, s, hs, href, hmissing⟩ :
      ∃ loaded, Loaded.ofJson strayDocument = .ok loaded ∧
        ∃ i ∈ documentItems loaded.document, i.webhook = false ∧
          ∃ r ∈ i.responses, ∃ s ∈ r.jsonSchema, s.ref = some "#/components/responses/Gone" ∧
            Validation.NamesMissing loaded.document.components "#/components/responses/Gone" :=
    ⟨_, rfl, _, List.mem_singleton.2 rfl, rfl, _, List.mem_singleton.2 rfl, _, rfl, rfl,
      .responses, "Gone", rfl, nofun⟩
  have hitems := apiItems_convert loaded.document loaded.declaredVersion
  obtain ⟨item, verb, op, -, -, -, hresponses, -⟩ :=
    (missing_told strayDocument loaded hloaded).1 i (hitems.mem_iff.2 hi) hwebhook
  exact ⟨loaded, hloaded, hresponses r hr s hs s _ .self href hmissing⟩

/-- A value that points at a schema which is missing. -/
def goneSchema : Json := .obj [("$ref", .str "#/components/schemas/Gone")]

/-- A representation under a schema which is missing. -/
def goneContent : Json := .obj [("application/json", .obj [("schema", goneSchema)])]

/-- Pointers to missing parts in a webhook, a shared parameter, a shared response, a shared body and
an alias of a body, and an operation that is given the parameter and the alias. -/
def silentDocument : Json :=
  .obj [
    ("components", .obj [
      ("parameters", .obj [("Limit", .obj [
        ("in", .str "query"), ("name", .str "limit"), ("schema", goneSchema)])]),
      ("requestBodies", .obj [
        ("Alias", .obj [("$ref", .str "#/components/requestBodies/Gone")]),
        ("Pet", .obj [("content", goneContent)])]),
      ("responses", .obj [("Ok", .obj [("content", goneContent)])])]),
    ("info", .obj [("title", .str "Pets"), ("version", .str "1")]),
    ("openapi", .str "3.1.0"),
    ("paths", .obj [("/pets", .obj [("post", .obj [
      ("parameters", .arr [.obj [("$ref", .str "#/components/parameters/Limit")]]),
      ("requestBody", .obj [("$ref", .str "#/components/requestBodies/Alias")]),
      ("responses", .obj [("200", .obj [])])])])]),
    ("webhooks", .obj [("newPet", .obj [("post", .obj [
      ("responses", .obj [("200", .obj [("content", goneContent)])])])])])]

theorem Loaded.not_tellsAll_pointingTo {loaded : Loaded} {pointer : String}
    (hissues : loaded.issues = [])
    (hmissing : Validation.NamesMissing loaded.document.components pointer) :
    ¬loaded.TellsAll (.pointingTo pointer) := by
  intro htells
  obtain ⟨issue, hissue, -⟩ := htells _ pointer .self rfl hmissing
  rw [hissues] at hissue
  cases hissue

/-- A document may load without issues though its export points at missing parts: in the operation
of a webhook, in a parameter and a body that an operation is given by pointers, and in the folders
of responses and request bodies. -/
theorem not_missing_told :
    ∃ loaded, Loaded.ofJson silentDocument = .ok loaded ∧ loaded.dialect = .openApi3 ∧
      loaded.issues = [] ∧
      (∃ i ∈ (convert loaded.document loaded.declaredVersion).apiItems, i.webhook = true ∧
        ∃ r ∈ i.responses, ∃ s ∈ r.jsonSchema, ¬loaded.TellsAll s) ∧
      (∃ i ∈ (convert loaded.document loaded.declaredVersion).apiItems, i.webhook = false ∧
        (∃ body ∈ i.requestBody, ∃ s ∈ body.jsonSchema, ¬loaded.TellsAll s) ∧
        ∃ e ∈ i.parameters.located, ∃ s ∈ e.2.schema, ¬loaded.TellsAll s) ∧
      ∀ name ∈ ["Response", "RequestBodies"],
        ∃ folder ∈ (convert loaded.document loaded.declaredVersion).dataSchemas,
          folder.name = name ∧ ∃ x ∈ folder.items, ∃ s ∈ x.jsonSchema, ¬loaded.TellsAll s := by
  let schema : Schema := .pointingTo "#/components/schemas/Gone"
  let body : Schema := .pointingTo "#/components/requestBodies/Gone"
  obtain ⟨loaded, hloaded, hdialect, hissues, c, hc, hschemas, hbodies, i, j, hitems,
      ⟨hi, hbody, hparameter⟩, ⟨hj, hresponse⟩, hresponses, hrequestBodies⟩ :
      ∃ loaded, Loaded.ofJson silentDocument = .ok loaded ∧ loaded.dialect = .openApi3 ∧
        loaded.issues = [] ∧ ∃ c, loaded.document.components = some c ∧
        Area.contains c "Gone" .schemas = false ∧ Area.contains c "Gone" .requestBodies = false ∧
        ∃ i j, documentItems loaded.document = [i, j] ∧
          (i.webhook = false ∧ (∃ b ∈ i.requestBody, b.jsonSchema = some body) ∧
            ∃ e ∈ i.parameters.located, e.2.schema = some schema) ∧
          (j.webhook = true ∧ ∃ r ∈ j.responses, r.jsonSchema = some schema) ∧
          (∃ folder ∈ (convert loaded.document loaded.declaredVersion).dataSchemas,
            folder.name = "Response" ∧ ∃ x ∈ folder.items, x.jsonSchema = some schema) ∧
          ∃ folder ∈ (convert loaded.document loaded.declaredVersion).dataSchemas,
            folder.name = "RequestBodies" ∧ ∃ x ∈ folder.items, x.jsonSchema = some schema :=
    ⟨_, rfl, rfl, rfl, _, rfl, rfl, rfl, _, _, rfl,
      ⟨rfl, ⟨_, rfl, rfl⟩, _, List.mem_singleton.2 rfl, rfl⟩,
      ⟨rfl, _, List.mem_singleton.2 rfl, rfl⟩,
      ⟨_, List.mem_cons_self, rfl, _, List.mem_singleton.2 rfl, rfl⟩,
      _, List.mem_cons_of_mem _ List.mem_cons_self, rfl,
      _, List.mem_cons_of_mem _ List.mem_cons_self, rfl⟩
  have hschema : ¬loaded.TellsAll schema := by
    refine Loaded.not_tellsAll_pointingTo hissues ⟨.schemas, "Gone", rfl, fun d hd => ?_⟩
    cases hc.symm.trans hd
    exact hschemas
  have hbodySchema : ¬loaded.TellsAll body := by
    refine Loaded.not_tellsAll_pointingTo hissues ⟨.requestBodies, "Gone", rfl, fun d hd => ?_⟩
    cases hc.symm.trans hd
    exact hbodies
  have hperm := apiItems_convert loaded.document loaded.declaredVersion
  rw [hitems] at hperm
  refine ⟨loaded, hloaded, hdialect, hissues, ⟨j, hperm.mem_iff.2 (by simp), hj, ?_⟩,
    ⟨i, hperm.mem_iff.2 (by simp), hi, ?_, ?_⟩, fun name hname => ?_⟩
  · obtain ⟨r, hr, hs⟩ := hresponse
    exact ⟨r, hr, schema, hs, hschema⟩
  · obtain ⟨b, hb, hs⟩ := hbody
    exact ⟨b, hb, body, hs, hbodySchema⟩
  · obtain ⟨e, he, hs⟩ := hparameter
    exact ⟨e, he, schema, hs, hschema⟩
  · simp only [List.mem_cons, List.not_mem_nil, or_false] at hname
    rcases hname with rfl | rfl
    · obtain ⟨folder, hfolder, hfolderName, x, hx, hs⟩ := hresponses
      exact ⟨folder, hfolder, hfolderName, x, hx, schema, hs, hschema⟩
    · obtain ⟨folder, hfolder, hfolderName, x, hx, hs⟩ := hrequestBodies
      exact ⟨folder, hfolder, hfolderName, x, hx, schema, hs, hschema⟩

end ApiFolio

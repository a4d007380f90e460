import ApiFolio.Proofs.Export.Contents
import ApiFolio.Proofs.Json.Distinct

/-!
# What the records of an export write

A property that is passed on from the values in a value (`Json.Composable`) holds of what an export
writes if it holds of what its schemas write and of its other values (`Result.composed`): each
record writes its fields under names of their own, and its texts, flags and codes have the property.
-/

namespace ApiFolio.Export

open OpenApi
open Json (Composable)
open Record (Fields)

variable {P : Json → Prop} [Composable P]

theorem composed_strings (xs : List String) : P (.arr (xs.map .str)) :=
  Composable.map fun s _ => Composable.text s

theorem composed_texts (table : Dict String) : P (Record.writeDict .str table) :=
  Record.composed_writeDict fun e _ => Composable.text e.2

/-! ## Metadata -/

theorem composed_contact (x : Contact) : P x.toJson :=
  (Fields.textOption "name" x.name
    |>.append (.textOption "url" x.url)
    |>.append (.textOption "email" x.email)).object (by decide)

theorem composed_license (x : License) : P x.toJson :=
  (Fields.text "name" x.name
    |>.append (.textOption "url" x.url)
    |>.append (.textOption "identifier" x.identifier)).object (by decide)

theorem composed_externalDocs (x : ExternalDocs) : P x.toJson :=
  (Fields.textOption "description" x.description
    |>.append (.text "url" x.url)).object (by decide)

theorem composed_tag (x : Tag) : P x.toJson :=
  (Fields.text "name" x.name
    |>.append (.textOption "description" x.description)
    |>.append (.putOption "externalDocs" fun docs _ => composed_externalDocs docs)).object
      (by decide)

theorem composed_securityRequirement (x : SecurityRequirement) : P (SecurityRequirement.toJson x) :=
  Record.composed_writeDict fun e _ => composed_strings e.2

/-! ## Operations and schemas -/

theorem ParameterItem.composed {x : ParameterItem} (hschema : ∀ s ∈ x.schema, P s.toJson)
    (hsample : ∀ v ∈ x.sample, P v) : P x.toJson :=
  (Fields.text "name" x.name
    |>.append (.flag "required" x.required)
    |>.append (.textOption "description" x.description)
    |>.append (.putFlag "deprecated" x.deprecated)
    |>.append (.putOption "schema" hschema)
    |>.append (.putOption "example" hsample)).object (by decide)

theorem ResponseItem.composed {x : ResponseItem} (hcode : (Number.int x.code).InRange)
    (h : ∀ s ∈ x.jsonSchema, P s.toJson) : P x.toJson :=
  (Fields.text "id" x.id
    |>.append (.text "name" x.name)
    |>.append (.put "code" (Composable.number hcode))
    |>.append (.text "contentType" x.contentType)
    |>.append (.textOption "description" x.description)
    |>.append (.putOption "jsonSchema" h)).object (by decide)

theorem RequestBodyItem.composed {x : RequestBodyItem} (h : ∀ s ∈ x.jsonSchema, P s.toJson) :
    P x.toJson :=
  (Fields.flag "required" x.required
    |>.append (.text "contentType" x.contentType)
    |>.append (.textOption "description" x.description)
    |>.append (.putOption "jsonSchema" h)).object (by decide)

theorem ParameterBuckets.composed {x : ParameterBuckets}
    (h : ∀ e ∈ x.located, P e.2.toJson) : P x.toJson := by
  have hbucket (place : String) {ps : List ParameterItem}
      (hps : ∀ p ∈ ps, (place, p) ∈ x.located) :
      Fields P [place] (Record.put place (.arr (ps.map ParameterItem.toJson))) :=
    .list place fun p hp => h (place, p) (hps p hp)
  refine (hbucket "path" (fun p hp => ?_) |>.append (hbucket "query" fun p hp => ?_)
    |>.append (hbucket "header" fun p hp => ?_)
    |>.append (hbucket "cookie" fun p hp => ?_)).object (by decide)
  all_goals simp [ParameterBuckets.located, hp]

theorem ApiItem.composed {x : ApiItem} (h : x.Holds (fun s => P s.toJson) P) : P x.toJson :=
  (Fields.text "name" x.name
    |>.append (.textOption "description" x.description)
    |>.append (.textOption "operationId" x.operationId)
    |>.append (.text "path" x.path)
    |>.append (.text "method" x.method)
    |>.append (.put "tags" (composed_strings x.tags))
    |>.append (.putFlag "deprecated" x.deprecated)
    |>.append (.putFlag "webhook" x.webhook)
    |>.append (.put "parameters" (ParameterBuckets.composed fun e he =>
      ParameterItem.composed (h.parameters e he).1 (h.parameters e he).2))
    |>.append (.list "responses" fun r hr =>
      ResponseItem.composed (h.codes r hr) (h.responses r hr))
    |>.append (.putOption "requestBody" fun b hb =>
      RequestBodyItem.composed (h.requestBody b hb))).object (by decide)

theorem SchemaItem.composed {x : SchemaItem} (h : ∀ s ∈ x.jsonSchema, P s.toJson) :
    P x.toJson :=
  (Fields.text "id" x.id
    |>.append (.text "name" x.name)
    |>.append (.textOption "description" x.description)
    |>.append (.putOption "jsonSchema" h)).object (by decide)

theorem SchemaFolder.composed {x : SchemaFolder}
    (h : ∀ item ∈ x.items, ∀ s ∈ item.jsonSchema, P s.toJson) : P x.toJson :=
  (Fields.text "name" x.name
    |>.append (.list "items" fun item hitem => SchemaItem.composed (h item hitem))).object
      (by decide)

/-! ## Security schemes and environments -/

theorem composed_flow (x : OAuthFlow) : P x.toJson :=
  (Fields.textOption "authorizationUrl" x.authorizationUrl
    |>.append (.textOption "tokenUrl" x.tokenUrl)
    |>.append (.textOption "refreshUrl" x.refreshUrl)
    |>.append (.put "scopes" (composed_texts x.scopes))).object (by decide)

theorem composed_flows (x : OAuthFlows) : P x.toJson :=
  (Fields.putOption "implicit" (fun flow _ => composed_flow flow)
    |>.append (.putOption "password" fun flow _ => composed_flow flow)
    |>.append (.putOption "clientCredentials" fun flow _ => composed_flow flow)
    |>.append (.putOption "authorizationCode" fun flow _ => composed_flow flow)).object
      (by decide)

theorem SecuritySchemeItem.composed (x : SecuritySchemeItem) : P x.toJson :=
  (Fields.text "name" x.name
    |>.append (.text "type" x.type)
    |>.append (.textOption "description" x.description)
    |>.append (.textOption "in" x.location)
    |>.append (.textOption "paramName" x.paramName)
    |>.append (.textOption "scheme" x.scheme)
    |>.append (.textOption "bearerFormat" x.bearerFormat)
    |>.append (.putOption "flows" fun flows _ => composed_flows flows)
    |>.append (.textOption "openIdConnectUrl" x.openIdConnectUrl)).object (by decide)

theorem SecurityCollection.composed (x : SecurityCollection) : P x.toJson :=
  (Fields.text "name" x.name
    |>.append (.list "items" fun item _ => SecuritySchemeItem.composed item)).object
      (by decide)

theorem Environment.composed (x : Environment) : P x.toJson :=
  (Fields.text "name" x.name
    |>.append (.text "baseUrl" x.baseUrl)
    |>.append (.textOption "description" x.description)
    |>.append (.put "variables" (composed_texts x.settings))).object (by decide)

/-! ## Folders -/

namespace Collection

mutual

/-- A folder writes its operations and those of all folders inside it. -/
theorem composed {P : Json → Prop} [Composable P] :
    {c : Collection} → (∀ i ∈ c.allItems, P i.toJson) → P c.toJson
  | .mk name _ children, h =>
    (Fields.text "name" name
      |>.append (.list "items" fun i hi => h i (List.mem_append_left _ hi))
      |>.append (.put "children" (Composable.items
        (composed_toJsonAll fun i hi => h i (List.mem_append_right _ hi))))).object (by decide)

theorem composed_toJsonAll {P : Json → Prop} [Composable P] :
    {cs : List Collection} → (∀ i ∈ allItemsOf cs, P i.toJson) → ∀ v ∈ toJsonAll cs, P v
  | [], _ => fun v hv => by cases hv
  | _ :: _, h => List.forall_mem_cons.2
    ⟨composed fun i hi => h i (List.mem_append_left _ hi),
      composed_toJsonAll fun i hi => h i (List.mem_append_right _ hi)⟩

end

theorem allItems_subset {c : Collection} {cs : List Collection} (hc : c ∈ cs) :
    c.allItems ⊆ allItemsOf cs := by
  induction cs with
  | nil => cases hc
  | cons d ds ih =>
    intro i hi
    rcases List.mem_cons.1 hc with rfl | hc
    · exact List.mem_append_left _ hi
    · exact List.mem_append_right _ (ih hc hi)

end Collection

/-- An export has the property if its schemas and its other values have it. -/
theorem Result.composed {x : Result} (h : x.Holds (fun s => P s.toJson) P) : P x.toJson := by
  have hextra : P (.obj x.extra.entries) := Composable.members x.extra.sorted.nodup_keys h.extra
  have hcollections : ∀ c ∈ x.httpCollections, P c.toJson := fun c hc =>
    Collection.composed fun i hi => ApiItem.composed (h.items i (Collection.allItems_subset hc hi))
  exact (Fields.list "httpCollections" hcollections
    |>.append (.list "dataSchemas" fun folder hfolder =>
      SchemaFolder.composed (h.folders folder hfolder))
    |>.append (.list "securitySchemes" fun c _ => SecurityCollection.composed c)
    |>.append (.list "environments" fun e _ => Environment.composed e)
    |>.append (.put "extra" hextra)
    |>.append (.textOption "basePath" x.basePath)
    |>.append (.text "title" x.title)
    |>.append (.textOption "description" x.description)
    |>.append (.text "contentVersion" x.contentVersion)).object (by decide)

end ApiFolio.Export

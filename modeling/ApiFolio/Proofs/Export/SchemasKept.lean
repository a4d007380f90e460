import ApiFolio.Export.Conversion
import ApiFolio.Proofs.Export.SchemaFolders
import ApiFolio.Proofs.OpenApi.SchemaKept
import ApiFolio.Proofs.OpenApi.Whole
import ApiFolio.Proofs.Swagger.Loading

/-!
# Component schemas are exported as they are written

A schema writes the value that it was read from, without the members that count as absent, and the
export of a document carries the schemas of its components as they were read (`schemas_kept`).
-/

namespace ApiFolio

open OpenApi

/-- The value of a component schema in a raw document. -/
def rawSchema? (raw : Json) (name : String) : Option Json :=
  ((raw.get? "components").bind (Json.get? "schemas")).bind (Json.get? name)

/-- The schemas of components are read from the values under their names. -/
theorem exists_rawSchema {raw : Json} {doc : Document} (ho : raw.Ordered)
    (hdoc : Document.ofJson? raw = some doc) {components : Components}
    (hcomponents : doc.components = some components) {e : String × Schema}
    (he : e ∈ components.schemas.entries) :
    ∃ w, rawSchema? raw e.1 = some w ∧ w.Ordered ∧ Schema.ofJson? w = some e.2 := by
  obtain ⟨ms, hms, hread⟩ := Document.ofJson?_eq_some_iff.1 hdoc
  have hoptional := hread.components
  rw [hcomponents] at hoptional
  obtain ⟨v, hv, hcomponents⟩ := Record.exists_of_optional? hoptional
  have hvo : v.Ordered := ho.members? hms _ (Entries.mem_of_get? hv)
  obtain ⟨cms, hcms, hcread⟩ := Components.ofJson?_eq_some_iff.1 hcomponents
  obtain ⟨schemas, w, hschemas, hw, hs⟩ :=
    Record.exists_of_mem_dict? (hvo.members? hcms) hcread.schemas he
  have hraw : rawSchema? raw e.1 = some w := by
    cases raw with
    | obj members =>
      cases v with
      | obj cmembers =>
        cases hms
        cases hcms
        have hcomponents : (Json.obj ms).get? "components" = some (.obj cms) := hv
        have hschemas : (Json.obj cms).get? "schemas" = some schemas := hschemas
        unfold rawSchema?
        rw [hcomponents, Option.bind_some, hschemas, Option.bind_some, hw]
      | _ => cases hcms
    | _ => cases hms
  have hso : schemas.Ordered := hvo.members? hcms _ (Entries.mem_of_get? hschemas)
  exact ⟨w, hraw, hso.get? hw, hs⟩

/-- A schema of an export of version 3 writes the value it was read from without the members that
count as absent, and so do the schemas of components in an export. -/
theorem schemas_kept :
    (∀ v : Json, v.Ordered → ∀ s, Schema.ofJson? v = some s →
      s.toJson.canonical = Schema.pruned v) ∧
    ∀ raw : Json, raw.Ordered → ∀ loaded, Loaded.ofJson raw = .ok loaded →
      loaded.dialect = .openApi3 →
      ∀ folder ∈ (Export.convert loaded.document loaded.declaredVersion).dataSchemas,
        folder.name = "Schemas" → ∀ item ∈ folder.items, ∃ source s,
          rawSchema? raw item.name = some source ∧ item.jsonSchema = some s ∧
            s.toJson.canonical = Schema.pruned source := by
  refine ⟨fun v ho s h => Schema.canonical_toJson ho h, ?_⟩
  intro raw ho loaded hloaded hdialect folder hfolder hname item hitem
  have hdoc := Loaded.openApi3_of_ofJson hloaded hdialect
  cases hcomponents : loaded.document.components with
  | none =>
    have hempty : folder ∈ Export.schemaFoldersOf loaded.document.components
        (Export.surroundings loaded.document).ends := hfolder
    rw [hcomponents] at hempty
    exact absurd hempty List.not_mem_nil
  | some components =>
    have hfolder : folder ∈ Export.schemaFoldersOf loaded.document.components
        (Export.surroundings loaded.document).ends := hfolder
    rw [hcomponents] at hfolder
    obtain ⟨e, he, hitem⟩ := Export.exists_schema_of_mem hfolder hname hitem
    obtain ⟨hitemName, hitemSchema⟩ := Export.schemaItem?_eq_some hitem
    obtain ⟨source, hsource, hordered, hread⟩ := exists_rawSchema ho hdoc hcomponents he
    rw [hitemName]
    exact ⟨source, e.2, hsource, hitemSchema, Schema.canonical_toJson hordered hread⟩

/-- A schema with nulls under a keyword and under another name, empty properties, and both again in
a property and in the additional properties. -/
def crateSchema : Json :=
  .obj [("additionalProperties", .obj [("properties", .obj []), ("title", .null)]),
    ("properties", .obj [
      ("lid", .obj [("format", .null), ("properties", .obj []), ("xml", .null)])]),
    ("title", .null), ("xml", .null)]

def crateDocument : Json :=
  .obj [("components", .obj [("schemas", .obj [("Crate", crateSchema)])]),
    ("info", .obj [("title", .str "Crates"), ("version", .str "1")]),
    ("openapi", .str "3.0.0"), ("paths", .obj [])]

theorem schemas_kept_crateDocument :
    Schema.pruned crateSchema =
      .obj [("additionalProperties", .obj [("properties", .obj []), ("title", .null)]),
        ("properties", .obj [("lid", .obj [("xml", .null)])]), ("xml", .null)] ∧
    (∃ s, Schema.ofJson? crateSchema = some s ∧
      s.toJson.canonical = Schema.pruned crateSchema) ∧
    ∃ loaded, Loaded.ofJson crateDocument = .ok loaded ∧ ∃ folder item,
      folder ∈ (Export.convert loaded.document loaded.declaredVersion).dataSchemas ∧
      item ∈ folder.items ∧ ∃ s, item.jsonSchema = some s ∧
        s.toJson.canonical = Schema.pruned crateSchema := by
  have hschema : crateSchema.Ordered := Json.ordered_of_canonical_eq rfl
  have hordered : crateDocument.Ordered := Json.ordered_of_canonical_eq rfl
  obtain ⟨s, hs⟩ : ∃ s, Schema.ofJson? crateSchema = some s := ⟨_, rfl⟩
  obtain ⟨loaded, hloaded, hdialect, folder, item, hfolder, hname, hitem, hitemName⟩ :
      ∃ loaded, Loaded.ofJson crateDocument = .ok loaded ∧ loaded.dialect = .openApi3 ∧
        ∃ folder item,
          folder ∈ (Export.convert loaded.document loaded.declaredVersion).dataSchemas ∧
          folder.name = "Schemas" ∧ item ∈ folder.items ∧ item.name = "Crate" :=
    ⟨_, rfl, rfl, _, _, List.mem_singleton.2 rfl, rfl, List.mem_singleton.2 rfl, rfl⟩
  obtain ⟨source, t, hsource, hitemSchema, ht⟩ :=
    schemas_kept.2 crateDocument hordered loaded hloaded hdialect folder hfolder hname item hitem
  rw [hitemName] at hsource
  cases (show rawSchema? crateDocument "Crate" = some crateSchema from rfl).symm.trans hsource
  exact ⟨rfl, ⟨s, hs, schemas_kept.1 crateSchema hschema s hs⟩, loaded, hloaded, folder, item,
    hfolder, hitem, t, hitemSchema, ht⟩

end ApiFolio

import ApiFolio.Proofs.Export.Missing
import ApiFolio.Proofs.Export.Settled
import ApiFolio.Proofs.Json.InRange
import ApiFolio.Proofs.OpenApi.Contents

/-!
# What an export holds comes from the document

The schemas of an export are schemas of the document, or point at one of its parts, and its other
values are values of the document. So what holds of all of them in a document (`Document.Holds`)
holds of all in its export (`convert_holds`).
-/

namespace ApiFolio

namespace OpenApi

/-- The schemas of a document and its other values have a property each. -/
structure Document.Holds (S : Schema → Prop) (V : Json → Prop) (x : Document) : Prop where
  paths : ∀ e ∈ x.paths.entries, e.2.Holds S V
  webhooks : ∀ e ∈ (Export.webhooks x).entries, e.2.Holds S V
  components : ∀ c ∈ x.components, c.Holds S V
  extensions : ∀ e ∈ x.extensions.entries, V e.2

variable {S : Schema → Prop} {V : Json → Prop}

theorem Content.Holds.firstSchema? {x : Content} (h : x.Holds S) {s : Schema}
    (hs : x.firstSchema? = some s) : S s := by
  obtain ⟨media, hmedia, hs⟩ := List.mem_filterMap.1 (mem_schemas_of_firstSchema? hs)
  obtain ⟨e, he, rfl⟩ := List.mem_map.1 hmedia
  exact h e he s hs

end OpenApi

namespace Export

open OpenApi

variable {S : Schema → Prop} {V : Json → Prop}

/-! ## Exports -/

/-- The schemas of an operation and its values for illustration have a property each, and its status
codes are in range. -/
structure ApiItem.Holds (S : Schema → Prop) (V : Json → Prop) (x : ApiItem) : Prop where
  parameters : ∀ e ∈ x.parameters.located, (∀ s ∈ e.2.schema, S s) ∧ ∀ v ∈ e.2.sample, V v
  responses : ∀ r ∈ x.responses, ∀ s ∈ r.jsonSchema, S s
  codes : ∀ r ∈ x.responses, (Number.int r.code).InRange
  requestBody : ∀ b ∈ x.requestBody, ∀ s ∈ b.jsonSchema, S s

/-- The schemas of an export and its other values have a property each. -/
structure Result.Holds (S : Schema → Prop) (V : Json → Prop) (x : Result) : Prop where
  items : ∀ i ∈ x.apiItems, i.Holds S V
  folders : ∀ folder ∈ x.dataSchemas, ∀ item ∈ folder.items, ∀ s ∈ item.jsonSchema, S s
  extra : ∀ e ∈ x.extra.entries, V e.2

section

variable {T : Schema → Prop} {W : Json → Prop} (hschema : ∀ s, S s → T s) (hvalue : ∀ v, V v → W v)

include hschema hvalue

theorem ApiItem.Holds.mono {x : ApiItem} (h : x.Holds S V) : x.Holds T W where
  parameters e he := (h.parameters e he).imp (fun hs s hmem => hschema s (hs s hmem))
    fun hv v hmem => hvalue v (hv v hmem)
  responses r hr s hs := hschema s (h.responses r hr s hs)
  codes := h.codes
  requestBody b hb s hs := hschema s (h.requestBody b hb s hs)

theorem Result.Holds.mono {x : Result} (h : x.Holds S V) : x.Holds T W where
  items i hi := (h.items i hi).mono hschema hvalue
  folders folder hfolder item hitem s hs := hschema s (h.folders folder hfolder item hitem s hs)
  extra e he := hvalue e.2 (h.extra e he)

end

theorem statusCode_inRange (status : String) : (Number.int (statusCode status)).InRange := by
  show Number.leastWhole ≤ statusCode status ∧ statusCode status ≤ Number.greatestWhole
  unfold statusCode Number.leastWhole Number.greatestWhole
  split
  · split <;> omega
  · omega

namespace Surroundings

variable {around : Surroundings} (hcomponents : ∀ c ∈ around.components, c.Holds S V)

include hcomponents

theorem parameter?_holds {r : Referable Parameter} (h : r.Holds (Parameter.Holds S V))
    {p : Parameter} (hp : around.parameter? r = some p) : p.Holds S V := by
  cases r with
  | item q =>
    cases hp
    exact h
  | ref pointer =>
    obtain ⟨c, hc, hp⟩ := Option.bind_eq_some_iff.1 hp
    obtain ⟨name, -, hget⟩ := Components.lookUp?_eq_some_iff.1 hp
    exact (hcomponents c hc).parameters _ ((Dict.mem_entries _).2 hget)

theorem apiItem_holds (hpointer : ∀ pointer, S (.pointingTo pointer)) {item : PathItem}
    (hitem : item.Holds S V) {op : Operation} (hop : op.Holds S V) (path method : String)
    (webhook : Bool) : (around.apiItem path method item op webhook).Holds S V where
  parameters := by
    intro e he
    obtain ⟨p, hp, rfl⟩ := exists_isLast_of_mem_located he
    obtain ⟨r, hr, hrp⟩ := List.mem_filterMap.1 hp.mem
    have hr : r.Holds (Parameter.Holds S V) := by
      rcases List.mem_append.1 hr with hr | hr
      · exact hitem.parameters r hr
      · exact hop.parameters r hr
    have hholds := parameter?_holds hcomponents hr hrp
    refine ⟨fun s hs => ?_, hholds.sample⟩
    rcases (Option.orElse_eq_some _ _ _).1 hs with hs | ⟨-, hs⟩
    · exact hholds.schema s hs
    · exact hholds.content.firstSchema? hs
  responses := by
    intro r hr s hs
    obtain ⟨⟨status, response⟩, he, rfl⟩ := List.mem_map.1 hr
    cases response with
    | ref pointer =>
      cases hs
      exact hpointer pointer
    | item x => exact Content.Holds.firstSchema? (hop.responses _ he) hs
  codes := by
    intro r hr
    obtain ⟨⟨status, response⟩, -, rfl⟩ := List.mem_map.1 hr
    cases response <;> exact statusCode_inRange status
  requestBody := by
    intro b hb s hs
    obtain ⟨r, hr, hb⟩ := Option.bind_eq_some_iff.1 hb
    cases r with
    | ref pointer =>
      obtain ⟨target, -, rfl⟩ := Option.map_eq_some_iff.1 hb
      cases hs
      exact hpointer target
    | item body =>
      cases hb
      exact Content.Holds.firstSchema? (hop.requestBody _ hr) hs

end Surroundings

theorem responseItem?_holds (hpointer : ∀ pointer, S (.pointingTo pointer)) {name : String}
    {r : Referable Response} (h : r.Holds fun x => x.content.Holds S) {item : SchemaItem}
    (hitem : responseItem? name r = some item) : ∀ s ∈ item.jsonSchema, S s := by
  intro s hs
  cases r with
  | ref pointer =>
    cases hitem
    cases hs
    exact hpointer pointer
  | item x =>
    unfold responseItem? at hitem
    simp only at hitem
    split at hitem <;> cases hitem
    exact Content.Holds.firstSchema? h hs

theorem requestBodyItem?_holds (hpointer : ∀ pointer, S (.pointingTo pointer)) {ends : AliasEnds}
    {name : String} {b : Referable RequestBody} (h : b.Holds fun x => x.content.Holds S)
    {item : SchemaItem} (hitem : requestBodyItem? ends name b = some item) :
    ∀ s ∈ item.jsonSchema, S s := by
  intro s hs
  cases b with
  | ref pointer =>
    obtain ⟨target, -, rfl⟩ := Option.map_eq_some_iff.1 hitem
    cases hs
    exact hpointer target
  | item x =>
    unfold requestBodyItem? at hitem
    simp only at hitem
    split at hitem <;> cases hitem
    exact Content.Holds.firstSchema? h hs

theorem schemaFolders_holds (hpointer : ∀ pointer, S (.pointingTo pointer)) {c : Components}
    (hc : c.Holds S V) {ends : AliasEnds} {folder : SchemaFolder}
    (hfolder : folder ∈ schemaFolders c ends) {item : SchemaItem} (hitem : item ∈ folder.items) :
    ∀ s ∈ item.jsonSchema, S s := by
  rcases List.mem_append.1 hfolder with hfolder | hfolder
  · rcases List.mem_append.1 hfolder with hfolder | hfolder
    · obtain ⟨e, he, hitem⟩ := (exists_of_mem_folder? hfolder).2 item hitem
      intro s hs
      rw [(schemaItem?_eq_some hitem).2] at hs
      cases hs
      exact hc.schemas e he
    · obtain ⟨e, he, hitem⟩ := (exists_of_mem_folder? hfolder).2 item hitem
      exact responseItem?_holds hpointer (hc.responses e he) hitem
  · obtain ⟨e, he, hitem⟩ := (exists_of_mem_folder? hfolder).2 item hitem
    exact requestBodyItem?_holds hpointer (hc.requestBodies e he) hitem

/-- What holds of the schemas and values of a document, of pointers and of its metadata holds of
the schemas and values of its export. -/
theorem convert_holds {doc : Document} (h : doc.Holds S V)
    (hpointer : ∀ pointer, S (.pointingTo pointer)) (hmetadata : ∀ e ∈ metadata doc, V e.2)
    (version : String) : (convert doc version).Holds S V where
  items := by
    intro i hi
    have hitem (webhook : Bool) {e : String × PathItem} (he : e.2.Holds S V)
        (hi : i ∈ (surroundings doc).apiItems e.1 e.2 webhook) : i.Holds S V := by
      obtain ⟨⟨verb, op⟩, hop, rfl⟩ := List.mem_map.1 hi
      exact Surroundings.apiItem_holds h.components hpointer he
        (he.operations verb op (PathItem.mem_operations_iff.1 hop)) _ _ _
    rcases List.mem_append.1 ((apiItems_convert doc version).mem_iff.1 hi) with hi | hi
    · obtain ⟨e, he, hi⟩ := List.mem_flatMap.1 hi
      exact hitem false (h.paths e he) hi
    · obtain ⟨e, he, hi⟩ := List.mem_flatMap.1 hi
      exact hitem true (h.webhooks e he) hi
  folders := by
    intro folder hfolder item hitem
    have hfolder : folder ∈ schemaFoldersOf doc.components (surroundings doc).ends := hfolder
    cases hc : doc.components with
    | none =>
      rw [hc] at hfolder
      cases hfolder
    | some c =>
      rw [hc] at hfolder
      exact schemaFolders_holds hpointer (h.components c hc) hfolder hitem
  extra := by
    intro e he
    rcases List.mem_append.1 (Dict.mem_of_mem_ofList he) with he | he
    · exact hmetadata e he
    · exact h.extensions e (List.mem_filter.1 he).1

end Export

end ApiFolio

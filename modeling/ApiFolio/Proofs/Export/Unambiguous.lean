import ApiFolio.Proofs.Export.Composed
import ApiFolio.Proofs.Export.Extra
import ApiFolio.Proofs.Json.Rereading
import ApiFolio.Proofs.Swagger.Assembled

/-!
# Exports are read as one value

The keywords of a schema and its other members are written side by side, and nothing checks that
they do not meet. They cannot: every schema of an export was read, was put together by the upgrade
from parts that were read, or only points somewhere, and all of these are read again as they are
(`Loaded.holds_of_ofJson`). So no object of an export has two members with one name. Its numbers are
those of the document, or status codes, and the texts of such numbers are read. So both layouts of
an export are read, and as one value (`convert_unambiguous`).
-/

namespace ApiFolio

open OpenApi

/-! ## Loaded documents -/

section Loaded

variable {S : Schema → Prop} {V : Json → Prop} [Json.Hereditary V]
  (hread : ∀ v s, V v → Schema.ofJson? v = some s → S s)

include hread

theorem OpenApi.Document.holds_of_parts {x : Document}
    (hpaths : ∀ e ∈ x.paths.entries, e.2.Holds S V)
    (hcomponents : ∀ c ∈ x.components, c.Holds S V)
    (hextensions : ∀ e ∈ x.extensions.entries, V e.2) : x.Holds S V where
  paths := hpaths
  webhooks := by
    intro e he
    obtain ⟨v, hv, hitem⟩ := Export.exists_of_mem_webhooks hextensions he
    exact PathItem.holds_of_ofJson? hread v e.2 hv hitem
  components := hcomponents
  extensions := hextensions

theorem OpenApi.Document.holds_of_ofJson? {v : Json} {x : Document} (hv : V v)
    (h : ofJson? v = some x) : x.Holds S V := by
  obtain ⟨ms, hms, h⟩ := ofJson?_eq_some_iff.1 h
  have hmembers := Json.Hereditary.members? hv hms
  exact holds_of_parts hread
    (fun e he => (whole_of_readPaths? (PathItem.holds_of_ofJson? hread) hmembers h.paths e he).2)
    (Record.optional?_all hmembers (Components.holds_of_ofJson? hread) h.components)
    (h.extensions ▸ fun e he => hmembers e (Record.mem_unknown he).1)

/-- What reading gives of the schemas and values of a document, and what the upgrade keeps, holds of
the schemas and values of the loaded one. -/
theorem Loaded.holds_of_ofJson (hassembles : Swagger.Assembles S V) (htext : ∀ s, V (.str s))
    (hmoved : ∀ bodies v, V v → V (Swagger.movePointers bodies v)) {raw : Json} {loaded : Loaded}
    (hraw : V raw) (h : Loaded.ofJson raw = .ok loaded) : loaded.document.Holds S V := by
  obtain ⟨version, document, -, hupgrade, rfl⟩ | ⟨document, -, hdocument, rfl⟩ := ofJson_cases h
  · obtain ⟨doc, hdoc, hout⟩ := Swagger.upgrade_eq_ok_iff.1 hupgrade
    have hholds := Swagger.Document.holds_of_ofJson? hread (hmoved _ raw hraw) hdoc
    exact Document.holds_of_parts hread (hholds.upgradedPaths hassembles hout)
      (hholds.upgradedComponents hassembles hout) (hholds.upgradedExtensions hout htext)
  · exact Document.holds_of_ofJson? hread hraw hdocument

end Loaded

namespace Export

/-! ## Metadata -/

theorem Metadatum.given_value? (doc : Document) (m : Metadatum) :
    ∀ v ∈ m.value? doc, v.Given := by
  have hlist {α : Type} {write : α → Json} (xs : List α) (h : ∀ x, (write x).InRange) :
      (Json.arr (xs.map fun x => (write x).canonical)).Given := by
    refine Json.given_arr fun v hv => ?_
    obtain ⟨x, -, rfl⟩ := List.mem_map.1 hv
    exact Json.given_canonical (h x)
  intro v hv
  cases m
  case version =>
    obtain ⟨-, ⟨⟩⟩ := Option.ite_none_left_eq_some.1 hv
    exact Json.given_str _
  case summary | termsOfService =>
    obtain ⟨x, -, rfl⟩ := Option.map_eq_some_iff.1 hv
    exact Json.given_str x
  case contact =>
    obtain ⟨x, -, rfl⟩ := Option.map_eq_some_iff.1 hv
    exact Json.given_canonical (composed_contact x)
  case license =>
    obtain ⟨x, -, rfl⟩ := Option.map_eq_some_iff.1 hv
    exact Json.given_canonical (composed_license x)
  case externalDocs =>
    obtain ⟨x, -, rfl⟩ := Option.map_eq_some_iff.1 hv
    exact Json.given_canonical (composed_externalDocs x)
  case tags =>
    obtain ⟨-, ⟨⟩⟩ := Option.ite_none_left_eq_some.1 hv
    exact hlist _ composed_tag
  case security =>
    obtain ⟨-, ⟨⟩⟩ := Option.ite_none_left_eq_some.1 hv
    exact hlist _ composed_securityRequirement

theorem given_metadata (doc : Document) : ∀ e ∈ metadata doc, e.2.Given := by
  intro e he
  rw [metadata_eq] at he
  obtain ⟨m, -, he⟩ := List.mem_flatMap.1 he
  cases hm : m.value? doc with
  | none =>
    rw [hm] at he
    cases he
  | some v =>
    rw [hm] at he
    cases List.mem_singleton.1 he
    exact m.given_value? doc v hm

/-! ## The schemas of an export -/

/-- The schemas that stand in an operation. -/
def ApiItem.schemas (x : ApiItem) : List Schema :=
  x.parameters.located.filterMap (·.2.schema) ++ x.responses.filterMap (·.jsonSchema)
    ++ (x.requestBody.bind (·.jsonSchema)).toList

/-- The schemas that stand in an export, in its operations and in its folders. -/
def Result.schemas (x : Result) : List Schema :=
  x.apiItems.flatMap ApiItem.schemas
    ++ x.dataSchemas.flatMap fun folder => folder.items.filterMap (·.jsonSchema)

theorem ApiItem.Holds.schemas {S : Schema → Prop} {V : Json → Prop} {x : ApiItem}
    (h : x.Holds S V) : ∀ s ∈ x.schemas, S s := by
  intro s hs
  rcases List.mem_append.1 hs with hs | hs
  · rcases List.mem_append.1 hs with hs | hs
    · obtain ⟨e, he, hs⟩ := List.mem_filterMap.1 hs
      exact (h.parameters e he).1 s hs
    · obtain ⟨r, hr, hs⟩ := List.mem_filterMap.1 hs
      exact h.responses r hr s hs
  · obtain ⟨b, hb, hs⟩ := Option.bind_eq_some_iff.1 (Option.mem_toList.1 hs)
    exact h.requestBody b hb s hs

theorem Result.Holds.schemas {S : Schema → Prop} {V : Json → Prop} {x : Result}
    (h : x.Holds S V) : ∀ s ∈ x.schemas, S s := by
  intro s hs
  rcases List.mem_append.1 hs with hs | hs
  · obtain ⟨i, hi, hs⟩ := List.mem_flatMap.1 hs
    exact (h.items i hi).schemas s hs
  · obtain ⟨folder, hfolder, hs⟩ := List.mem_flatMap.1 hs
    obtain ⟨item, hitem, hs⟩ := List.mem_filterMap.1 hs
    exact h.folders folder hfolder item hitem s hs

/-- The keywords of the schemas in an export do not meet their other members, no object that it
writes has two members with one name, and both layouts are read, as one value, where values may be
as deep as the export. -/
structure Result.Unambiguous (x : Result) : Prop where
  keywords : ∀ s ∈ x.schemas, ∀ t, s.Below t → ∀ k : Schema.Keyword, t.extra.get? k.name = none
  members : x.toJson.DistinctKeys
  texts : ∃ value, x.toJson.reread? = some value ∧
    ∀ limit pretty, Json.readWithin? limit (x.render pretty) =
      if x.toJson.depth ≤ limit then some value.canonical else none

theorem Result.Holds.unambiguous {x : Result} (h : x.Holds Schema.Given Json.Given) :
    x.Unambiguous where
  keywords s hs t hbelow k := ((h.schemas s hs).whole.rereads.below hbelow).get?_extra k
  members := Result.composed <|
    h.mono (fun _ hs => hs.whole.rereads.distinctKeys) fun _ hv => hv.ordered.distinctKeys
  texts := by
    have hrange : x.toJson.InRange := Result.composed <|
      h.mono (fun _ hs => hs.inRange) fun _ hv => hv.inRange
    obtain ⟨value, hvalue⟩ := Json.exists_reread? hrange
    refine ⟨value, hvalue, fun limit pretty => ?_⟩
    rw [Result.render, Json.readWithin?_render, hvalue, Option.map_some]

end Export

open Export

/-- The export of what readers give (`InputFormat.given_of_read`), in either version, is not
ambiguous. -/
theorem convert_unambiguous (raw : Json) (hraw : raw.Given) (loaded : Loaded)
    (h : Loaded.ofJson raw = .ok loaded) :
    (convert loaded.document loaded.declaredVersion).Unambiguous := by
  have hloaded := Loaded.holds_of_ofJson Schema.given_of_ofJson? Swagger.assembles_given
    Json.given_str Swagger.given_movePointers hraw h
  exact (convert_holds hloaded Schema.given_pointingTo (given_metadata _) _).unambiguous

/-- A document of version 2 with a parameter and a form, whose schemas are put together, and with a
definition; each has members that are no keywords. -/
def kilnDocument : Json :=
  .obj [
    ("definitions", .obj [("Kiln", .obj [
      ("properties", .obj [("heat", .obj [
        ("default", .num (.int 1200)), ("type", .str "integer"), ("x-unit", .str "degree")])]),
      ("type", .str "object")])]),
    ("info", .obj [("title", .str "Kilns"), ("version", .str "1")]),
    ("paths", .obj [("/kilns", .obj [("post", .obj [
      ("parameters", .arr [
        .obj [("default", .num (.int 20)), ("in", .str "query"), ("minimum", .num (.int 1)),
          ("name", .str "limit"), ("type", .str "integer")],
        .obj [("description", .str "The shape"), ("in", .str "formData"),
          ("maxLength", .num (.int 8)), ("name", .str "shape"), ("type", .str "string")]]),
      ("responses", .obj [("200", .obj [("description", .str "ok"),
        ("schema", .obj [("$ref", .str "#/definitions/Kiln")])])])])])]),
    ("swagger", .str "2.0")]

theorem convert_unambiguous_kilnDocument :
    ∃ loaded, Loaded.ofJson kilnDocument = .ok loaded ∧
      (convert loaded.document loaded.declaredVersion).Unambiguous ∧
      ∃ s ∈ (convert loaded.document loaded.declaredVersion).schemas,
        s.default = some (.num (.int 20)) ∧ s.extra.get? "minimum" = some (.num (.int 1)) ∧
        s.extra.get? "default" = none := by
  have hgiven : kilnDocument.Given := by
    refine ⟨Json.ordered_of_canonical_eq rfl, ?_⟩
    simp [kilnDocument, Json.InRange, Json.InRangeMembers, Json.InRangeItems, Number.InRange,
      Number.leastWhole, Number.greatestWhole]
  obtain ⟨loaded, hloaded, i, s, hi, hs, hdefault, hminimum⟩ :
      ∃ loaded, Loaded.ofJson kilnDocument = .ok loaded ∧
        ∃ i s, i ∈ documentItems loaded.document ∧ s ∈ i.schemas ∧
          s.default = some (.num (.int 20)) ∧ s.extra.get? "minimum" = some (.num (.int 1)) :=
    ⟨_, rfl, _, _, List.mem_singleton.2 rfl, List.mem_cons_self, rfl, rfl⟩
  have h := convert_unambiguous kilnDocument hgiven loaded hloaded
  have hmem : s ∈ (convert loaded.document loaded.declaredVersion).schemas :=
    List.mem_append_left _ (List.mem_flatMap.2
      ⟨i, (apiItems_convert _ _).mem_iff.2 hi, hs⟩)
  exact ⟨loaded, hloaded, h, s, hmem, hdefault, hminimum, h.keywords s hmem s .self .default⟩

end ApiFolio

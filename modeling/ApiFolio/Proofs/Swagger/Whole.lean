import ApiFolio.Proofs.OpenApi.Whole
import ApiFolio.Proofs.Swagger.Carried
import ApiFolio.Proofs.Swagger.Pointers
import ApiFolio.Proofs.Swagger.ReadFrom

/-!
# Upgraded documents are written whole

What is read of an ordered document of version 2 is whole (`Document.whole_of_ofJson?`), and the
upgrade of what is whole is whole (`Document.Whole.upgrade`): each part of the upgraded document,
those that the upgrade makes up among them, is read again from what it writes.
-/

namespace ApiFolio.Swagger

open OpenApi (Referable Schema OrderedTable whole_of_schema ordered_of_dict? holds_of_referable
  whole_of_readPaths?)
open Record (Solid)

/-- A parameter whose parts are read again. -/
structure Parameter.Whole (p : Parameter) : Prop where
  schema : ∀ s ∈ p.schema, s.Whole
  items : ∀ s ∈ p.items, s.Whole
  choices : ∀ vs ∈ p.choices, ∀ v ∈ vs, v.Ordered
  default : ∀ v ∈ p.default, Solid v
  extra : OrderedTable p.extra

/-- A response whose parts are read again. -/
structure Response.Whole (r : Response) : Prop where
  schema : ∀ s ∈ r.schema, s.Whole
  headers : OrderedTable r.headers
  examples : OrderedTable r.examples

/-- An operation whose parts are read again. -/
structure Operation.Whole (op : Operation) : Prop where
  parameters : ∀ p ∈ op.parameters, p.Holds Parameter.Whole
  responses : ∀ e ∈ op.responses.entries, e.2.Holds Response.Whole

/-- A path item whose parts are read again. -/
structure PathItem.Whole (item : PathItem) : Prop where
  operations : ∀ op ∈ item.operations, op.Whole
  parameters : ∀ p ∈ item.parameters, p.Holds Parameter.Whole

/-- A document whose parts are read again. -/
structure Document.Whole (doc : Document) : Prop where
  paths : ∀ e ∈ doc.paths.entries, OpenApi.isExtensionKey e.1 = false ∧ e.2.Whole
  definitions : ∀ e ∈ doc.definitions.entries, e.2.Whole
  parameters : ∀ e ∈ doc.parameters.entries, e.2.Whole
  responses : ∀ e ∈ doc.responses.entries, e.2.Whole
  ordered : OrderedTable doc.extensions
  unnamed : ∀ e ∈ doc.extensions.entries, Entries.get? e.1 Document.layout = none

/-! ## Reading -/

theorem Parameter.whole_of_ofJson? (v : Json) (p : Parameter) (ho : v.Ordered)
    (h : ofJson? v = some p) : p.Whole := by
  obtain ⟨ms, hms, h⟩ := ofJson?_eq_some_iff.1 h
  have hmembers := ho.members? hms
  exact {
    schema := Record.optional?_all hmembers whole_of_schema h.schema
    items := Record.optional?_all hmembers whole_of_schema h.items
    choices := Record.optional?_all hmembers (fun _ _ => Json.Ordered.items?) h.choices
    default := h.default ▸ Record.value_all hmembers
    extra := h.extra ▸ fun e he => hmembers e (Record.mem_unknown he).1 }

theorem Response.whole_of_ofJson? (v : Json) (r : Response) (ho : v.Ordered)
    (h : ofJson? v = some r) : r.Whole := by
  obtain ⟨ms, hms, h⟩ := ofJson?_eq_some_iff.1 h
  have hmembers := Record.members?_all ho hms
  exact {
    schema := Record.optional?_all hmembers whole_of_schema h.schema
    headers := ordered_of_dict? hmembers h.headers
    examples := ordered_of_dict? hmembers h.examples }

theorem Operation.whole_of_ofJson? (v : Json) (op : Operation) (ho : v.Ordered)
    (h : ofJson? v = some op) : op.Whole := by
  obtain ⟨ms, hms, h⟩ := ofJson?_eq_some_iff.1 h
  have hmembers := Record.members?_all ho hms
  exact {
    parameters := Record.list?_all hmembers
      (holds_of_referable Parameter.whole_of_ofJson?) h.parameters
    responses := Record.dict?_all hmembers
      (holds_of_referable Response.whole_of_ofJson?) h.responses }

theorem PathItem.whole_of_ofJson? (v : Json) (item : PathItem) (ho : v.Ordered)
    (h : ofJson? v = some item) : item.Whole := by
  obtain ⟨ms, hms, h⟩ := ofJson?_eq_some_iff.1 h
  have hmembers := Record.members?_all ho hms
  have hop : ∀ {name x}, Record.optional? ms name Operation.ofJson? = some x →
      ∀ op ∈ x, op.Whole := fun hx =>
    Record.optional?_all hmembers Operation.whole_of_ofJson? hx
  refine ⟨fun op hmem => ?_, Record.list?_all hmembers
    (holds_of_referable Parameter.whole_of_ofJson?) h.parameters⟩
  obtain ⟨verb, hverb⟩ := mem_operations_iff.1 hmem
  cases verb with
  | get => exact hop h.get op hverb
  | put => exact hop h.put op hverb
  | post => exact hop h.post op hverb
  | delete => exact hop h.delete op hverb
  | options => exact hop h.options op hverb
  | head => exact hop h.head op hverb
  | patch => exact hop h.patch op hverb
  | trace => cases hverb

theorem Document.whole_of_ofJson? {v : Json} {doc : Document} (ho : v.Ordered)
    (h : ofJson? v = some doc) : doc.Whole := by
  obtain ⟨ms, hms, h⟩ := ofJson?_eq_some_iff.1 h
  have hmembers := ho.members? hms
  refine {
    paths := whole_of_readPaths? PathItem.whole_of_ofJson? hmembers h.paths
    definitions := Record.dict?_all hmembers whole_of_schema h.definitions
    parameters := Record.dict?_all hmembers Parameter.whole_of_ofJson? h.parameters
    responses := Record.dict?_all hmembers Response.whole_of_ofJson? h.responses
    ordered := fun e he => ?_
    unnamed := fun e he => ?_ }
  · rw [h.extensions] at he
    exact hmembers e (Record.mem_unknown he).1
  · rw [h.extensions] at he
    exact (Record.mem_unknown he).2

/-! ## Upgrading -/

theorem ofName?_of_inlineKeyword {name : String} (h : inlineKeywords.contains name = true) :
    Schema.Keyword.ofName? name = none := by
  have hall : ∀ key ∈ inlineKeywords, Schema.Keyword.ofName? key = none := by decide
  exact hall name (by simpa using h)

theorem Parameter.Whole.inlineSchema {p : Parameter} (h : p.Whole) : p.inlineSchema.Whole := by
  unfold Parameter.inlineSchema
  split
  · rename_i schema hschema
    exact h.schema schema hschema
  · refine ⟨fun k => ?_, fun name v hv => ?_, fun name v hv => ?_⟩
    · cases k
      case type =>
        intro v hv
        split at hv
        · cases hv
          exact ⟨trivial, by simp⟩
        · obtain ⟨s, -, rfl⟩ := Option.map_eq_some_iff.1 hv
          exact ⟨trivial, by simp⟩
      case format => trivial
      case default => exact h.default
      case choices => exact h.choices
      case items => exact fun s hs => (h.items s hs).rereads
      all_goals exact Schema.whole_empty.fields _
    · have hmem := (Dict.mem_entries _).2 hv
      exact ofName?_of_inlineKeyword (List.mem_filter.1 hmem).2
    · have hmem := (Dict.mem_entries _).2 hv
      exact h.extra _ (List.mem_filter.1 hmem).1

theorem Parameter.Whole.property {p : Parameter} (h : p.Whole) : p.property.Whole :=
  @Schema.Whole.setField _ h.inlineSchema .description _ trivial

theorem Parameter.Whole.upgrade {p : Parameter} (h : p.Whole) : p.upgrade.Whole where
  schema := fun s hs => by
    cases hs
    exact h.inlineSchema.rereads
  sample := fun v hv => h.extra (_, v) ((Dict.mem_entries _).2 hv)
  content := fun e he => by cases he

theorem Parameter.Whole.upgradeBody {p : Parameter} (h : p.Whole) {consumes : List String}
    {body : OpenApi.RequestBody} (hb : p.upgradeBody consumes = .ok body) :
    OpenApi.Content.Whole body.content := by
  unfold Parameter.upgradeBody at hb
  split at hb
  · cases hb
  · rename_i schema hschema
    cases hb
    intro e he
    obtain ⟨mime, -, rfl⟩ := List.mem_map.1 (Dict.mem_of_mem_ofList he)
    exact {
      schema := fun s hs => by
        cases hs
        exact (h.schema schema hschema).rereads
      sample := fun v hv => by cases hv
      samples := fun e he => by cases he }

theorem whole_formSchema {fields : List Parameter} (h : ∀ f ∈ fields, f.Whole) :
    (formSchema fields).Whole := by
  refine ⟨fun k => ?_, fun name v hv => ?_, fun name v hv => ?_⟩
  · cases k
    case type =>
      intro v hv
      cases hv
      exact ⟨trivial, by simp⟩
    case properties =>
      refine ⟨Entries.sorted_sort _, fun e he => ?_⟩
      obtain ⟨f, hf, rfl⟩ := List.mem_map.1
        (@Dict.mem_of_mem_ofList _ (fields.map fun f => (f.name, f.property)) _ he)
      exact (h f hf).property.rereads
    case required =>
      intro v hv
      have hv : (if _ then none else some (Json.arr _)) = some v := hv
      split at hv
      · cases hv
      · cases hv
        refine ⟨Json.orderedItems_iff.2 fun w hw => ?_, by simp⟩
        obtain ⟨f, -, rfl⟩ := List.mem_map.1 hw
        trivial
    all_goals exact Schema.whole_empty.fields _
  · cases hv
  · cases hv

theorem whole_formBody {fields : List Parameter} (h : ∀ f ∈ fields, f.Whole)
    (consumes : List String) : OpenApi.Content.Whole (formBody fields consumes).content := by
  intro e he
  have hmem := List.mem_singleton.1 (Dict.mem_of_mem_ofList he)
  subst hmem
  exact {
    schema := fun s hs => by
      cases hs
      exact (whole_formSchema h).rereads
    sample := fun v hv => by cases hv
    samples := fun e he => by cases he }

theorem Response.Whole.upgrade {r : Response} (h : r.Whole) (produces : List String) :
    (r.upgrade produces).Whole where
  headers := h.headers
  links := fun e he => by cases he
  content := by
    intro e he
    unfold Response.upgrade at he
    simp only at he
    split at he
    · cases he
    · rename_i schema hschema
      obtain ⟨mime, -, rfl⟩ := List.mem_map.1 (Dict.mem_of_mem_ofList he)
      exact {
        schema := fun s hs => by
          cases hs
          exact (h.schema schema hschema).rereads
        sample := fun v hv => h.examples (_, v) ((Dict.mem_entries _).2 hv)
        samples := fun e he => by cases he }

/-! ## Documents -/

namespace Document.Whole

variable {doc : Document} (h : doc.Whole)

include h

theorem carries : doc.Carries Parameter.Whole Response.Whole OpenApi.Parameter.Whole
    (fun body => OpenApi.Content.Whole body.content) OpenApi.Response.Whole where
  parameters := h.parameters
  responses := h.responses
  plain _ hp := hp.upgrade
  body _ _ _ hp hb := hp.upgradeBody hb
  form _ consumes hfields := whole_formBody hfields consumes
  response _ produces hr := hr.upgrade produces

theorem upgradePathItem {item : PathItem} (hitem : item.Whole) {out : OpenApi.PathItem}
    (hout : doc.upgradePathItem item = .ok out) : out.Whole := by
  obtain ⟨-, hrest⟩ := upgradePathItem_eq_ok_iff.1 hout
  refine ⟨fun verb y hy => ?_, ?_, ?_⟩
  · obtain ⟨op, hop, hup⟩ := Carries.exists_of_upgradePathItem hout hy
    have hwhole := hitem.operations op hop
    obtain ⟨hparameters, hbody, hresponses⟩ := h.carries.upgradeOperation
      (fun p hp => hitem.parameters p (List.mem_filter.1 hp).1) hwhole.parameters
      hwhole.responses hup
    obtain ⟨body, -, rfl⟩ := upgradeOperation_eq_ok_iff.1 hup
    exact ⟨hparameters, hbody, hresponses, by simp⟩
  · rw [hrest]
    simp
  · rw [hrest]
    exact h.carries.plainParameters hitem.parameters

theorem components {out : OpenApi.Components} (hout : doc.components = .ok out) : out.Whole := by
  obtain ⟨hresponses, hparameters, hbodies⟩ := h.carries.components hout
  obtain ⟨bodies, schemes, -, -, rfl⟩ := components_eq_ok_iff.1 hout
  exact {
    schemas := fun e he => (h.definitions e he).rereads
    responses := hresponses
    parameters := hparameters
    requestBodies := hbodies
    ordered := fun e he => by cases he
    unnamed := fun e he => by cases he }

omit h in
theorem servers : ∀ s ∈ doc.servers, s.Whole := by
  intro s hs
  unfold Document.servers at hs
  simp only at hs
  split at hs
  · obtain ⟨scheme, -, rfl⟩ := List.mem_map.1 hs
    exact fun e he => by cases he
  · split at hs
    · cases hs
    · cases List.mem_singleton.1 hs
      exact fun e he => by cases he

omit h in
theorem mem_upgradedExtensions {e : String × Json} (he : e ∈ doc.upgradedExtensions.entries) :
    e ∈ doc.extensions.entries ∨ e.1 = "x-basePath" ∧ ∃ s, e.2 = .str s := by
  unfold Document.upgradedExtensions at he
  split at he
  · unfold Dict.insertIfNew at he
    split at he
    · exact .inl he
    · rcases Entries.mem_insert he with rfl | he
      · exact .inr ⟨rfl, _, rfl⟩
      · exact .inl he
  · exact .inl he

section Upgrade

variable {out : OpenApi.Document} (hout : doc.upgrade = .ok out)

include hout

theorem upgradedPaths :
    ∀ e ∈ out.paths.entries, OpenApi.isExtensionKey e.1 = false ∧ e.2.Whole := by
  obtain ⟨paths, components, hpaths, -, rfl⟩ := upgrade_eq_ok_iff.1 hout
  intro e he
  obtain ⟨item, hitem, hup⟩ := exists_of_mem_upgradeEntries hpaths (Dict.mem_of_mem_ofList he)
  obtain ⟨hkey, hwhole⟩ := h.paths _ hitem
  exact ⟨hkey, h.upgradePathItem hwhole hup⟩

theorem upgradedComponents : ∀ c ∈ out.components, c.Whole := by
  obtain ⟨paths, components, -, hcomponents, rfl⟩ := upgrade_eq_ok_iff.1 hout
  intro c hc
  cases hc
  exact h.components hcomponents

theorem ordered_upgraded : OrderedTable out.extensions := by
  obtain ⟨paths, components, -, -, rfl⟩ := upgrade_eq_ok_iff.1 hout
  intro e he
  rcases mem_upgradedExtensions he with he | ⟨-, s, hs⟩
  · exact h.ordered e he
  · rw [hs]
    trivial

/-- The upgrade of a whole document is whole, if no extension has the name of a member that only
version 3 has. -/
theorem upgrade (hnew : ∀ e ∈ doc.extensions.entries, e.1 ∉ ["openapi", "servers", "components"]) :
    out.Whole where
  servers := by
    obtain ⟨paths, components, -, -, rfl⟩ := upgrade_eq_ok_iff.1 hout
    exact servers
  paths := h.upgradedPaths hout
  components := h.upgradedComponents hout
  ordered := h.ordered_upgraded hout
  unnamed := by
    obtain ⟨paths, components, -, -, rfl⟩ := upgrade_eq_ok_iff.1 hout
    intro e he
    rcases mem_upgradedExtensions he with he | ⟨hname, -⟩
    · have hold := Entries.get?_eq_none_iff.1 (h.unnamed e he)
      have hnew := hnew e he
      refine Entries.get?_eq_none_iff.2 fun field hfield heq => ?_
      simp only [OpenApi.Document.layout, Document.layout, List.mem_cons, List.not_mem_nil,
        or_false] at hfield hold hnew
      grind
    · rw [hname]
      decide

end Upgrade

end Document.Whole

end ApiFolio.Swagger

import ApiFolio.Proofs.OpenApi.Contents
import ApiFolio.Proofs.Swagger.Whole

/-!
# What holds of the schemas and values of an upgraded document

The schemas of an upgraded document are schemas of the document, or are put together of the parts of
its parameters (`Assembles`), and its other values are values of the document. So what holds of all
of them in a document of version 2 holds of all in the upgraded one (`Document.Holds.upgradedPaths`,
`Document.Holds.upgradedComponents`, `Document.Holds.upgradedExtensions`).
-/

namespace ApiFolio.Swagger

open OpenApi (Referable Schema holds_of_referable whole_of_readPaths?)

/-- The schemas of a parameter and its other values have a property each. -/
structure Parameter.Holds (S : Schema → Prop) (V : Json → Prop) (p : Parameter) : Prop where
  schema : ∀ s ∈ p.schema, S s
  items : ∀ s ∈ p.items, S s
  choices : ∀ vs ∈ p.choices, ∀ v ∈ vs, V v
  default : ∀ v ∈ p.default, V v ∧ v ≠ .null
  extra : ∀ e ∈ p.extra.entries, V e.2

/-- The schema of a response has a property. -/
def Response.Holds (S : Schema → Prop) (r : Response) : Prop := ∀ s ∈ r.schema, S s

/-- The schemas of an operation and its other values have a property each. -/
structure Operation.Holds (S : Schema → Prop) (V : Json → Prop) (op : Operation) : Prop where
  parameters : ∀ p ∈ op.parameters, p.Holds (Parameter.Holds S V)
  responses : ∀ e ∈ op.responses.entries, e.2.Holds (Response.Holds S)

/-- The schemas of a path item and its other values have a property each. -/
structure PathItem.Holds (S : Schema → Prop) (V : Json → Prop) (item : PathItem) : Prop where
  operations : ∀ op ∈ item.operations, op.Holds S V
  parameters : ∀ p ∈ item.parameters, p.Holds (Parameter.Holds S V)

/-- The schemas of a document and its other values have a property each. -/
structure Document.Holds (S : Schema → Prop) (V : Json → Prop) (doc : Document) : Prop where
  paths : ∀ e ∈ doc.paths.entries, e.2.Holds S V
  definitions : ∀ e ∈ doc.definitions.entries, S e.2
  parameters : ∀ e ∈ doc.parameters.entries, e.2.Holds S V
  responses : ∀ e ∈ doc.responses.entries, e.2.Holds S
  extensions : ∀ e ∈ doc.extensions.entries, V e.2

/-! ## Reading -/

section Reading

variable {S : Schema → Prop} {V : Json → Prop} [Json.Hereditary V]
  (hread : ∀ v s, V v → Schema.ofJson? v = some s → S s)

include hread

theorem Parameter.holds_of_ofJson? (v : Json) (p : Parameter) (hv : V v)
    (h : ofJson? v = some p) : p.Holds S V := by
  obtain ⟨ms, hms, h⟩ := ofJson?_eq_some_iff.1 h
  have hmembers := Json.Hereditary.members? hv hms
  exact {
    schema := Record.optional?_all hmembers hread h.schema
    items := Record.optional?_all hmembers hread h.items
    choices := Record.optional?_all hmembers
      (fun _ _ hvs hitems => Json.Hereditary.items? hvs hitems) h.choices
    default := h.default ▸ Record.value_all hmembers
    extra := h.extra ▸ fun e he => hmembers e (Record.mem_unknown he).1 }

theorem Response.holds_of_ofJson? (v : Json) (r : Response) (hv : V v)
    (h : ofJson? v = some r) : r.Holds S := by
  obtain ⟨ms, hms, h⟩ := ofJson?_eq_some_iff.1 h
  exact Record.optional?_all (Record.members?_all hv hms) hread h.schema

theorem Operation.holds_of_ofJson? (v : Json) (op : Operation) (hv : V v)
    (h : ofJson? v = some op) : op.Holds S V := by
  obtain ⟨ms, hms, h⟩ := ofJson?_eq_some_iff.1 h
  have hmembers := Record.members?_all hv hms
  exact {
    parameters := Record.list?_all hmembers
      (holds_of_referable (Parameter.holds_of_ofJson? hread)) h.parameters
    responses := Record.dict?_all hmembers
      (holds_of_referable (Response.holds_of_ofJson? hread)) h.responses }

theorem PathItem.holds_of_ofJson? (v : Json) (item : PathItem) (hv : V v)
    (h : ofJson? v = some item) : item.Holds S V := by
  obtain ⟨ms, hms, h⟩ := ofJson?_eq_some_iff.1 h
  have hmembers := Record.members?_all hv hms
  have hop : ∀ {name x}, Record.optional? ms name Operation.ofJson? = some x →
      ∀ op ∈ x, op.Holds S V := fun hx =>
    Record.optional?_all hmembers (Operation.holds_of_ofJson? hread) hx
  refine ⟨fun op hmem => ?_, Record.list?_all hmembers
    (holds_of_referable (Parameter.holds_of_ofJson? hread)) h.parameters⟩
  obtain ⟨verb, hverb⟩ := mem_operations_iff.1 hmem
  cases verb with
  | get => exact hop h.get op hverb
  | put => exact hop h.put op hverb
  | post => exact hop h.post op hverb
  | delete => exact hop h.delete op hverb
  | options => exact hop h.options op hverb
  | head => exact hop h.head op hverb
  | patch => exact hop h.patch op hverb
  | trace => cases hverb

theorem Document.holds_of_ofJson? {v : Json} {doc : Document} (hv : V v)
    (h : ofJson? v = some doc) : doc.Holds S V := by
  obtain ⟨ms, hms, h⟩ := ofJson?_eq_some_iff.1 h
  have hmembers := Json.Hereditary.members? hv hms
  exact {
    paths := fun e he =>
      (whole_of_readPaths? (PathItem.holds_of_ofJson? hread) hmembers h.paths e he).2
    definitions := Record.dict?_all hmembers hread h.definitions
    parameters := Record.dict?_all hmembers (Parameter.holds_of_ofJson? hread) h.parameters
    responses := Record.dict?_all hmembers (Response.holds_of_ofJson? hread) h.responses
    extensions := h.extensions ▸ fun e he => hmembers e (Record.mem_unknown he).1 }

end Reading

/-! ## Upgrading -/

/-- The schemas that the upgrade puts together of the parts of parameters have a property. -/
structure Assembles (S : Schema → Prop) (V : Json → Prop) : Prop where
  inline : ∀ p : Parameter, p.Holds S V → S p.inlineSchema
  form : ∀ fields, (∀ f : Parameter, f ∈ fields → f.Holds S V) → S (formSchema fields)

variable {S : Schema → Prop} {V : Json → Prop} (hassembles : Assembles S V)

include hassembles

theorem Parameter.Holds.upgrade {p : Parameter} (h : p.Holds S V) : p.upgrade.Holds S V where
  schema := fun s hs => by
    cases hs
    exact hassembles.inline p h
  content := fun e he => by cases he
  sample := fun v hv => h.extra (_, v) ((Dict.mem_entries _).2 hv)

omit hassembles in
theorem Parameter.Holds.upgradeBody {p : Parameter} (h : p.Holds S V) {consumes : List String}
    {body : OpenApi.RequestBody} (hb : p.upgradeBody consumes = .ok body) :
    body.content.Holds S := by
  unfold Parameter.upgradeBody at hb
  split at hb
  · cases hb
  · rename_i schema hschema
    cases hb
    intro e he
    obtain ⟨mime, -, rfl⟩ := List.mem_map.1 (Dict.mem_of_mem_ofList he)
    intro s hs
    cases hs
    exact h.schema schema hschema

theorem holds_formBody {fields : List Parameter} (h : ∀ f ∈ fields, f.Holds S V)
    (consumes : List String) : (formBody fields consumes).content.Holds S := by
  intro e he
  have hmem := List.mem_singleton.1 (Dict.mem_of_mem_ofList he)
  subst hmem
  intro s hs
  cases hs
  exact hassembles.form fields h

omit hassembles in
theorem Response.Holds.upgrade {r : Response} (h : r.Holds S) (produces : List String) :
    (r.upgrade produces).content.Holds S := by
  intro e he
  unfold Response.upgrade at he
  simp only at he
  split at he
  · cases he
  · rename_i schema hschema
    obtain ⟨mime, -, rfl⟩ := List.mem_map.1 (Dict.mem_of_mem_ofList he)
    intro s hs
    cases hs
    exact h schema hschema

namespace Document.Holds

variable {doc : Document} (h : doc.Holds S V)

include h

theorem carries : doc.Carries (Parameter.Holds S V) (Response.Holds S) (OpenApi.Parameter.Holds S V)
    (fun body => body.content.Holds S) (fun r => r.content.Holds S) where
  parameters := h.parameters
  responses := h.responses
  plain _ hp := hp.upgrade hassembles
  body _ _ _ hp hb := hp.upgradeBody hb
  form _ consumes hfields := holds_formBody hassembles hfields consumes
  response _ produces hr := hr.upgrade produces

theorem upgradePathItem {item : PathItem} (hitem : item.Holds S V) {out : OpenApi.PathItem}
    (hout : doc.upgradePathItem item = .ok out) : out.Holds S V := by
  have hcarries := h.carries hassembles
  obtain ⟨-, hrest⟩ := upgradePathItem_eq_ok_iff.1 hout
  refine ⟨fun verb y hy => ?_, ?_⟩
  · obtain ⟨op, hop, hup⟩ := Carries.exists_of_upgradePathItem hout hy
    have hholds := hitem.operations op hop
    obtain ⟨hparameters, hbody, hresponses⟩ := hcarries.upgradeOperation
      (fun p hp => hitem.parameters p (List.mem_filter.1 hp).1) hholds.parameters
      hholds.responses hup
    exact ⟨hparameters, hbody, hresponses⟩
  · rw [hrest]
    exact hcarries.plainParameters hitem.parameters

variable {out : OpenApi.Document} (hout : doc.upgrade = .ok out)

include hout

theorem upgradedPaths : ∀ e ∈ out.paths.entries, e.2.Holds S V := by
  obtain ⟨paths, components, hpaths, -, rfl⟩ := upgrade_eq_ok_iff.1 hout
  intro e he
  obtain ⟨item, hitem, hup⟩ := exists_of_mem_upgradeEntries hpaths (Dict.mem_of_mem_ofList he)
  exact h.upgradePathItem hassembles (h.paths _ hitem) hup

theorem upgradedComponents : ∀ c ∈ out.components, c.Holds S V := by
  obtain ⟨paths, components, -, hcomponents, rfl⟩ := upgrade_eq_ok_iff.1 hout
  intro c hc
  cases hc
  obtain ⟨hresponses, hparameters, hbodies⟩ := (h.carries hassembles).components hcomponents
  obtain ⟨bodies, schemes, -, -, rfl⟩ := components_eq_ok_iff.1 hcomponents
  exact ⟨h.definitions, hresponses, hparameters, hbodies⟩

omit hassembles in
theorem upgradedExtensions (htext : ∀ s, V (.str s)) : ∀ e ∈ out.extensions.entries, V e.2 := by
  obtain ⟨paths, components, -, -, rfl⟩ := upgrade_eq_ok_iff.1 hout
  intro e he
  rcases Whole.mem_upgradedExtensions he with he | ⟨-, s, hs⟩
  · exact h.extensions e he
  · rw [hs]
    exact htext s

end Document.Holds

end ApiFolio.Swagger

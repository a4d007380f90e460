import ApiFolio.Proofs.OpenApi.ReadFrom
import ApiFolio.Proofs.OpenApi.Reread

/-!
# What was read is whole

Whatever is read of an ordered value holds ordered values only, so each record of a document that
was read is read again from what it writes (`Document.whole_of_ofJson?`).
-/

namespace ApiFolio.OpenApi

open Record

/-! ## Parts of every kind -/

theorem whole_of_schema (v : Json) (s : Schema) (ho : v.Ordered) (h : Schema.ofJson? v = some s) :
    s.Whole :=
  Schema.whole_of_ofJson? ho h

theorem rereads_of_schema (v : Json) (s : Schema) (ho : v.Ordered)
    (h : Schema.ofJson? v = some s) : s.Rereads :=
  Schema.rereads_of_ofJson? ho h

theorem ordered_of_dict? {members : List (String × Json)} {name : String} {table : Dict Json}
    (ho : ∀ m ∈ members, m.2.Ordered) (h : dict? members name some = some table) :
    OrderedTable table :=
  dict?_all ho (fun _ _ hv heq => by cases heq; exact hv) h

theorem ordered_of_value {members : List (String × Json)} {name : String}
    (ho : ∀ m ∈ members, m.2.Ordered) : ∀ v ∈ value members name, v.Ordered :=
  fun v hv => (value_all ho v hv).1

section

variable {V : Json → Prop} {α : Type} {read : Json → Option α} {P : α → Prop}
  (hread : ∀ v x, V v → read v = some x → P x)

include hread

theorem holds_of_referable (v : Json) (r : Referable α) (hv : V v)
    (h : Referable.ofJson? read v = some r) : r.Holds P := by
  unfold Referable.ofJson? at h
  split at h
  · cases h
    trivial
  · obtain ⟨x, hx, rfl⟩ := Option.map_eq_some_iff.1 h
    exact hread v x hv hx

/-- The paths that were read are no extensions, and what reading gives of each holds of each. -/
theorem whole_of_readPaths? [Json.Hereditary V] {members : List (String × Json)}
    (hmembers : ∀ m ∈ members, V m.2) {paths : Dict α}
    (h : withDefault? members "paths" ∅ (readPaths? read) = some paths) :
    ∀ e ∈ paths.entries, isExtensionKey e.1 = false ∧ P e.2 := by
  unfold withDefault? at h
  split at h
  · cases h
    exact fun e he => by cases he
  · rename_i v hv
    have hv : V v := hmembers _ (Entries.mem_of_get? hv)
    cases v with
    | obj entries =>
      cases h
      intro e he
      obtain ⟨w, hw, hitem⟩ := Entries.exists_mem_of_mem_filterMapValues he
      have hw := Json.Hereditary.members hv _ (Dict.mem_of_mem_ofList hw)
      split at hitem
      · cases hitem
      · rename_i hkey
        exact ⟨by simpa using hkey, hread w e.2 hw hitem⟩
    | _ => cases h

end

/-! ## The records of a document -/

theorem MediaType.whole_of_ofJson? (v : Json) (x : MediaType) (ho : v.Ordered)
    (h : ofJson? v = some x) : x.Whole := by
  obtain ⟨ms, hms, h⟩ := ofJson?_eq_some_iff.1 h
  have hmembers := members?_all ho hms
  exact {
    schema := optional?_all hmembers rereads_of_schema h.schema
    sample := h.sample ▸ ordered_of_value hmembers
    samples := ordered_of_dict? hmembers h.samples }

theorem RequestBody.whole_of_ofJson? (v : Json) (x : RequestBody) (ho : v.Ordered)
    (h : ofJson? v = some x) : Content.Whole x.content := by
  obtain ⟨ms, hms, h⟩ := ofJson?_eq_some_iff.1 h
  exact dict?_all (members?_all ho hms) MediaType.whole_of_ofJson? h.content

theorem Parameter.whole_of_ofJson? (v : Json) (x : Parameter) (ho : v.Ordered)
    (h : ofJson? v = some x) : x.Whole := by
  obtain ⟨ms, hms, h⟩ := ofJson?_eq_some_iff.1 h
  have hmembers := members?_all ho hms
  exact {
    schema := optional?_all hmembers rereads_of_schema h.schema
    sample := h.sample ▸ ordered_of_value hmembers
    content := dict?_all hmembers MediaType.whole_of_ofJson? h.content }

theorem Response.whole_of_ofJson? (v : Json) (x : Response) (ho : v.Ordered)
    (h : ofJson? v = some x) : x.Whole := by
  obtain ⟨ms, hms, h⟩ := ofJson?_eq_some_iff.1 h
  have hmembers := members?_all ho hms
  exact {
    headers := ordered_of_dict? hmembers h.headers
    content := dict?_all hmembers MediaType.whole_of_ofJson? h.content
    links := ordered_of_dict? hmembers h.links }

theorem ServerVariable.ordered_of_ofJson? (v : Json) (x : ServerVariable) (ho : v.Ordered)
    (h : ofJson? v = some x) : ∀ vs ∈ x.choices, ∀ w ∈ vs, w.Ordered := by
  obtain ⟨ms, hms, h⟩ := ofJson?_eq_some_iff.1 h
  exact optional?_all (members?_all ho hms) (fun _ _ => Json.Ordered.items?) h.choices

theorem Server.whole_of_ofJson? (v : Json) (x : Server) (ho : v.Ordered)
    (h : ofJson? v = some x) : x.Whole := by
  obtain ⟨ms, hms, h⟩ := ofJson?_eq_some_iff.1 h
  exact dict?_all (members?_all ho hms) ServerVariable.ordered_of_ofJson? h.slots

theorem Operation.whole_of_ofJson? (v : Json) (x : Operation) (ho : v.Ordered)
    (h : ofJson? v = some x) : x.Whole := by
  obtain ⟨ms, hms, h⟩ := ofJson?_eq_some_iff.1 h
  have hmembers := members?_all ho hms
  exact {
    parameters := list?_all hmembers (holds_of_referable Parameter.whole_of_ofJson?) h.parameters
    requestBody := optional?_all hmembers (holds_of_referable RequestBody.whole_of_ofJson?)
      h.requestBody
    responses := dict?_all hmembers (holds_of_referable Response.whole_of_ofJson?) h.responses
    servers := list?_all hmembers Server.whole_of_ofJson? h.servers }

theorem PathItem.whole_of_ofJson? (v : Json) (x : PathItem) (ho : v.Ordered)
    (h : ofJson? v = some x) : x.Whole := by
  obtain ⟨ms, hms, h⟩ := ofJson?_eq_some_iff.1 h
  have hmembers := members?_all ho hms
  have hop : ∀ {name y}, optional? ms name Operation.ofJson? = some y → ∀ op ∈ y, op.Whole :=
    fun hy => optional?_all hmembers Operation.whole_of_ofJson? hy
  refine {
    operations := fun verb => ?_
    servers := list?_all hmembers Server.whole_of_ofJson? h.servers
    parameters := list?_all hmembers (holds_of_referable Parameter.whole_of_ofJson?)
      h.parameters }
  cases verb with
  | get => exact hop h.get
  | put => exact hop h.put
  | post => exact hop h.post
  | delete => exact hop h.delete
  | options => exact hop h.options
  | head => exact hop h.head
  | patch => exact hop h.patch
  | trace => exact hop h.trace

theorem Components.whole_of_ofJson? (v : Json) (x : Components) (ho : v.Ordered)
    (h : ofJson? v = some x) : x.Whole := by
  obtain ⟨ms, hms, h⟩ := ofJson?_eq_some_iff.1 h
  have hmembers := ho.members? hms
  exact {
    schemas := dict?_all hmembers rereads_of_schema h.schemas
    responses := dict?_all hmembers (holds_of_referable Response.whole_of_ofJson?) h.responses
    parameters := dict?_all hmembers (holds_of_referable Parameter.whole_of_ofJson?) h.parameters
    requestBodies := dict?_all hmembers (holds_of_referable RequestBody.whole_of_ofJson?)
      h.requestBodies
    ordered := h.extra ▸ fun e he => hmembers e (mem_unknown he).1
    unnamed := h.extra ▸ fun e he => (mem_unknown he).2 }

theorem Document.whole_of_ofJson? {v : Json} {x : Document} (ho : v.Ordered)
    (h : ofJson? v = some x) : x.Whole := by
  obtain ⟨ms, hms, h⟩ := ofJson?_eq_some_iff.1 h
  have hmembers := ho.members? hms
  exact {
    servers := list?_all hmembers Server.whole_of_ofJson? h.servers
    paths := whole_of_readPaths? PathItem.whole_of_ofJson? hmembers h.paths
    components := optional?_all hmembers Components.whole_of_ofJson? h.components
    ordered := h.extensions ▸ fun e he => hmembers e (mem_unknown he).1
    unnamed := h.extensions ▸ fun e he => (mem_unknown he).2 }

end ApiFolio.OpenApi

import ApiFolio.Proofs.OpenApi.Whole

/-!
# What holds of the schemas and values of a document

A document holds schemas and other values. If reading gives a property of schemas from every value
with a property, and the values in such a value have it too, then all schemas of a part of a
document that was read from such a value have the one property, and its other values have the other
(`PathItem.holds_of_ofJson?`, `Components.holds_of_ofJson?`).
-/

namespace ApiFolio.OpenApi

open Record

/-- The schemas of representations have a property. -/
def Content.Holds (S : Schema → Prop) (x : Content) : Prop :=
  ∀ e ∈ x.entries, ∀ s ∈ e.2.schema, S s

/-- The schemas of a parameter and its value for illustration have a property each. -/
structure Parameter.Holds (S : Schema → Prop) (V : Json → Prop) (x : Parameter) : Prop where
  schema : ∀ s ∈ x.schema, S s
  content : x.content.Holds S
  sample : ∀ v ∈ x.sample, V v

/-- The schemas and the values for illustration of an operation have a property each. -/
structure Operation.Holds (S : Schema → Prop) (V : Json → Prop) (x : Operation) : Prop where
  parameters : ∀ p ∈ x.parameters, p.Holds (Parameter.Holds S V)
  requestBody : ∀ b ∈ x.requestBody, b.Holds fun body => body.content.Holds S
  responses : ∀ e ∈ x.responses.entries, e.2.Holds fun r => r.content.Holds S

/-- The schemas and the values for illustration of a path item have a property each. -/
structure PathItem.Holds (S : Schema → Prop) (V : Json → Prop) (x : PathItem) : Prop where
  operations : ∀ verb, ∀ op ∈ x.operation? verb, op.Holds S V
  parameters : ∀ p ∈ x.parameters, p.Holds (Parameter.Holds S V)

/-- The schemas and the values for illustration of components have a property each. -/
structure Components.Holds (S : Schema → Prop) (V : Json → Prop) (x : Components) : Prop where
  schemas : ∀ e ∈ x.schemas.entries, S e.2
  responses : ∀ e ∈ x.responses.entries, e.2.Holds fun r => r.content.Holds S
  parameters : ∀ e ∈ x.parameters.entries, e.2.Holds (Parameter.Holds S V)
  requestBodies : ∀ e ∈ x.requestBodies.entries, e.2.Holds fun body => body.content.Holds S

/-! ## Reading -/

section

variable {S : Schema → Prop} {V : Json → Prop} [Json.Hereditary V]
  (hread : ∀ v s, V v → Schema.ofJson? v = some s → S s)

include hread

theorem MediaType.holds_of_ofJson? (v : Json) (x : MediaType) (hv : V v)
    (h : ofJson? v = some x) : ∀ s ∈ x.schema, S s := by
  obtain ⟨ms, hms, h⟩ := ofJson?_eq_some_iff.1 h
  exact optional?_all (members?_all hv hms) hread h.schema

theorem RequestBody.holds_of_ofJson? (v : Json) (x : RequestBody) (hv : V v)
    (h : ofJson? v = some x) : x.content.Holds S := by
  obtain ⟨ms, hms, h⟩ := ofJson?_eq_some_iff.1 h
  exact dict?_all (members?_all hv hms) (MediaType.holds_of_ofJson? hread) h.content

theorem Response.holds_of_ofJson? (v : Json) (x : Response) (hv : V v)
    (h : ofJson? v = some x) : x.content.Holds S := by
  obtain ⟨ms, hms, h⟩ := ofJson?_eq_some_iff.1 h
  exact dict?_all (members?_all hv hms) (MediaType.holds_of_ofJson? hread) h.content

theorem Parameter.holds_of_ofJson? (v : Json) (x : Parameter) (hv : V v)
    (h : ofJson? v = some x) : x.Holds S V := by
  obtain ⟨ms, hms, h⟩ := ofJson?_eq_some_iff.1 h
  have hmembers := members?_all hv hms
  exact {
    schema := optional?_all hmembers hread h.schema
    content := dict?_all hmembers (MediaType.holds_of_ofJson? hread) h.content
    sample := h.sample ▸ fun w hw => (value_all hmembers w hw).1 }

theorem Operation.holds_of_ofJson? (v : Json) (x : Operation) (hv : V v)
    (h : ofJson? v = some x) : x.Holds S V := by
  obtain ⟨ms, hms, h⟩ := ofJson?_eq_some_iff.1 h
  have hmembers := members?_all hv hms
  exact {
    parameters := list?_all hmembers (holds_of_referable (Parameter.holds_of_ofJson? hread))
      h.parameters
    requestBody := optional?_all hmembers (holds_of_referable (RequestBody.holds_of_ofJson? hread))
      h.requestBody
    responses := dict?_all hmembers (holds_of_referable (Response.holds_of_ofJson? hread))
      h.responses }

theorem PathItem.holds_of_ofJson? (v : Json) (x : PathItem) (hv : V v)
    (h : ofJson? v = some x) : x.Holds S V := by
  obtain ⟨ms, hms, h⟩ := ofJson?_eq_some_iff.1 h
  have hmembers := members?_all hv hms
  have hop : ∀ {name y}, optional? ms name Operation.ofJson? = some y →
      ∀ op ∈ y, op.Holds S V := fun hy =>
    optional?_all hmembers (Operation.holds_of_ofJson? hread) hy
  refine ⟨fun verb => ?_, list?_all hmembers
    (holds_of_referable (Parameter.holds_of_ofJson? hread)) h.parameters⟩
  cases verb with
  | get => exact hop h.get
  | put => exact hop h.put
  | post => exact hop h.post
  | delete => exact hop h.delete
  | options => exact hop h.options
  | head => exact hop h.head
  | patch => exact hop h.patch
  | trace => exact hop h.trace

theorem Components.holds_of_ofJson? (v : Json) (x : Components) (hv : V v)
    (h : ofJson? v = some x) : x.Holds S V := by
  obtain ⟨ms, hms, h⟩ := ofJson?_eq_some_iff.1 h
  have hmembers := Json.Hereditary.members? hv hms
  exact {
    schemas := dict?_all hmembers hread h.schemas
    responses := dict?_all hmembers (holds_of_referable (Response.holds_of_ofJson? hread))
      h.responses
    parameters := dict?_all hmembers (holds_of_referable (Parameter.holds_of_ofJson? hread))
      h.parameters
    requestBodies := dict?_all hmembers (holds_of_referable (RequestBody.holds_of_ofJson? hread))
      h.requestBodies }

end

end ApiFolio.OpenApi

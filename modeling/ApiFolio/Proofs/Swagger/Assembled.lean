import ApiFolio.Proofs.OpenApi.SchemaRange
import ApiFolio.Proofs.Swagger.Contents

/-!
# Schemas that the upgrade puts together

The schema of a parameter, and that of a form, are put together of the keywords that parameters
carry. They are read again and write no number that no parameter carries (`assembles_given`).
-/

namespace ApiFolio.Swagger

open OpenApi (Schema)

namespace Parameter.Holds

variable {p : Parameter} (h : p.Holds Schema.Given Json.Given)

include h

theorem whole : p.Whole where
  schema s hs := (h.schema s hs).whole
  items s hs := (h.items s hs).whole
  choices vs hvs v hv := (h.choices vs hvs v hv).ordered
  default v hv := ⟨(h.default v hv).1.ordered, (h.default v hv).2⟩
  extra e he := (h.extra e he).ordered

theorem inlineSchema : p.inlineSchema.Given := by
  have hwhole := h.whole.inlineSchema
  cases hschema : p.schema with
  | some s =>
    have heq : p.inlineSchema = s := by rw [Parameter.inlineSchema, hschema]
    exact heq ▸ h.schema s hschema
  | none =>
    rw [Parameter.inlineSchema, hschema] at hwhole ⊢
    refine hwhole.given (fun k v hv => ?_) fun e he => (h.extra e (List.mem_filter.1 he).1).inRange
    cases k
    case type =>
      have hv : (if p.isFile then some (Json.str "string") else p.type.map .str) = some v := hv
      split at hv
      · cases hv
        trivial
      · obtain ⟨s, -, rfl⟩ := Option.map_eq_some_iff.1 hv
        trivial
    case format =>
      obtain ⟨s, -, rfl⟩ := Option.map_eq_some_iff.1 hv
      trivial
    case default => exact (h.default v hv).1.inRange
    case choices =>
      obtain ⟨vs, hvs, rfl⟩ := Option.map_eq_some_iff.1 hv
      exact Json.inRangeItems_iff.2 fun w hw => (h.choices vs hvs w hw).inRange
    case items =>
      obtain ⟨s, hs, rfl⟩ := Option.map_eq_some_iff.1 hv
      exact (h.items s hs).inRange
    all_goals cases hv

theorem property : p.property.Given := by
  refine @Schema.Given.setField _ h.inlineSchema .description _ trivial fun v hv => ?_
  obtain ⟨s, -, rfl⟩ := Option.map_eq_some_iff.1 hv
  trivial

end Parameter.Holds

/-- The names of the fields that a form requires. -/
theorem given_required (fields : List Parameter) :
    ∀ v ∈ (formSchema fields).required, Record.Solid v ∧ v.InRange := by
  intro v hv
  unfold formSchema at hv
  simp only at hv
  split at hv
  · cases hv
  · cases hv
    refine ⟨⟨Json.orderedItems_iff.2 fun w hw => ?_, by simp⟩,
      Json.Composable.map fun f _ => Json.Composable.text f.name⟩
    obtain ⟨f, -, rfl⟩ := List.mem_map.1 hw
    trivial

theorem given_formSchema (fields : List Parameter)
    (h : ∀ f ∈ fields, f.Holds Schema.Given Json.Given) : (formSchema fields).Given := by
  have hproperty : ∀ e ∈ (formSchema fields).properties, e.2.Given := by
    intro e he
    obtain ⟨f, hf, rfl⟩ := List.mem_map.1
      (@Dict.mem_of_mem_ofList _ (fields.map fun f => (f.name, f.property)) _ he)
    exact (h f hf).property
  have htype : (Schema.ofType "object").Given :=
    @Schema.Given.setField _ Schema.given_empty .type (some (.str "object"))
      (fun v hv => by cases hv; exact ⟨trivial, by simp⟩) (fun v hv => by cases hv; trivial)
  have hproperties := htype.setProperties (Entries.sorted_sort _) hproperty
  exact @Schema.Given.setField _ hproperties .required (formSchema fields).required
    (fun v hv => (given_required fields v hv).1) fun v hv => (given_required fields v hv).2

/-- What parameters that were read are put together to is read again, and its numbers are in
range. -/
theorem assembles_given : Assembles Schema.Given Json.Given where
  inline _ h := h.inlineSchema
  form := given_formSchema

end ApiFolio.Swagger

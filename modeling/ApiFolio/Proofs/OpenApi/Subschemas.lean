import ApiFolio.OpenApi.Schema

/-!
# The schemas below a schema

A schema stands in another under one of the keywords that hold schemas, as one of its children, and
below it at any number of steps (`Below`). The nested schemas are the schema and those nested in its
children (`nested_eq`), so the list has all that stand below the schema (`Below.nested_subset`).
-/

namespace ApiFolio.OpenApi.Schema

/-! ## Children -/

/-- The schemas that stand directly in a schema. -/
def children (s : Schema) : List Schema :=
  s.items.toList ++ s.properties.map (·.2) ++ s.allOf.getD [] ++ s.anyOf.getD [] ++ s.oneOf.getD []
    ++ s.excluded.toList ++ (s.additional.bind (·.2)).toList

theorem nestedOption_eq (o : Option Schema) : nestedOption o = o.toList.flatMap nested := by
  cases o with
  | none => rfl
  | some s => simp [nestedOption]

theorem nestedItems_eq (ts : List Schema) : nestedItems ts = ts.flatMap nested := by
  induction ts with
  | nil => rfl
  | cons t rest ih => rw [nestedItems, ih, List.flatMap_cons]

theorem nestedLists_eq (o : Option (List Schema)) :
    nestedLists o = (o.getD []).flatMap nested := by
  cases o with
  | none => rfl
  | some ts => rw [nestedLists, nestedItems_eq, Option.getD_some]

theorem nestedProperties_eq (ps : List (String × Schema)) :
    nestedProperties ps = (ps.map (·.2)).flatMap nested := by
  induction ps with
  | nil => rfl
  | cons p rest ih => rw [nestedProperties, ih, List.map_cons, List.flatMap_cons]

theorem nestedAdditional_eq (o : Option (Json × Option Schema)) :
    nestedAdditional o = (o.bind (·.2)).toList.flatMap nested := by
  rcases o with _ | ⟨v, _ | s⟩
  · rfl
  · rfl
  · simp [nestedAdditional]

/-- The nested schemas are the schema and those nested in its children. -/
theorem nested_eq (s : Schema) : s.nested = s :: s.children.flatMap nested := by
  cases s
  rw [nested]
  simp only [children, List.flatMap_append, nestedOption_eq, nestedProperties_eq, nestedLists_eq,
    nestedAdditional_eq]

theorem sizeOf_lt_of_mem_children {s t : Schema} (h : t ∈ s.children) : sizeOf t < sizeOf s := by
  cases s with
  | mk _ _ _ _ _ _ _ _ _ _ _ _ _ properties additional items allOf anyOf oneOf excluded _ =>
    have hlist {o : Option (List Schema)} (ht : t ∈ o.getD []) : sizeOf t < sizeOf o := by
      cases o with
      | none => cases ht
      | some ts =>
        have hlt := List.sizeOf_lt_of_mem ht
        simp only [Option.getD_some, Option.some.sizeOf_spec] at hlt ⊢
        omega
    have hoption {o : Option Schema} (ht : t ∈ o.toList) : sizeOf t < sizeOf o := by
      cases Option.mem_toList.1 ht
      simp
    rw [Schema.mk.sizeOf_spec]
    simp only [children, List.mem_append] at h
    rcases h with (((((h | h) | h) | h) | h) | h) | h
    · have := hoption h
      omega
    · obtain ⟨⟨name, u⟩, hp, rfl⟩ := List.mem_map.1 h
      have := List.sizeOf_lt_of_mem hp
      simp only [Prod.mk.sizeOf_spec] at this ⊢
      omega
    · have := hlist h
      omega
    · have := hlist h
      omega
    · have := hlist h
      omega
    · have := hoption h
      omega
    · obtain ⟨⟨v, o⟩, rfl, ho⟩ := Option.bind_eq_some_iff.1 (Option.mem_toList.1 h)
      cases ho
      simp
      omega

/-- What holds of a schema if it holds of its children holds of all schemas. -/
@[elab_as_elim]
theorem induction_children {motive : Schema → Prop}
    (step : ∀ s : Schema, (∀ t ∈ s.children, motive t) → motive s) (s : Schema) : motive s :=
  step s fun t _ => induction_children step t
termination_by s
decreasing_by exact sizeOf_lt_of_mem_children ‹_›

/-! ## Schemas at some depth -/

/-- A schema that stands directly in another, by the keyword that holds it. -/
inductive Child (s : Schema) : Schema → Prop where
  | items {t : Schema} (h : s.items = some t) : Child s t
  | property {name : String} {t : Schema} (h : (name, t) ∈ s.properties) : Child s t
  | allOf {ts : List Schema} {t : Schema} (h : s.allOf = some ts) (ht : t ∈ ts) : Child s t
  | anyOf {ts : List Schema} {t : Schema} (h : s.anyOf = some ts) (ht : t ∈ ts) : Child s t
  | oneOf {ts : List Schema} {t : Schema} (h : s.oneOf = some ts) (ht : t ∈ ts) : Child s t
  | excluded {t : Schema} (h : s.excluded = some t) : Child s t
  | additional {v : Json} {t : Schema} (h : s.additional = some (v, some t)) : Child s t

/-- A schema itself, or one that stands in it at some depth. -/
inductive Below (s : Schema) : Schema → Prop where
  | self : Below s s
  | child {t u : Schema} (h : Below s t) (hu : Child t u) : Below s u

theorem mem_nested_self (s : Schema) : s ∈ s.nested := by
  rw [nested_eq]
  exact List.mem_cons_self

theorem Child.mem_children {s t : Schema} (h : Child s t) : t ∈ s.children := by
  unfold children
  simp only [List.mem_append]
  cases h with
  | items h => simp [h]
  | property h => simp [List.mem_map_of_mem h]
  | allOf h ht => simp [h, ht]
  | anyOf h ht => simp [h, ht]
  | oneOf h ht => simp [h, ht]
  | excluded h => simp [h]
  | additional h => simp [h]

/-- What is nested in a schema that stands in another is nested in the other. -/
theorem Child.nested_subset {s t : Schema} (h : Child s t) : t.nested ⊆ s.nested := by
  intro u hu
  rw [nested_eq s]
  exact List.mem_cons_of_mem _ (List.mem_flatMap.2 ⟨t, h.mem_children, hu⟩)

theorem Below.nested_subset {s t : Schema} (h : Below s t) : t.nested ⊆ s.nested := by
  induction h with
  | self => exact fun _ hu => hu
  | child _ hchild ih => exact fun _ hu => ih (hchild.nested_subset hu)

/-- The pointer of a schema below another is one of its pointers. -/
theorem Below.ref_mem_pointers {s t : Schema} {pointer : String} (h : Below s t)
    (href : t.ref = some pointer) : pointer ∈ s.pointers :=
  List.mem_filterMap.2 ⟨t, h.nested_subset t.mem_nested_self, href⟩

end ApiFolio.OpenApi.Schema

import ApiFolio.Proofs.Json.Distinct
import ApiFolio.Proofs.OpenApi.SchemaReread
import ApiFolio.Proofs.OpenApi.Subschemas

/-!
# Keywords and other members of a schema

A schema writes its keywords and its other members side by side in one object. Those of a schema
that is read again do not meet, in it and in every schema below it (`Rereads.below`,
`Rereads.get?_extra`), so all that it writes has distinct keys (`Rereads.distinctKeys`).
-/

namespace ApiFolio.OpenApi.Schema

open Record (Fields)

variable {s t : Schema}

/-- What is read of the members that a schema writes is whole. -/
theorem Rereads.whole (h : s.Rereads) : s.Whole := whole_of_ofJson? (Json.ordered_canonical _) h

theorem Rereads.child (h : s.Rereads) (hchild : s.Child t) : t.Rereads := by
  have hfields := h.whole.fields
  cases hchild with
  | items ht => exact hfields .items t ht
  | property ht => exact (hfields .properties).2 _ ht
  | allOf hts ht => exact hfields .allOf _ hts t ht
  | anyOf hts ht => exact hfields .anyOf _ hts t ht
  | oneOf hts ht => exact hfields .oneOf _ hts t ht
  | excluded ht => exact hfields .excluded t ht
  | additional ht =>
    obtain ⟨hsolid, hread⟩ := hfields .additional _ ht
    exact rereads_of_ofJson? hsolid.1 hread.symm

/-- The schemas below one that is read again are read again. -/
theorem Rereads.below (h : s.Rereads) (hbelow : s.Below t) : t.Rereads := by
  induction hbelow with
  | self => exact h
  | child _ hchild ih => exact ih.child hchild

/-- No other member of a schema that is read again has the name of a keyword. -/
theorem Rereads.get?_extra (h : s.Rereads) (k : Keyword) : s.extra.get? k.name = none := by
  rw [Option.eq_none_iff_forall_not_mem]
  intro v hv
  have hname := h.whole.unnamed k.name v hv
  rw [Keyword.ofName?_name] at hname
  cases hname

/-! ## What a schema writes -/

theorem composed_toItems {P : Json → Prop} [Json.Composable P] {schemas : List Schema}
    (h : ∀ t ∈ schemas, P t.toJson) : P (.arr (toItems schemas)) := by
  rw [toItems_eq]
  exact Json.Composable.map h

theorem composed_toPropertyMembers {P : Json → Prop} [Json.Composable P]
    {properties : List (String × Schema)} (hs : Entries.Sorted properties)
    (h : ∀ e ∈ properties, P e.2.toJson) : P (.obj (toPropertyMembers properties)) := by
  rw [toPropertyMembers_eq]
  refine Json.Composable.members (Entries.sorted_mapValues toJson hs).nodup_keys ?_
  intro m hm
  obtain ⟨e, he, rfl⟩ := List.mem_map.1 hm
  exact h e he

/-- The value of a keyword has distinct keys if those of the schemas directly below have. -/
theorem Whole.distinctKeys_writeField (h : s.Whole)
    (hchildren : ∀ t, s.Child t → t.toJson.DistinctKeys) (k : Keyword) :
    ∀ v ∈ writeField k (s.field k), v.DistinctKeys := by
  have hfield := h.fields k
  intro v hv
  cases k
  case ref | format | title | description =>
    obtain ⟨x, -, rfl⟩ := Option.map_eq_some_iff.1 hv
    trivial
  case nullable | deprecated | readOnly | writeOnly =>
    obtain ⟨x, -, rfl⟩ := Option.map_eq_some_iff.1 hv
    trivial
  case type | default | sample | required => exact (hfield v hv).1.distinctKeys
  case choices =>
    obtain ⟨vs, hvs, rfl⟩ := Option.map_eq_some_iff.1 hv
    exact Json.OrderedItems.distinctItems (Json.orderedItems_iff.2 (hfield vs hvs))
  case properties =>
    have hv : (if s.properties.isEmpty then none
      else some (Json.obj (toPropertyMembers s.properties))) = some v := hv
    split at hv
    · cases hv
    · cases hv
      exact composed_toPropertyMembers hfield.1 fun e he => hchildren _ (.property he)
  case additional =>
    obtain ⟨e, he, rfl⟩ := Option.map_eq_some_iff.1 hv
    exact (hfield e he).1.1.distinctKeys
  case items =>
    obtain ⟨t, ht, rfl⟩ := Option.map_eq_some_iff.1 hv
    exact hchildren t (.items ht)
  case excluded =>
    obtain ⟨t, ht, rfl⟩ := Option.map_eq_some_iff.1 hv
    exact hchildren t (.excluded ht)
  case allOf =>
    obtain ⟨ts, hts, rfl⟩ := Option.map_eq_some_iff.1 hv
    exact composed_toItems fun t ht => hchildren t (.allOf hts ht)
  case anyOf =>
    obtain ⟨ts, hts, rfl⟩ := Option.map_eq_some_iff.1 hv
    exact composed_toItems fun t ht => hchildren t (.anyOf hts ht)
  case oneOf =>
    obtain ⟨ts, hts, rfl⟩ := Option.map_eq_some_iff.1 hv
    exact composed_toItems fun t ht => hchildren t (.oneOf hts ht)

theorem Keyword.nodup_names : (Keyword.all.map Keyword.name).Nodup := by decide

/-- A schema that is read again writes no name twice, in any object. -/
theorem Rereads.distinctKeys (h : s.Rereads) : s.toJson.DistinctKeys := by
  induction s using induction_children with
  | step s ih =>
    have hvalues := h.whole.distinctKeys_writeField fun t ht => ih t ht.mem_children (h.child ht)
    have hkeywords : Fields Json.DistinctKeys (Keyword.all.map Keyword.name)
        (Keyword.all.flatMap fun k => Record.putOption k.name id (writeField k (s.field k))) :=
      .flatMap fun k => .putOption k.name (hvalues k)
    have hextra : Fields Json.DistinctKeys (s.extra.entries.map (·.1)) s.extra.entries :=
      ⟨.refl _, fun e he => (h.whole.ordered e.1 e.2 ((Dict.mem_entries _).1 he)).distinctKeys⟩
    show (Json.obj s.toMembers).DistinctKeys
    rw [toMembers_eq]
    refine (hkeywords.append hextra).object (List.nodup_append.2
      ⟨Keyword.nodup_names, s.extra.sorted.nodup_keys, ?_⟩)
    intro name hname other hother heq
    obtain ⟨k, -, rfl⟩ := List.mem_map.1 hname
    obtain ⟨e, he, rfl⟩ := List.mem_map.1 hother
    have hget := h.get?_extra k
    rw [heq, (Dict.mem_entries _).1 he] at hget
    cases hget

end ApiFolio.OpenApi.Schema

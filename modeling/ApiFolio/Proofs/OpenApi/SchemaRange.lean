import ApiFolio.Proofs.OpenApi.Keywords
import ApiFolio.Proofs.OpenApi.SchemaKept

/-!
# Numbers in schemas

What a schema writes is in range if the values of its fields and its other members are
(`inRange_toJson_iff`). A schema that was read writes a part of what it was read from, so it writes
no number that was not read (`inRange_toJson_of_ofJson?`).
-/

namespace ApiFolio.OpenApi.Schema

open Json (InRange InRangeItems InRangeMembers inRangeItems_iff inRangeMembers_iff)

/-! ## Schemas that were read -/

theorem prunedValue?_obj {k : Option Keyword} {ms : List (String × Json)} {w : Json}
    (h : prunedValue? k (.obj ms) = some w) :
    w = .obj ms ∨ w = .obj (prunedMembers ms) ∨ w = .obj (prunedProperties ms) := by
  rcases k with - | k
  · cases h
    exact .inl rfl
  cases k
  case properties =>
    have h : (if ms.isEmpty then none else some (Json.obj (prunedProperties ms))) = some w := h
    split at h <;> cases h
    exact .inr (.inr rfl)
  case items | excluded =>
    cases h
    exact .inr (.inl rfl)
  all_goals
    cases h
    exact .inl rfl

theorem prunedValue?_arr {k : Option Keyword} {vs : List Json} {w : Json}
    (h : prunedValue? k (.arr vs) = some w) : w = .arr vs ∨ w = .arr (prunedItems vs) := by
  rcases k with - | k
  · cases h
    exact .inl rfl
  cases k
  case allOf | anyOf | oneOf =>
    cases h
    exact .inr rfl
  all_goals
    cases h
    exact .inl rfl

theorem prunedValue?_scalar {k : Option Keyword} {v w : Json} (hobj : v.members? = none)
    (harr : v.items? = none) (h : prunedValue? k v = some w) : w = v := by
  rcases k with - | k
  · rw [prunedValue?_none] at h
    exact (Option.some.inj h).symm
  cases v with
  | obj members => cases hobj
  | arr items => cases harr
  | null => cases k <;> cases h
  | bool b | num n | str s => cases k <;> cases h <;> rfl

mutual

theorem inRange_pruned : {v : Json} → v.InRange → (pruned v).InRange
  | .obj _, h => inRangeMembers_prunedMembers h
  | .arr _, h => h
  | .num _, h => h
  | .null, _ | .bool _, _ | .str _, _ => trivial

theorem inRangeMembers_prunedMembers :
    {ms : List (String × Json)} → InRangeMembers ms → InRangeMembers (prunedMembers ms)
  | [], _ => trivial
  | (name, v) :: _, h => by
    have hrest := inRangeMembers_prunedMembers h.2
    rw [prunedMembers]
    split
    · rename_i w hw
      exact ⟨inRange_of_prunedValue? h.1 hw, hrest⟩
    · exact hrest

theorem inRange_of_prunedValue? : {v : Json} → v.InRange → ∀ {k : Option Keyword} {w : Json},
    prunedValue? k v = some w → w.InRange
  | .obj _, h, _, _, hw => by
    obtain rfl | rfl | rfl := prunedValue?_obj hw
    · exact h
    · exact inRangeMembers_prunedMembers h
    · exact inRangeMembers_prunedProperties h
  | .arr _, h, _, _, hw => by
    obtain rfl | rfl := prunedValue?_arr hw
    · exact h
    · exact inRangeItems_prunedItems h
  | .num _, h, _, _, hw | .null, h, _, _, hw | .bool _, h, _, _, hw | .str _, h, _, _, hw => by
    rw [prunedValue?_scalar rfl rfl hw]
    exact h

theorem inRangeMembers_prunedProperties :
    {ms : List (String × Json)} → InRangeMembers ms → InRangeMembers (prunedProperties ms)
  | [], _ => trivial
  | _ :: _, h => ⟨inRange_pruned h.1, inRangeMembers_prunedProperties h.2⟩

theorem inRangeItems_prunedItems :
    {vs : List Json} → InRangeItems vs → InRangeItems (prunedItems vs)
  | [], _ => trivial
  | _ :: _, h => ⟨inRange_pruned h.1, inRangeItems_prunedItems h.2⟩

end

/-- A schema that was read writes numbers that were read only. -/
theorem inRange_toJson_of_ofJson? {v : Json} (hv : v.Given) {s : Schema}
    (h : ofJson? v = some s) : s.toJson.InRange := by
  refine Json.inRange_of_canonical (rereads_of_ofJson? hv.ordered h).distinctKeys ?_
  rw [canonical_toJson hv.ordered h]
  exact inRange_pruned hv.inRange

/-! ## Schemas that are put together -/

/-- What a schema writes is in range if what it writes of its fields and its other members are. -/
theorem inRange_toJson_iff {s : Schema} :
    s.toJson.InRange ↔ (∀ k, ∀ v ∈ writeField k (s.field k), v.InRange) ∧
      ∀ e ∈ s.extra.entries, e.2.InRange := by
  show InRangeMembers s.toMembers ↔ _
  rw [inRangeMembers_iff, toMembers_eq, List.forall_mem_append]
  refine and_congr_left fun _ => ⟨fun h k v hv => ?_, fun h m hm => ?_⟩
  · refine h (k.name, v) (List.mem_flatMap.2 ⟨k, k.mem_all, ?_⟩)
    rw [Option.mem_def.1 hv]
    exact List.mem_singleton_self _
  · obtain ⟨k, -, hm⟩ := List.mem_flatMap.1 hm
    cases hv : writeField k (s.field k) with
    | none =>
      rw [hv] at hm
      cases hm
    | some v =>
      rw [hv] at hm
      cases List.mem_singleton.1 hm
      exact h k v hv

/-- A schema that is read again and writes numbers in range only. -/
structure Given (s : Schema) : Prop where
  whole : s.Whole
  inRange : s.toJson.InRange

theorem given_of_ofJson? (v : Json) (s : Schema) (hv : v.Given) (h : ofJson? v = some s) :
    s.Given :=
  ⟨whole_of_ofJson? hv.ordered h, inRange_toJson_of_ofJson? hv h⟩

theorem Whole.given {s : Schema} (h : s.Whole)
    (hfields : ∀ k, ∀ v ∈ writeField k (s.field k), v.InRange)
    (hextra : ∀ e ∈ s.extra.entries, e.2.InRange) : s.Given :=
  ⟨h, inRange_toJson_iff.2 ⟨hfields, hextra⟩⟩

theorem Given.setField {s : Schema} (h : s.Given) {k : Keyword} {x : Slot k} (hx : WholeField k x)
    (hrange : ∀ v ∈ writeField k x, v.InRange) : (s.setField k x).Given := by
  obtain ⟨hfields, hextra⟩ := inRange_toJson_iff.1 h.inRange
  refine (h.whole.setField hx).given (fun l => ?_) ?_
  · by_cases hkl : k = l
    · subst hkl
      rwa [field_setField_self]
    · rw [field_setField_of_ne s x hkl]
      exact hfields l
  · rwa [extra_setField]

theorem Given.setProperties {s : Schema} (h : s.Given) {properties : List (String × Schema)}
    (hsorted : Entries.Sorted properties) (hgiven : ∀ e ∈ properties, e.2.Given) :
    (s.setField .properties properties).Given := by
  refine h.setField ⟨hsorted, fun e he => (hgiven e he).whole.rereads⟩ fun v hv => ?_
  have hv : (if properties.isEmpty then none
    else some (Json.obj (toPropertyMembers properties))) = some v := hv
  split at hv
  · cases hv
  · cases hv
    exact composed_toPropertyMembers hsorted fun e he => (hgiven e he).inRange

theorem given_empty : ({} : Schema).Given := by
  refine whole_empty.given (fun k v hv => ?_) fun e he => by cases he
  cases k <;> cases hv

theorem given_pointingTo (pointer : String) : (pointingTo pointer).Given := by
  have hrange : ∀ v ∈ writeField .ref (some pointer), v.InRange := by
    rintro v ⟨⟩
    trivial
  exact @Given.setField _ given_empty .ref (some pointer) trivial hrange

end ApiFolio.OpenApi.Schema

import ApiFolio.Proofs.OpenApi.SchemaFields
import ApiFolio.Proofs.Record.Read

/-!
# Schemas are read again as they are

A schema that was read from an ordered value is read again from what it writes
(`rereads_of_ofJson?`). Schemas that are put together from parts are read again under conditions on
the parts (`Whole`, `Whole.rereads`).
-/

namespace ApiFolio.OpenApi.Schema

open Record (Solid)

/-- The schema is read again from what it writes. -/
def Rereads (s : Schema) : Prop := ofJson? s.toJson.canonical = some s

/-- What the field of a keyword holds is read again from what it writes. -/
def WholeField : (k : Keyword) → Slot k → Prop
  | .ref | .format | .title | .description => fun _ => True
  | .nullable | .deprecated | .readOnly | .writeOnly => fun _ => True
  | .type | .default | .sample | .required => fun (x : Option Json) => ∀ v ∈ x, Solid v
  | .choices => fun (x : Option (List Json)) => ∀ vs ∈ x, ∀ v ∈ vs, v.Ordered
  | .properties => fun (x : List (String × Schema)) => Entries.Sorted x ∧ ∀ e ∈ x, e.2.Rereads
  | .additional => fun (x : Option (Json × Option Schema)) =>
    ∀ e ∈ x, Solid e.1 ∧ e.2 = ofJson? e.1
  | .items | .excluded => fun (x : Option Schema) => ∀ s ∈ x, s.Rereads
  | .allOf | .anyOf | .oneOf => fun (x : Option (List Schema)) =>
    ∀ schemas ∈ x, ∀ s ∈ schemas, s.Rereads

/-- Every part of a schema is read again, and its other members have no keyword. -/
structure Whole (s : Schema) : Prop where
  fields : ∀ k, WholeField k (s.field k)
  unnamed : ∀ name v, s.extra.get? name = some v → Keyword.ofName? name = none
  ordered : ∀ name v, s.extra.get? name = some v → v.Ordered

theorem ofItems?_eq (vs : List Json) : ofItems? vs = vs.mapM ofJson? := by
  induction vs with
  | nil => rfl
  | cons v rest ih =>
    rw [ofItems?, ih, List.mapM_cons]

theorem ofItems?_reread {schemas : List Schema} (h : ∀ s ∈ schemas, s.Rereads) :
    ofItems? (Json.canonicalItems (toItems schemas)) = some schemas := by
  rw [ofItems?_eq, Json.canonicalItems_eq, toItems_eq, Record.mapM_reread id h, List.map_id]

theorem insert_of_lt {α : Type} {name : String} {x : α} {entries : List (String × α)}
    (h : ∀ e ∈ entries, name < e.1) : Entries.insert name x entries = (name, x) :: entries := by
  cases entries with
  | nil => rfl
  | cons e rest =>
    obtain ⟨k, y⟩ := e
    rw [Entries.insert, if_pos (h (k, y) List.mem_cons_self)]

theorem ofProperties?_reread {properties : List (String × Schema)}
    (hs : Entries.Sorted properties) (h : ∀ e ∈ properties, e.2.Rereads) :
    ofProperties? (Entries.mapValues (fun s => s.toJson.canonical) properties) =
      some properties := by
  induction properties with
  | nil => rfl
  | cons e rest ih =>
    obtain ⟨name, s⟩ := e
    have hrest := List.pairwise_cons.1 hs
    have hread : ofJson? s.toJson.canonical = some s := h (name, s) List.mem_cons_self
    show ofProperties? ((name, s.toJson.canonical) ::
      Entries.mapValues (fun s => s.toJson.canonical) rest) = _
    rw [ofProperties?, hread, ih hrest.2 fun e he => h e (List.mem_cons_of_mem _ he)]
    exact congrArg some (insert_of_lt hrest.1)

theorem present_canonical {v : Json} (h : Solid v) : present v.canonical = some v := by
  rw [Json.canonical_of_ordered h.1]
  cases v with
  | null => exact absurd rfl h.2
  | _ => rfl

theorem presentAs?_of_read {α : Type} {read : Json → Option α} {v : Json} {x : α}
    (hnull : read .null = none) (h : read v = some x) : presentAs? read v = some (some x) := by
  cases v with
  | null => rw [hnull] at h; cases h
  | _ => exact congrArg (Option.map some) h

/-- A whole field is read again from the member that it writes. -/
theorem readFieldAt_writeField {k : Keyword} {x : Slot k} (h : WholeField k x) :
    readFieldAt k ((writeField k x).map Json.canonical) = some x := by
  cases k
  case ref | format | title | description => cases x <;> rfl
  case nullable | deprecated | readOnly | writeOnly => cases x <;> rfl
  case type | default | sample | required =>
    cases x with
    | none => rfl
    | some v => exact congrArg some (present_canonical (h v rfl))
  case choices =>
    cases x with
    | none => rfl
    | some vs =>
      show some (some (Json.canonicalItems vs)) = _
      rw [Json.canonicalItems_of_ordered (Json.orderedItems_iff.2 (h vs rfl))]
      rfl
  case properties =>
    cases x with
    | nil => rfl
    | cons e rest =>
      show ofProperties? (Entries.sort (Json.canonicalMembers
        (toPropertyMembers (e :: rest)))) = some (e :: rest)
      rw [toPropertyMembers_eq, Json.canonicalMembers_eq, Entries.sort_of_sorted
        (Entries.sorted_mapValues _ (Entries.sorted_mapValues _ h.1))]
      have hmap : Entries.mapValues Json.canonical (Entries.mapValues toJson (e :: rest)) =
          Entries.mapValues (fun s => s.toJson.canonical) (e :: rest) := List.map_map
      rw [hmap]
      exact ofProperties?_reread h.1 h.2
  case additional =>
    cases x with
    | none => rfl
    | some e =>
      obtain ⟨hsolid, hread⟩ := h e rfl
      show some ((present e.1.canonical).map fun w => (w, ofJson? w)) = _
      rw [present_canonical hsolid, Option.map_some, ← hread]
      rfl
  case items | excluded =>
    cases x with
    | none => rfl
    | some s => exact presentAs?_of_read rfl (h s rfl)
  case allOf | anyOf | oneOf =>
    cases x with
    | none => rfl
    | some schemas =>
      have hread : readSchemas? (.arr (Json.canonicalItems (toItems schemas))) = some schemas :=
        ofItems?_reread (h schemas rfl)
      exact presentAs?_of_read rfl hread

/-- A schema whose parts are read again is read again itself. -/
theorem Whole.rereads {s : Schema} (h : s.Whole) : s.Rereads := by
  show ofMembers? (Record.written s.toMembers) = some s
  refine (ofMembers?_eq_some_iff (Record.sorted_written _)).2 ⟨fun k => ?_, fun name => ?_⟩
  · have hnone : s.extra.get? k.name = none := by
      rw [Option.eq_none_iff_forall_not_mem]
      intro v hv
      have := h.unnamed k.name v hv
      rw [Keyword.ofName?_name] at this
      cases this
    rw [Record.get?_written, last?_toMembers, hnone, Option.none_or, Keyword.ofName?_name]
    exact readFieldAt_writeField (h.fields k)
  · rw [Record.get?_written, last?_toMembers]
    cases hname : Keyword.ofName? name with
    | none =>
      have hvalue : (s.extra.get? name).map Json.canonical = s.extra.get? name :=
        Record.map_canonical_of_ordered fun v hv => h.ordered name v hv
      rw [Option.bind_none, Option.or_none, hvalue]
      rfl
    | some k =>
      show s.extra.get? name = none
      rw [Option.eq_none_iff_forall_not_mem]
      intro v hv
      rw [h.unnamed name v hv] at hname
      cases hname

/-- A whole schema stays whole with another whole field. -/
theorem Whole.setField {s : Schema} (h : s.Whole) {k : Keyword} {x : Slot k}
    (hx : WholeField k x) : (s.setField k x).Whole := by
  refine ⟨fun l => ?_, ?_, ?_⟩
  · by_cases hkl : k = l
    · subst hkl
      rw [field_setField_self]
      exact hx
    · rw [field_setField_of_ne _ _ hkl]
      exact h.fields l
  · rw [extra_setField]
    exact h.unnamed
  · rw [extra_setField]
    exact h.ordered

/-- The schema that says nothing is whole. -/
theorem whole_empty : ({} : Schema).Whole := by
  refine ⟨fun k => ?_, fun name v hv => ?_, fun name v hv => ?_⟩
  · cases k <;> simp [WholeField, field, Entries.Sorted]
  · cases hv
  · cases hv

/-! ## Schemas that were read -/

theorem sizeOf_lt_of_get? {members : List (String × Json)} {name : String} {v : Json}
    (h : Entries.get? name members = some v) : sizeOf v < sizeOf (Json.obj members) := by
  have hmem := List.sizeOf_lt_of_mem (Entries.mem_of_get? h)
  simp only [Prod.mk.sizeOf_spec] at hmem
  simp only [Json.obj.sizeOf_spec]
  omega

theorem solid_of_present {v w : Json} (ho : v.Ordered) (h : present v = some w) : Solid w := by
  cases v <;> cases h <;> exact ⟨ho, by simp⟩

theorem of_presentAs? {α : Type} {read : Json → Option α} {v : Json} {x : Option α}
    (h : presentAs? read v = some x) : ∀ y ∈ x, read v = some y := by
  intro y hy
  cases hy
  cases v with
  | null => cases h
  | _ =>
    obtain ⟨z, hz, heq⟩ := Option.map_eq_some_iff.1 h
    cases heq
    exact hz

theorem sorted_of_ofProperties? {members : List (String × Json)}
    {properties : List (String × Schema)} (h : ofProperties? members = some properties) :
    Entries.Sorted properties := by
  induction members generalizing properties with
  | nil =>
    cases h
    exact List.Pairwise.nil
  | cons m rest ih =>
    obtain ⟨name, v⟩ := m
    rw [ofProperties?] at h
    obtain ⟨s, -, h⟩ := Option.bind_eq_some_iff.1 h
    obtain ⟨others, hothers, h⟩ := Option.bind_eq_some_iff.1 h
    cases h
    exact Entries.sorted_insert name s (ih hothers)

theorem exists_of_mem_ofProperties? {members : List (String × Json)}
    {properties : List (String × Schema)} (h : ofProperties? members = some properties)
    {e : String × Schema} (he : e ∈ properties) :
    ∃ v, (e.1, v) ∈ members ∧ ofJson? v = some e.2 := by
  induction members generalizing properties with
  | nil =>
    cases h
    cases he
  | cons m rest ih =>
    obtain ⟨name, v⟩ := m
    rw [ofProperties?] at h
    obtain ⟨s, hs, h⟩ := Option.bind_eq_some_iff.1 h
    obtain ⟨others, hothers, h⟩ := Option.bind_eq_some_iff.1 h
    cases h
    rcases Entries.mem_insert he with rfl | he
    · exact ⟨v, List.mem_cons_self, hs⟩
    · obtain ⟨w, hw, hread⟩ := ih hothers he
      exact ⟨w, List.mem_cons_of_mem _ hw, hread⟩

/-- A field that was read is whole, if the schemas in the value it was read from are read again. -/
theorem wholeField_of_readField {v : Json} (ho : v.Ordered)
    (ih : ∀ w, sizeOf w ≤ sizeOf v → w.Ordered → ∀ s, ofJson? w = some s → s.Rereads)
    {k : Keyword} {x : Slot k} (h : readField k v = some x) : WholeField k x := by
  cases k
  case ref | format | title | description => trivial
  case nullable | deprecated | readOnly | writeOnly => trivial
  case type | default | sample | required =>
    cases h
    exact fun w hw => solid_of_present ho hw
  case choices =>
    intro vs hvs w hw
    have hitems := of_presentAs? h vs hvs
    cases v with
    | arr items =>
      cases hitems
      exact Json.orderedItems_iff.1 ho w hw
    | _ => cases hitems
  case properties =>
    cases v with
    | obj members =>
      refine ⟨sorted_of_ofProperties? h, fun e he => ?_⟩
      obtain ⟨w, hw, hread⟩ := exists_of_mem_ofProperties? h he
      have hlt := List.sizeOf_lt_of_mem hw
      refine ih w ?_ (Json.orderedMembers_iff.1 ho.2 _ hw) e.2 hread
      simp only [Prod.mk.sizeOf_spec] at hlt
      simp only [Json.obj.sizeOf_spec]
      omega
    | _ => cases h
  case additional =>
    cases h
    intro e he
    obtain ⟨w, hw, rfl⟩ := Option.map_eq_some_iff.1 he
    exact ⟨solid_of_present ho hw, rfl⟩
  case items | excluded =>
    exact fun s hs => ih v (Nat.le_refl _) ho s (of_presentAs? h s hs)
  case allOf | anyOf | oneOf =>
    intro schemas hschemas s hs
    have hread := of_presentAs? h schemas hschemas
    cases v with
    | arr items =>
      obtain ⟨w, hw, hread⟩ := Record.exists_of_mem_mapM ((ofItems?_eq items).symm.trans hread) hs
      have hlt := List.sizeOf_lt_of_mem hw
      refine ih w ?_ (Json.orderedItems_iff.1 ho w hw) s hread
      simp only [Json.arr.sizeOf_spec]
      omega
    | _ => cases hread

/-- A schema that was read from an ordered value is whole. -/
theorem whole_of_ofJson? {v : Json} (ho : v.Ordered) {s : Schema} (h : ofJson? v = some s) :
    s.Whole := by
  induction hn : sizeOf v using Nat.strongRecOn generalizing v s with
  | ind n ih =>
    cases v with
    | obj members =>
      refine ⟨fun k => ?_, fun name w hw => ?_, fun name w hw => ?_⟩
      · have hk := readFieldAt_of_ofMembers? ho.1 h k
        cases hget : Entries.get? k.name members with
        | none =>
          rw [hget] at hk
          rw [← Option.some.inj hk]
          exact whole_empty.fields k
        | some w =>
          rw [hget] at hk
          have hlt := sizeOf_lt_of_get? hget
          have hw : w.Ordered := Json.orderedMembers_iff.1 ho.2 _ (Entries.mem_of_get? hget)
          exact wholeField_of_readField hw (fun u hu hou t ht =>
            (ih (sizeOf u) (by omega) hou ht rfl).rereads) hk
      · rw [extra_of_ofMembers? h] at hw
        split at hw
        · cases hw
        · rename_i hnone
          simpa using hnone
      · rw [extra_of_ofMembers? h] at hw
        split at hw
        · cases hw
        · exact Json.orderedMembers_iff.1 ho.2 _ (Entries.mem_of_get? hw)
    | _ => cases h

/-- A schema that was read from an ordered value is read again from what it writes. -/
theorem rereads_of_ofJson? {v : Json} (ho : v.Ordered) {s : Schema} (h : ofJson? v = some s) :
    s.Rereads :=
  (whole_of_ofJson? ho h).rereads

end ApiFolio.OpenApi.Schema

import ApiFolio.Proofs.OpenApi.SchemaReread

/-!
# Schemas are kept as they are written

What a schema writes is the value it was read from without the members that count as absent
(`canonical_toJson`): keywords with a null and an empty object of properties, in the schema and in
the schemas inside it. All other members stay as they are, those without a keyword among them.
-/

namespace ApiFolio.OpenApi.Schema

/-! ## Without the members that count as absent -/

mutual

/-- The value of a schema without the members that count as absent. -/
def pruned : Json → Json
  | .obj members => .obj (prunedMembers members)
  | v => v

/-- The members of a schema that do not count as absent. -/
def prunedMembers : List (String × Json) → List (String × Json)
  | [] => []
  | (name, v) :: rest =>
    match prunedValue? (Keyword.ofName? name) v with
    | some w => (name, w) :: prunedMembers rest
    | none => prunedMembers rest

/-- What stays of the value of a member: nothing of a keyword with a null or of an empty object of
properties, all of a member without a keyword. Schemas under a keyword are pruned themselves. -/
def prunedValue? : Option Keyword → Json → Option Json
  | none, v => some v
  | some _, .null => none
  | some .properties, .obj members =>
    if members.isEmpty then none else some (.obj (prunedProperties members))
  | some .items, .obj members => some (.obj (prunedMembers members))
  | some .excluded, .obj members => some (.obj (prunedMembers members))
  | some .allOf, .arr vs => some (.arr (prunedItems vs))
  | some .anyOf, .arr vs => some (.arr (prunedItems vs))
  | some .oneOf, .arr vs => some (.arr (prunedItems vs))
  | some _, v => some v

def prunedProperties : List (String × Json) → List (String × Json)
  | [] => []
  | (name, v) :: rest => (name, pruned v) :: prunedProperties rest

def prunedItems : List Json → List Json
  | [] => []
  | v :: rest => pruned v :: prunedItems rest

end

theorem prunedValue?_none (v : Json) : prunedValue? none v = some v := by
  cases v <;> rfl

theorem prunedProperties_eq (members : List (String × Json)) :
    prunedProperties members = Entries.mapValues pruned members := by
  induction members with
  | nil => rfl
  | cons m rest ih =>
    obtain ⟨name, v⟩ := m
    rw [prunedProperties, ih]
    rfl

theorem prunedMembers_eq (members : List (String × Json)) :
    prunedMembers members =
      Entries.filterMapValues (fun name v => prunedValue? (Keyword.ofName? name) v) members := by
  induction members with
  | nil => rfl
  | cons m rest ih =>
    obtain ⟨name, v⟩ := m
    rw [prunedMembers, Entries.filterMapValues, ih]
    cases prunedValue? (Keyword.ofName? name) v <;> rfl

/-! ## Writing what was read -/

/-- What was read of an ordered value writes the value pruned. -/
def WritesPruned (v : Json) : Prop :=
  ∀ w, sizeOf w ≤ sizeOf v → w.Ordered → ∀ s, ofJson? w = some s → s.toJson.canonical = pruned w

theorem toItems_of_ofItems? {vs : List Json} {schemas : List Schema}
    (hread : ∀ v ∈ vs, ∀ s, ofJson? v = some s → s.toJson.canonical = pruned v)
    (h : ofItems? vs = some schemas) :
    Json.canonicalItems (toItems schemas) = prunedItems vs := by
  induction vs generalizing schemas with
  | nil =>
    cases h
    rfl
  | cons v rest ih =>
    rw [ofItems?] at h
    obtain ⟨s, hs, h⟩ := Option.bind_eq_some_iff.1 h
    obtain ⟨others, hothers, h⟩ := Option.bind_eq_some_iff.1 h
    cases h
    have hrest := ih (fun w hw => hread w (List.mem_cons_of_mem _ hw)) hothers
    have hv : (Json.obj s.toMembers).canonical = pruned v := hread v List.mem_cons_self s hs
    rw [toItems, Json.canonicalItems, prunedItems, hv, hrest]

theorem toPropertyMembers_of_ofProperties? {members : List (String × Json)}
    {properties : List (String × Schema)} (hs : Entries.Sorted members)
    (hread : ∀ m ∈ members, ∀ s, ofJson? m.2 = some s → s.toJson.canonical = pruned m.2)
    (h : ofProperties? members = some properties) :
    Json.canonicalMembers (toPropertyMembers properties) = prunedProperties members := by
  induction members generalizing properties with
  | nil =>
    cases h
    rfl
  | cons m rest ih =>
    obtain ⟨name, v⟩ := m
    have hrest := List.pairwise_cons.1 hs
    rw [ofProperties?] at h
    obtain ⟨s, hsome, h⟩ := Option.bind_eq_some_iff.1 h
    obtain ⟨others, hothers, h⟩ := Option.bind_eq_some_iff.1 h
    cases h
    have hlt : ∀ e ∈ others, name < e.1 := fun e he => by
      obtain ⟨w, hw, -⟩ := exists_of_mem_ofProperties? hothers he
      exact hrest.1 _ hw
    have hv : (Json.obj s.toMembers).canonical = pruned v :=
      hread (name, v) List.mem_cons_self s hsome
    rw [insert_of_lt hlt, toPropertyMembers, Json.canonicalMembers, prunedProperties, hv,
      ih hrest.2 (fun w hw => hread w (List.mem_cons_of_mem _ hw)) hothers]

/-- The field of a keyword writes what stays of the value it was read from. -/
theorem writeField_of_readField {v : Json} (ho : v.Ordered) (ih : WritesPruned v) {k : Keyword}
    {x : Slot k} (h : readField k v = some x) :
    (writeField k x).map Json.canonical = prunedValue? (some k) v := by
  cases k
  case ref | format | title | description =>
    cases v <;> cases h <;> rfl
  case nullable | deprecated | readOnly | writeOnly =>
    cases v <;> cases h <;> rfl
  case type | default | sample | required =>
    cases h
    cases v with
    | null => rfl
    | _ => exact congrArg some (Json.canonical_of_ordered ho)
  case choices =>
    cases v with
    | null =>
      cases h
      rfl
    | arr vs =>
      cases h
      exact congrArg some (Json.canonical_of_ordered ho)
    | _ => cases h
  case properties =>
    cases v with
    | obj members =>
      have hread : ∀ m ∈ members, ∀ s, ofJson? m.2 = some s → s.toJson.canonical = pruned m.2 := by
        intro m hm
        have hlt := List.sizeOf_lt_of_mem hm
        obtain ⟨name, w⟩ := m
        simp only [Prod.mk.sizeOf_spec] at hlt
        refine ih w ?_ (Json.orderedMembers_iff.1 ho.2 _ hm)
        simp only [Json.obj.sizeOf_spec]
        omega
      have hwritten := toPropertyMembers_of_ofProperties? ho.1 hread h
      have hsorted : Entries.Sorted (prunedProperties members) := by
        rw [prunedProperties_eq]
        exact Entries.sorted_mapValues pruned ho.1
      cases members with
      | nil =>
        cases h
        rfl
      | cons m rest =>
        cases x with
        | nil => cases hwritten
        | cons e others =>
          show some (Json.obj (Entries.sort _)) = some (Json.obj (prunedProperties (m :: rest)))
          rw [hwritten, Entries.sort_of_sorted hsorted]
    | _ => cases h
  case additional =>
    cases h
    cases v with
    | null => rfl
    | _ => exact congrArg some (Json.canonical_of_ordered ho)
  case items | excluded =>
    cases v with
    | null =>
      cases h
      rfl
    | obj members =>
      obtain ⟨s, hs, rfl⟩ := Option.map_eq_some_iff.1 h
      exact congrArg some (ih _ (Nat.le_refl _) ho s hs)
    | _ => cases h
  case allOf | anyOf | oneOf =>
    cases v with
    | null =>
      cases h
      rfl
    | arr vs =>
      obtain ⟨schemas, hschemas, rfl⟩ := Option.map_eq_some_iff.1 h
      have hread : ∀ w ∈ vs, ∀ s, ofJson? w = some s → s.toJson.canonical = pruned w := by
        intro w hw
        have hlt := List.sizeOf_lt_of_mem hw
        refine ih w ?_ (Json.orderedItems_iff.1 ho w hw)
        simp only [Json.arr.sizeOf_spec]
        omega
      exact congrArg (fun items => some (Json.arr items)) (toItems_of_ofItems? hread hschemas)
    | _ => cases h

/-- What a schema writes under a name is what stays of the member it was read from. -/
theorem get?_written_toMembers {members : List (String × Json)} (ho : (Json.obj members).Ordered)
    (ih : ∀ m ∈ members, WritesPruned m.2) {s : Schema} (h : ofMembers? members = some s)
    (name : String) :
    Entries.get? name (Record.written s.toMembers) =
      (Entries.get? name members).bind (prunedValue? (Keyword.ofName? name)) := by
  have hordered : ∀ v, Entries.get? name members = some v → v.Ordered := fun v hv =>
    Json.orderedMembers_iff.1 ho.2 _ (Entries.mem_of_get? hv)
  rw [Record.get?_written, last?_toMembers, extra_of_ofMembers? h]
  cases hname : Keyword.ofName? name with
  | none =>
    rw [Option.bind_none, Option.or_none]
    show Option.map _ (Entries.get? name members) = _
    rw [Record.map_canonical_of_ordered fun v hv => hordered v hv]
    cases Entries.get? name members with
    | none => rfl
    | some v => exact (prunedValue?_none v).symm
  | some k =>
    cases Keyword.name_of_ofName? hname
    have hfield := readFieldAt_of_ofMembers? ho.1 h k
    show Option.map _ (writeField k (s.field k)) = _
    cases hget : Entries.get? k.name members with
    | none =>
      rw [hget] at hfield
      rw [← Option.some.inj hfield]
      cases k <;> rfl
    | some v =>
      rw [hget] at hfield
      exact writeField_of_readField (hordered v hget) (ih _ (Entries.mem_of_get? hget)) hfield

/-- A schema that was read of an ordered value writes the value without the members that count as
absent. -/
theorem canonical_toJson {v : Json} (ho : v.Ordered) {s : Schema} (h : ofJson? v = some s) :
    s.toJson.canonical = pruned v := by
  induction hn : sizeOf v using Nat.strongRecOn generalizing v s with
  | ind n ih =>
    cases v with
    | obj members =>
      have hinner : ∀ m ∈ members, WritesPruned m.2 := by
        intro m hm w hle how t ht
        have hlt := List.sizeOf_lt_of_mem hm
        obtain ⟨name, u⟩ := m
        simp only [Prod.mk.sizeOf_spec] at hlt
        simp only [Json.obj.sizeOf_spec] at hn
        exact ih (sizeOf w) (by simp only at hle; omega) how ht rfl
      have hmembers : Record.written s.toMembers = prunedMembers members := by
        rw [prunedMembers_eq]
        refine Entries.eq_of_get? (Record.sorted_written _)
          (Entries.sorted_filterMapValues _ ho.1) fun name => ?_
        rw [get?_written_toMembers ho hinner h, Entries.get?_filterMapValues _ ho.1]
      exact congrArg Json.obj hmembers
    | _ => cases h

end ApiFolio.OpenApi.Schema

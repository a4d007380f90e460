import Mathlib.Data.List.Forall2
import Mathlib.Data.List.Nodup
import ApiFolio.Proofs.Json.Positions
import ApiFolio.Proofs.OpenApi.SchemaReread
import ApiFolio.Proofs.OpenApi.Subschemas

/-!
# Walking over the value of a schema

The schemas in the raw value of a schema are found without reading it: each stands under one of
seven keywords, and a walk visits the value and then what stands below it (`visited`). The values
that it finds directly in a value are read as the children of the schema (`forall₂_held`), so the
pointers of a schema are those that the walk finds, in its order (`pointers_of_ofJson?`). The walk
comes to no place twice (`nodup_visited`) and passes no other keyword (`Way`).
-/

namespace ApiFolio.OpenApi.Schema

open Json (Step)

/-! ## The walk -/

/-- The value of a member, unless it is null, with the way to it. -/
def heldAlone (v : Json) (name : String) : List (List Step × Json) :=
  ((v.get? name).bind present).toList.map fun w => ([.member name], w)

/-- The values in the object of a member, in its order, with the way to each. -/
def heldMembers (v : Json) (name : String) : List (List Step × Json) :=
  (((v.get? name).bind Json.members?).getD []).map fun m => ([.member name, .member m.1], m.2)

/-- The values in the array of a member, in its order, with the way to each. -/
def heldItems (v : Json) (name : String) : List (List Step × Json) :=
  (((v.get? name).bind Json.items?).getD []).zipIdx.map fun e => ([.member name, .item e.2], e.1)

/-- The values of the schemas that stand directly in the value of a schema, with the way to each:
the items, the properties, the parts of the combinations, the exclusion, and the additional
properties if they read as a schema. -/
def held (v : Json) : List (List Step × Json) :=
  heldAlone v "items" ++ heldMembers v "properties" ++ heldItems v "allOf" ++ heldItems v "anyOf"
    ++ heldItems v "oneOf" ++ heldAlone v "not"
    ++ (heldAlone v "additionalProperties").filter fun c => (ofJson? c.2).isSome

theorem sizeOf_lt_of_json_get? {v w : Json} {name : String} (h : v.get? name = some w) :
    sizeOf w < sizeOf v := by
  cases v with
  | obj members => exact sizeOf_lt_of_get? h
  | _ => cases h

theorem sizeOf_lt_of_mem_heldAlone {v : Json} {name : String} {c : List Step × Json}
    (h : c ∈ heldAlone v name) : sizeOf c.2 < sizeOf v := by
  obtain ⟨w, hw, rfl⟩ := List.mem_map.1 h
  obtain ⟨u, hu, hpresent⟩ := Option.bind_eq_some_iff.1 (Option.mem_toList.1 hw)
  have hlt := sizeOf_lt_of_json_get? hu
  cases u <;> cases hpresent <;> exact hlt

theorem exists_of_mem_heldMembers {v : Json} {name : String} {c : List Step × Json}
    (h : c ∈ heldMembers v name) :
    ∃ members m, v.get? name = some (.obj members) ∧ m ∈ members ∧
      c = ([.member name, .member m.1], m.2) := by
  obtain ⟨m, hm, rfl⟩ := List.mem_map.1 h
  cases hget : v.get? name with
  | none => simp [hget] at hm
  | some w =>
    cases w with
    | obj members => exact ⟨members, m, rfl, by simpa [hget, Json.members?] using hm, rfl⟩
    | _ => simp [hget, Json.members?] at hm

theorem exists_of_mem_heldItems {v : Json} {name : String} {c : List Step × Json}
    (h : c ∈ heldItems v name) :
    ∃ items i, v.get? name = some (.arr items) ∧ items[i]? = some c.2 ∧
      c.1 = [.member name, .item i] := by
  obtain ⟨e, he, rfl⟩ := List.mem_map.1 h
  cases hget : v.get? name with
  | none => simp [hget] at he
  | some w =>
    cases w with
    | arr items =>
      exact ⟨items, e.2, rfl,
        List.mem_zipIdx_iff_getElem?.1 (by simpa [hget, Json.items?] using he), rfl⟩
    | _ => simp [hget, Json.items?] at he

theorem sizeOf_lt_of_mem_held {v : Json} {c : List Step × Json} (h : c ∈ held v) :
    sizeOf c.2 < sizeOf v := by
  have hmembers {name : String} (h : c ∈ heldMembers v name) : sizeOf c.2 < sizeOf v := by
    obtain ⟨members, m, hget, hm, rfl⟩ := exists_of_mem_heldMembers h
    have hmember := List.sizeOf_lt_of_mem hm
    have hobject := sizeOf_lt_of_json_get? hget
    obtain ⟨name, w⟩ := m
    simp only [Prod.mk.sizeOf_spec] at hmember
    simp only [Json.obj.sizeOf_spec] at hobject
    show sizeOf w < sizeOf v
    omega
  have hitems {name : String} (h : c ∈ heldItems v name) : sizeOf c.2 < sizeOf v := by
    obtain ⟨items, i, hget, hi, -⟩ := exists_of_mem_heldItems h
    have hitem := List.sizeOf_lt_of_mem (List.mem_of_getElem? hi)
    have harray := sizeOf_lt_of_json_get? hget
    simp only [Json.arr.sizeOf_spec] at harray
    omega
  unfold held at h
  simp only [List.mem_append, List.mem_filter] at h
  rcases h with (((((h | h) | h) | h) | h) | h) | ⟨h, -⟩
  · exact sizeOf_lt_of_mem_heldAlone h
  · exact hmembers h
  · exact hitems h
  · exact hitems h
  · exact hitems h
  · exact sizeOf_lt_of_mem_heldAlone h
  · exact sizeOf_lt_of_mem_heldAlone h

/-- What a walk over the value of a schema visits, with the way to it: the value itself, then what
is visited in each value that it holds. -/
def visited (v : Json) : List (List Step × Json) :=
  ([], v) :: (held v).attach.flatMap fun c => (visited c.1.2).map fun p => (c.1.1 ++ p.1, p.2)
termination_by sizeOf v
decreasing_by exact sizeOf_lt_of_mem_held c.2

theorem visited_eq (v : Json) :
    visited v =
      ([], v) :: (held v).flatMap fun c => (visited c.2).map fun p => (c.1 ++ p.1, p.2) := by
  rw [visited]
  conv_rhs => rw [← List.attach_map_subtype_val (held v), List.flatMap_map]

/-- The pointer in the value of a schema. -/
def pointerIn? (v : Json) : Option String := (v.get? "$ref").bind Json.text?

/-! ## What is held is read as the children -/

section

variable {members : List (String × Json)} {s : Schema} (hs : Entries.Sorted members)
  (h : ofMembers? members = some s)

include hs h

/-- A field is read from the member of its keyword, or as in the empty schema without one. -/
theorem field_of_ofMembers? (k : Keyword) :
    (Entries.get? k.name members = none ∧ s.field k = ({} : Schema).field k) ∨
      ∃ v, Entries.get? k.name members = some v ∧ readField k v = some (s.field k) := by
  have hk := readFieldAt_of_ofMembers? hs h k
  cases hget : Entries.get? k.name members with
  | none =>
    rw [hget] at hk
    exact .inl ⟨rfl, (Option.some.inj hk).symm⟩
  | some v =>
    rw [hget] at hk
    exact .inr ⟨v, rfl, hk⟩

end

/-- The value is read as the schema. -/
def ReadsAs (c : List Step × Json) (s : Schema) : Prop := ofJson? c.2 = some s

theorem presentAs?_cases {α : Type} {read : Json → Option α} {w : Json} {x : Option α}
    (h : presentAs? read w = some x) :
    (w = .null ∧ x = none) ∨ (present w = some w ∧ ∃ y, read w = some y ∧ x = some y) := by
  cases w with
  | null =>
    cases h
    exact .inl ⟨rfl, rfl⟩
  | _ =>
    obtain ⟨y, hy, rfl⟩ := Option.map_eq_some_iff.1 h
    exact .inr ⟨rfl, y, hy, rfl⟩

theorem forall₂_heldAlone {name : String} {v : Json} {x : Option Schema}
    (h : (v.get? name = none ∧ x = none) ∨
      ∃ w, v.get? name = some w ∧ presentAs? ofJson? w = some x) :
    List.Forall₂ ReadsAs (heldAlone v name) x.toList := by
  unfold heldAlone
  rcases h with ⟨hget, rfl⟩ | ⟨w, hget, hread⟩
  · rw [hget]
    exact .nil
  · rw [hget, Option.bind_some]
    rcases presentAs?_cases hread with ⟨rfl, rfl⟩ | ⟨hw, t, ht, rfl⟩
    · exact .nil
    · rw [hw]
      exact .cons ht .nil

theorem forall₂_ofItems? {vs : List Json} {schemas : List Schema} (h : ofItems? vs = some schemas)
    (way : Nat → List Step) (start : Nat) :
    List.Forall₂ ReadsAs ((vs.zipIdx start).map fun e => (way e.2, e.1)) schemas := by
  induction vs generalizing schemas start with
  | nil =>
    cases h
    exact .nil
  | cons v rest ih =>
    rw [ofItems?] at h
    obtain ⟨s, hs, h⟩ := Option.bind_eq_some_iff.1 h
    obtain ⟨others, hothers, h⟩ := Option.bind_eq_some_iff.1 h
    cases h
    exact .cons hs (ih hothers (start + 1))

theorem forall₂_heldItems {name : String} {v : Json} {x : Option (List Schema)}
    (h : (v.get? name = none ∧ x = none) ∨
      ∃ w, v.get? name = some w ∧ presentAs? readSchemas? w = some x) :
    List.Forall₂ ReadsAs (heldItems v name) (x.getD []) := by
  unfold heldItems
  rcases h with ⟨hget, rfl⟩ | ⟨w, hget, hread⟩
  · rw [hget]
    exact .nil
  · rw [hget, Option.bind_some]
    rcases presentAs?_cases hread with ⟨rfl, rfl⟩ | ⟨-, schemas, hschemas, rfl⟩
    · exact .nil
    · cases w with
      | arr items => exact forall₂_ofItems? hschemas (fun i => [.member name, .item i]) 0
      | _ => cases hschemas

theorem forall₂_ofProperties? {members : List (String × Json)} (hs : Entries.Sorted members)
    {properties : List (String × Schema)} (h : ofProperties? members = some properties)
    (way : String → List Step) :
    List.Forall₂ ReadsAs (members.map fun m => (way m.1, m.2)) (properties.map (·.2)) := by
  induction members generalizing properties with
  | nil =>
    cases h
    exact .nil
  | cons m rest ih =>
    obtain ⟨name, v⟩ := m
    have hrest := List.pairwise_cons.1 hs
    rw [ofProperties?] at h
    obtain ⟨s, hsome, h⟩ := Option.bind_eq_some_iff.1 h
    obtain ⟨others, hothers, h⟩ := Option.bind_eq_some_iff.1 h
    cases h
    have hlt : ∀ e ∈ others, name < e.1 := fun e he => by
      obtain ⟨w, hw, -⟩ := exists_of_mem_ofProperties? hothers he
      exact hrest.1 _ hw
    rw [insert_of_lt hlt]
    exact .cons hsome (ih hrest.2 hothers)

theorem forall₂_heldMembers {name : String} {v : Json} (ho : v.Ordered)
    {x : List (String × Schema)}
    (h : (v.get? name = none ∧ x = []) ∨
      ∃ w, v.get? name = some w ∧ readProperties? w = some x) :
    List.Forall₂ ReadsAs (heldMembers v name) (x.map (·.2)) := by
  unfold heldMembers
  rcases h with ⟨hget, rfl⟩ | ⟨w, hget, hread⟩
  · rw [hget]
    exact .nil
  · have hw := ho.get? hget
    rw [hget, Option.bind_some]
    cases w with
    | obj members => exact forall₂_ofProperties? hw.1 hread fun key => [.member name, .member key]
    | _ => cases hread

theorem forall₂_heldAdditional {name : String} {v : Json} {x : Option (Json × Option Schema)}
    (h : (v.get? name = none ∧ x = none) ∨
      ∃ w, v.get? name = some w ∧ (present w).map (fun u => (u, ofJson? u)) = x) :
    List.Forall₂ ReadsAs ((heldAlone v name).filter fun c => (ofJson? c.2).isSome)
      (x.bind (·.2)).toList := by
  unfold heldAlone
  rcases h with ⟨hget, rfl⟩ | ⟨w, hget, rfl⟩
  · rw [hget]
    exact .nil
  · rw [hget, Option.bind_some]
    cases present w with
    | none => exact .nil
    | some u =>
      show List.Forall₂ ReadsAs ([([Step.member name], u)].filter fun c => (ofJson? c.2).isSome)
        (ofJson? u).toList
      cases hu : ofJson? u with
      | none =>
        rw [List.filter_cons_of_neg (by simp [hu])]
        exact .nil
      | some t =>
        rw [List.filter_cons_of_pos (by simp [hu])]
        exact .cons hu .nil

/-- The values that are held directly are read as the children, in the same order. -/
theorem forall₂_held {v : Json} (ho : v.Ordered) {s : Schema} (h : ofJson? v = some s) :
    List.Forall₂ ReadsAs (held v) s.children := by
  cases v with
  | obj members =>
    have hfield := field_of_ofMembers? ho.1 h
    have hitems : List.Forall₂ ReadsAs (heldAlone (.obj members) "items") s.items.toList :=
      forall₂_heldAlone (hfield .items)
    have hproperties : List.Forall₂ ReadsAs (heldMembers (.obj members) "properties")
        (s.properties.map (·.2)) := forall₂_heldMembers ho (hfield .properties)
    have hallOf : List.Forall₂ ReadsAs (heldItems (.obj members) "allOf") (s.allOf.getD []) :=
      forall₂_heldItems (hfield .allOf)
    have hanyOf : List.Forall₂ ReadsAs (heldItems (.obj members) "anyOf") (s.anyOf.getD []) :=
      forall₂_heldItems (hfield .anyOf)
    have honeOf : List.Forall₂ ReadsAs (heldItems (.obj members) "oneOf") (s.oneOf.getD []) :=
      forall₂_heldItems (hfield .oneOf)
    have hexcluded : List.Forall₂ ReadsAs (heldAlone (.obj members) "not") s.excluded.toList :=
      forall₂_heldAlone (hfield .excluded)
    have hadditional : List.Forall₂ ReadsAs
        ((heldAlone (.obj members) "additionalProperties").filter fun c => (ofJson? c.2).isSome)
        (s.additional.bind (·.2)).toList :=
      forall₂_heldAdditional ((hfield .additional).imp_right fun ⟨w, hget, hread⟩ =>
        ⟨w, hget, Option.some.inj hread⟩)
    exact List.rel_append (List.rel_append (List.rel_append (List.rel_append (List.rel_append
      (List.rel_append hitems hproperties) hallOf) hanyOf) honeOf) hexcluded) hadditional
  | _ => cases h

theorem ref_of_ofJson? {v : Json} (ho : v.Ordered) {s : Schema} (h : ofJson? v = some s) :
    s.ref = pointerIn? v := by
  cases v with
  | obj members =>
    rcases field_of_ofMembers? ho.1 h .ref with ⟨hget, href⟩ | ⟨w, hget, hread⟩
    · show s.ref = (Entries.get? "$ref" members).bind Json.text?
      have hget : Entries.get? "$ref" members = none := hget
      rw [hget]
      exact href
    · show s.ref = (Entries.get? "$ref" members).bind Json.text?
      have hget : Entries.get? "$ref" members = some w := hget
      rw [hget, Option.bind_some]
      rcases presentAs?_cases hread with ⟨rfl, href⟩ | ⟨-, t, ht, href⟩
      · exact href
      · rw [ht]
        exact href
  | _ => cases h

/-! ## Where the walk comes -/

/-- A way into the value of a schema that leads from schema to schema. -/
inductive Way : List Step → Prop where
  /-- To the schema itself. -/
  | here : Way []
  /-- Through a keyword that holds one schema. -/
  | alone {name : String} {rest : List Step}
      (hname : name ∈ ["items", "not", "additionalProperties"]) (h : Way rest) :
      Way (.member name :: rest)
  /-- Through a property. -/
  | property {name : String} {rest : List Step} (h : Way rest) :
      Way (.member "properties" :: .member name :: rest)
  /-- Through a part of a combination. -/
  | part {name : String} {n : Nat} {rest : List Step} (hname : name ∈ ["allOf", "anyOf", "oneOf"])
      (h : Way rest) : Way (.member name :: .item n :: rest)

theorem at?_of_mem_heldAlone {v : Json} {name : String} {c : List Step × Json}
    (h : c ∈ heldAlone v name) : c.1 = [.member name] ∧ v.at? c.1 = some c.2 := by
  obtain ⟨w, hw, rfl⟩ := List.mem_map.1 h
  obtain ⟨u, hu, hpresent⟩ := Option.bind_eq_some_iff.1 (Option.mem_toList.1 hw)
  have heq : u = w := by cases u <;> cases hpresent <;> rfl
  subst heq
  refine ⟨rfl, ?_⟩
  show (v.get? name).bind some = some u
  rw [hu, Option.bind_some]

theorem at?_of_mem_heldMembers {v : Json} (ho : v.Ordered) {name : String} {c : List Step × Json}
    (h : c ∈ heldMembers v name) :
    (∃ key, c.1 = [.member name, .member key]) ∧ v.at? c.1 = some c.2 := by
  obtain ⟨members, m, hget, hm, rfl⟩ := exists_of_mem_heldMembers h
  refine ⟨⟨m.1, rfl⟩, ?_⟩
  show (v.get? name).bind (fun w => (w.get? m.1).bind some) = some m.2
  have hmember : (Json.obj members).get? m.1 = some m.2 :=
    Entries.get?_of_mem (ho.get? hget).1 hm
  rw [hget, Option.bind_some, hmember, Option.bind_some]

theorem at?_of_mem_heldItems {v : Json} {name : String} {c : List Step × Json}
    (h : c ∈ heldItems v name) :
    (∃ i, c.1 = [.member name, .item i]) ∧ v.at? c.1 = some c.2 := by
  obtain ⟨items, i, hget, hi, hway⟩ := exists_of_mem_heldItems h
  refine ⟨⟨i, hway⟩, ?_⟩
  rw [hway]
  show (v.get? name).bind (fun w => (w.items?.bind fun vs => vs[i]?).bind some) = some c.2
  rw [hget, Option.bind_some]
  show (items[i]?).bind some = some c.2
  rw [hi, Option.bind_some]

/-- What is held directly stands at the end of its way, which goes through one of the keywords. -/
theorem at?_of_mem_held {v : Json} (ho : v.Ordered) {c : List Step × Json} (h : c ∈ held v) :
    v.at? c.1 = some c.2 ∧ ∀ rest, Way rest → Way (c.1 ++ rest) := by
  have halone {name : String} (hname : name ∈ ["items", "not", "additionalProperties"])
      (h : c ∈ heldAlone v name) : v.at? c.1 = some c.2 ∧ ∀ rest, Way rest → Way (c.1 ++ rest) := by
    obtain ⟨hway, hat⟩ := at?_of_mem_heldAlone h
    exact ⟨hat, fun rest hrest => hway ▸ .alone hname hrest⟩
  have hpart {name : String} (hname : name ∈ ["allOf", "anyOf", "oneOf"])
      (h : c ∈ heldItems v name) : v.at? c.1 = some c.2 ∧ ∀ rest, Way rest → Way (c.1 ++ rest) := by
    obtain ⟨⟨i, hway⟩, hat⟩ := at?_of_mem_heldItems h
    exact ⟨hat, fun rest hrest => hway ▸ .part hname hrest⟩
  unfold held at h
  simp only [List.mem_append, List.mem_filter] at h
  rcases h with (((((h | h) | h) | h) | h) | h) | ⟨h, -⟩
  · exact halone (by decide) h
  · obtain ⟨⟨key, hway⟩, hat⟩ := at?_of_mem_heldMembers ho h
    exact ⟨hat, fun rest hrest => hway ▸ .property hrest⟩
  · exact hpart (by decide) h
  · exact hpart (by decide) h
  · exact hpart (by decide) h
  · exact halone (by decide) h
  · exact halone (by decide) h

theorem ordered_of_at? {v w : Json} (ho : v.Ordered) {way : List Step} (h : v.at? way = some w) :
    w.Ordered := by
  induction way generalizing v with
  | nil =>
    cases h
    exact ho
  | cons s rest ih =>
    rw [Json.at?_cons] at h
    obtain ⟨u, hu, h⟩ := Option.bind_eq_some_iff.1 h
    refine ih ?_ h
    cases s with
    | item n =>
      obtain ⟨items, hitems, hn⟩ := Option.bind_eq_some_iff.1 hu
      exact ho.items? hitems u (List.mem_of_getElem? hn)
    | member name => exact ho.get? hu

theorem ordered_of_mem_held {v : Json} (ho : v.Ordered) {c : List Step × Json} (h : c ∈ held v) :
    c.2.Ordered :=
  ordered_of_at? ho (at?_of_mem_held ho h).1

/-- What holds of a value if it holds of the values that it holds directly holds of all values. -/
theorem induction_held {motive : Json → Prop}
    (step : ∀ v : Json, (∀ c ∈ held v, motive c.2) → motive v) (v : Json) : motive v :=
  step v fun c _ => induction_held step c.2
termination_by sizeOf v
decreasing_by exact sizeOf_lt_of_mem_held ‹_›

theorem at?_of_mem_visited {v : Json} (ho : v.Ordered) {p : List Step × Json}
    (h : p ∈ visited v) : v.at? p.1 = some p.2 ∧ Way p.1 := by
  induction v using induction_held generalizing p with
  | step v ih =>
    rw [visited_eq] at h
    rcases List.mem_cons.1 h with rfl | h
    · exact ⟨rfl, .here⟩
    · obtain ⟨c, hc, h⟩ := List.mem_flatMap.1 h
      obtain ⟨q, hq, rfl⟩ := List.mem_map.1 h
      obtain ⟨hat, hway⟩ := at?_of_mem_held ho hc
      obtain ⟨hqat, hqway⟩ := ih c hc (ordered_of_mem_held ho hc) hq
      refine ⟨?_, hway q.1 hqway⟩
      rw [Json.at?_append, hat, Option.bind_some, hqat]

/-! ## No place twice -/

/-- No way goes on from both. -/
def Part (c d : List Step × Json) : Prop := ∀ p q, c.1 ++ p ≠ d.1 ++ q

/-- Values in places apart from one another, in members with some of the names. -/
structure Apart (names : List String) (cs : List (List Step × Json)) : Prop where
  /-- No two ways meet. -/
  part : cs.Pairwise Part
  /-- Each way begins with one of the names. -/
  begins : ∀ c ∈ cs, ∃ name ∈ names, ∃ rest, c.1 = .member name :: rest

theorem Apart.append {names more : List String} {cs ds : List (List Step × Json)}
    (hcs : Apart names cs) (hdisjoint : ∀ name ∈ names, name ∉ more) (hds : Apart more ds) :
    Apart (names ++ more) (cs ++ ds) := by
  refine ⟨List.pairwise_append.2 ⟨hcs.part, hds.part, fun c hc d hd p q heq => ?_⟩, fun c hc => ?_⟩
  · obtain ⟨name, hname, rest, hc⟩ := hcs.begins c hc
    obtain ⟨other, hother, tail, hd⟩ := hds.begins d hd
    rw [hc, hd] at heq
    cases (List.cons.inj heq).1
    exact hdisjoint name hname hother
  · rcases List.mem_append.1 hc with hc | hc
    · obtain ⟨name, hname, h⟩ := hcs.begins c hc
      exact ⟨name, List.mem_append_left _ hname, h⟩
    · obtain ⟨name, hname, h⟩ := hds.begins c hc
      exact ⟨name, List.mem_append_right _ hname, h⟩

theorem apart_heldAlone (v : Json) (name : String) : Apart [name] (heldAlone v name) := by
  refine ⟨?_, fun c hc => ⟨name, by simp, [], (at?_of_mem_heldAlone hc).1⟩⟩
  unfold heldAlone
  cases (v.get? name).bind present with
  | none => exact List.Pairwise.nil
  | some w => exact List.pairwise_singleton _ _

theorem apart_heldMembers {v : Json} (ho : v.Ordered) (name : String) :
    Apart [name] (heldMembers v name) := by
  refine ⟨?_, fun c hc => ?_⟩
  · unfold heldMembers
    cases hget : v.get? name with
    | none => exact List.Pairwise.nil
    | some w =>
      cases w with
      | obj members =>
        refine List.pairwise_map.2 ((ho.get? hget).1.imp fun {m n} hlt p q heq => ?_)
        have hkey : m.1 = n.1 := Step.member.inj (List.cons.inj (List.cons.inj heq).2).1
        exact String.lt_irrefl _ (hkey ▸ hlt)
      | _ => exact List.Pairwise.nil
  · obtain ⟨⟨key, hway⟩, -⟩ := at?_of_mem_heldMembers ho hc
    exact ⟨name, by simp, _, hway⟩

theorem apart_heldItems (v : Json) (name : String) : Apart [name] (heldItems v name) := by
  refine ⟨?_, fun c hc => ?_⟩
  · have hindex {items : List Json} : items.zipIdx.Pairwise fun e f => e.2 < f.2 :=
      List.pairwise_map.1 (by rw [List.zipIdx_map_snd]; exact List.pairwise_lt_range')
    refine List.pairwise_map.2 (hindex.imp fun {e f} hlt p q heq => ?_)
    have hsame : e.2 = f.2 := Step.item.inj (List.cons.inj (List.cons.inj heq).2).1
    omega
  · obtain ⟨⟨i, hway⟩, -⟩ := at?_of_mem_heldItems hc
    exact ⟨name, by simp, _, hway⟩

/-- The names of the members that hold schemas. -/
def holders : List String :=
  ["items", "properties", "allOf", "anyOf", "oneOf", "not", "additionalProperties"]

theorem apart_held {v : Json} (ho : v.Ordered) : Apart holders (held v) := by
  have hadditional : Apart ["additionalProperties"]
      ((heldAlone v "additionalProperties").filter fun c => (ofJson? c.2).isSome) := by
    have h := apart_heldAlone v "additionalProperties"
    exact ⟨h.part.filter _, fun c hc => h.begins c (List.mem_filter.1 hc).1⟩
  exact (((((((apart_heldAlone v "items").append (by decide)
    (apart_heldMembers ho "properties")).append (by decide) (apart_heldItems v "allOf")).append
    (by decide) (apart_heldItems v "anyOf")).append (by decide) (apart_heldItems v "oneOf")).append
    (by decide) (apart_heldAlone v "not")).append (by decide) hadditional)

/-- The walk comes to no place twice. -/
theorem nodup_visited {v : Json} (ho : v.Ordered) : ((visited v).map (·.1)).Nodup := by
  induction v using induction_held with
  | step v ih =>
    rw [visited_eq, List.map_cons, List.map_flatMap, List.nodup_cons]
    constructor
    · -- the ways to what is held are not empty
      intro hmem
      obtain ⟨c, hc, hway⟩ := List.mem_flatMap.1 hmem
      obtain ⟨p, hp, heq⟩ := List.mem_map.1 hway
      obtain ⟨q, -, rfl⟩ := List.mem_map.1 hp
      obtain ⟨name, -, rest, hbegin⟩ := (apart_held ho).begins c hc
      rw [hbegin] at heq
      cases heq
    · refine List.nodup_flatMap.2 ⟨fun c hc => ?_, (apart_held ho).part.imp ?_⟩
      · have hinner := (ih c hc (ordered_of_mem_held ho hc)).map (List.append_right_injective c.1)
        rwa [List.map_map] at hinner ⊢
      · intro c d hpart way hcway hdway
        obtain ⟨p, hp, rfl⟩ := List.mem_map.1 hcway
        obtain ⟨q, -, rfl⟩ := List.mem_map.1 hp
        obtain ⟨r, hr, heq⟩ := List.mem_map.1 hdway
        obtain ⟨t, -, rfl⟩ := List.mem_map.1 hr
        exact hpart q.1 t.1 heq.symm

/-! ## The pointers -/

theorem pointers_eq (s : Schema) : s.pointers = s.ref.toList ++ s.children.flatMap pointers := by
  unfold pointers
  rw [nested_eq, List.filterMap_cons, List.filterMap_flatMap]
  cases s.ref <;> rfl

theorem flatMap_eq_of_forall₂ {α β γ : Type} {R : α → β → Prop} {xs : List α} {ys : List β}
    (h : List.Forall₂ R xs ys) {f : α → List γ} {g : β → List γ}
    (hfg : ∀ x ∈ xs, ∀ y, R x y → f x = g y) : xs.flatMap f = ys.flatMap g := by
  induction h with
  | nil => rfl
  | cons hxy _ ih =>
    rw [List.flatMap_cons, List.flatMap_cons, hfg _ List.mem_cons_self _ hxy,
      ih fun x hx => hfg x (List.mem_cons_of_mem _ hx)]

/-- The pointers of a schema are those that the walk over its value finds, in its order. -/
theorem pointers_of_ofJson? {v : Json} (ho : v.Ordered) {s : Schema} (h : ofJson? v = some s) :
    s.pointers = (visited v).filterMap fun p => pointerIn? p.2 := by
  induction v using induction_held generalizing s with
  | step v ih =>
    have hbelow : (held v).flatMap (fun c => (visited c.2).filterMap fun p => pointerIn? p.2) =
        s.children.flatMap pointers :=
      flatMap_eq_of_forall₂ (forall₂_held ho h) fun c hc t ht =>
        (ih c hc (ordered_of_mem_held ho hc) ht).symm
    rw [visited_eq, List.filterMap_cons, List.filterMap_flatMap, pointers_eq, ref_of_ofJson? ho h,
      ← hbelow]
    simp only [List.filterMap_map]
    cases pointerIn? v <;> rfl

/-- The pointers of a schema are those that the walk over its value finds, in its order. The walk
comes to no place twice, and leads from schema to schema only. -/
theorem pointers_eq_visited (v : Json) (ho : v.Ordered) (s : Schema) (h : ofJson? v = some s) :
    s.pointers = (visited v).filterMap (fun p => pointerIn? p.2) ∧
      ((visited v).map (·.1)).Nodup ∧ ∀ p ∈ visited v, v.at? p.1 = some p.2 ∧ Way p.1 :=
  ⟨pointers_of_ofJson? ho h, nodup_visited ho, fun _ hp => at?_of_mem_visited ho hp⟩

/-- The value of a schema with pointers under each keyword that holds schemas, and with others
that no walk comes to: in values for illustration, under an unknown name, and in additional
properties that are no schema. -/
def drawerSchema : Json :=
  .obj [("$ref", .str "#/a"),
    ("additionalProperties", .obj [("$ref", .str "#/h"),
      ("additionalProperties", .obj [("$ref", .num (.int 1)),
        ("items", .obj [("$ref", .str "#/x")])]),
      ("items", .null)]),
    ("allOf", .arr [.obj [("$ref", .str "#/d")], .obj [("not", .obj [("$ref", .str "#/e")])]]),
    ("default", .obj [("$ref", .str "#/x")]),
    ("enum", .arr [.obj [("$ref", .str "#/x")]]),
    ("example", .obj [("items", .obj [("$ref", .str "#/x")])]),
    ("items", .obj [("$ref", .str "#/b")]),
    ("not", .obj [("$ref", .str "#/g")]),
    ("oneOf", .arr [.obj [("$ref", .str "#/f")]]),
    ("properties", .obj [("lid", .obj [("$ref", .str "#/c")]), ("tray", .obj [("$ref", .null)])]),
    ("required", .obj [("$ref", .str "#/x")]),
    ("xml", .obj [("$ref", .str "#/x")])]

theorem pointers_eq_visited_drawerSchema :
    drawerSchema.Ordered ∧ ∃ s, ofJson? drawerSchema = some s ∧
      (visited drawerSchema).filterMap (fun p => pointerIn? p.2) =
        ["#/a", "#/b", "#/c", "#/d", "#/e", "#/f", "#/g", "#/h"] ∧
      ((visited drawerSchema).map (·.1)).Nodup := by
  have ho : drawerSchema.Ordered := Json.ordered_of_canonical_eq rfl
  have hread : (ofJson? drawerSchema).map pointers =
      some ["#/a", "#/b", "#/c", "#/d", "#/e", "#/f", "#/g", "#/h"] := by decide +kernel
  obtain ⟨s, hs, hpointers⟩ := Option.map_eq_some_iff.1 hread
  obtain ⟨hwalk, hnodup, -⟩ := pointers_eq_visited drawerSchema ho s hs
  exact ⟨ho, s, hs, hwalk.symm.trans hpointers, hnodup⟩

end ApiFolio.OpenApi.Schema

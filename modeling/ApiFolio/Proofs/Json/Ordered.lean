import ApiFolio.Json.Basic
import ApiFolio.Proofs.Dict.Lookup

/-!
# Values in key order

A value is ordered if every object in it has its members in key order, each key once. Readers give
ordered values only; what a typed document writes is brought into this form before it is read again
(`Json.canonical`), which changes nothing in an ordered value.
-/

namespace ApiFolio.Json

mutual

/-- Every object in the value has its members in key order. -/
def Ordered : Json → Prop
  | arr items => OrderedItems items
  | obj members => Entries.Sorted members ∧ OrderedMembers members
  | null => True
  | bool _ => True
  | num _ => True
  | str _ => True

/-- Every item is ordered. -/
def OrderedItems : List Json → Prop
  | [] => True
  | v :: vs => Ordered v ∧ OrderedItems vs

/-- The value of every member is ordered. -/
def OrderedMembers : List (String × Json) → Prop
  | [] => True
  | (_, v) :: rest => Ordered v ∧ OrderedMembers rest

end

theorem orderedItems_iff {items : List Json} : OrderedItems items ↔ ∀ v ∈ items, v.Ordered := by
  induction items with
  | nil => simp [OrderedItems]
  | cons v vs ih => simp [OrderedItems, ih]

theorem orderedMembers_iff {members : List (String × Json)} :
    OrderedMembers members ↔ ∀ m ∈ members, m.2.Ordered := by
  induction members with
  | nil => simp [OrderedMembers]
  | cons m rest ih =>
    obtain ⟨k, v⟩ := m
    simp [OrderedMembers, ih]

theorem canonicalItems_eq (items : List Json) : canonicalItems items = items.map canonical := by
  induction items with
  | nil => rfl
  | cons v vs ih => rw [canonicalItems, ih, List.map_cons]

theorem canonicalMembers_eq (members : List (String × Json)) :
    canonicalMembers members = Entries.mapValues canonical members := by
  induction members with
  | nil => rfl
  | cons m rest ih =>
    obtain ⟨k, v⟩ := m
    rw [canonicalMembers, ih]
    rfl

mutual

theorem canonical_of_ordered : {v : Json} → v.Ordered → v.canonical = v
  | arr items, h => by
    rw [canonical, canonicalItems_of_ordered h]
  | obj members, h => by
    rw [canonical, canonicalMembers_of_ordered h.2, Entries.sort_of_sorted h.1]
  | null, _ => rfl
  | bool _, _ => rfl
  | num _, _ => rfl
  | str _, _ => rfl

theorem canonicalItems_of_ordered : {items : List Json} → OrderedItems items →
    canonicalItems items = items
  | [], _ => rfl
  | _ :: _, h => by
    rw [canonicalItems, canonical_of_ordered h.1, canonicalItems_of_ordered h.2]

theorem canonicalMembers_of_ordered : {members : List (String × Json)} → OrderedMembers members →
    canonicalMembers members = members
  | [], _ => rfl
  | (_, _) :: _, h => by
    rw [canonicalMembers, canonical_of_ordered h.1, canonicalMembers_of_ordered h.2]

end

mutual

theorem ordered_canonical : (v : Json) → v.canonical.Ordered
  | arr items => orderedItems_canonicalItems items
  | obj members => by
    refine ⟨Entries.sorted_sort _, orderedMembers_iff.2 fun m hm => ?_⟩
    have hget := Entries.get?_of_mem (Entries.sorted_sort _) hm
    rw [Entries.get?_sort] at hget
    exact orderedMembers_iff.1 (orderedMembers_canonicalMembers members) _
      (Entries.mem_of_last? hget)
  | null => trivial
  | bool _ => trivial
  | num _ => trivial
  | str _ => trivial

theorem orderedItems_canonicalItems : (items : List Json) → OrderedItems (canonicalItems items)
  | [] => trivial
  | v :: vs => ⟨ordered_canonical v, orderedItems_canonicalItems vs⟩

theorem orderedMembers_canonicalMembers : (members : List (String × Json)) →
    OrderedMembers (canonicalMembers members)
  | [] => trivial
  | (_, v) :: rest => ⟨ordered_canonical v, orderedMembers_canonicalMembers rest⟩

end

/-- What holds of an array or an object holds of all values in it. -/
class Hereditary (V : Json → Prop) : Prop where
  items {vs : List Json} : V (arr vs) → ∀ v ∈ vs, V v
  members {ms : List (String × Json)} : V (obj ms) → ∀ m ∈ ms, V m.2

instance : Hereditary Ordered where
  items h := orderedItems_iff.1 h
  members h := orderedMembers_iff.1 h.2

namespace Hereditary

variable {V : Json → Prop} [Hereditary V] {v : Json} (hv : V v)

include hv

theorem members? {ms : List (String × Json)} (h : v.members? = some ms) : ∀ m ∈ ms, V m.2 := by
  cases v with
  | obj members =>
    cases h
    exact members hv
  | _ => cases h

theorem items? {vs : List Json} (h : v.items? = some vs) : ∀ w ∈ vs, V w := by
  cases v with
  | arr items =>
    cases h
    exact Hereditary.items hv
  | _ => cases h

end Hereditary

/-- A value that canonical form does not change is ordered. -/
theorem ordered_of_canonical_eq {v : Json} (h : v.canonical = v) : v.Ordered :=
  h ▸ ordered_canonical v

/-- What stands under a name in an ordered value is ordered. -/
theorem Ordered.get? {v w : Json} {name : String} (h : v.Ordered) (hw : v.get? name = some w) :
    w.Ordered := by
  cases v with
  | obj members => exact orderedMembers_iff.1 h.2 _ (Entries.mem_of_get? hw)
  | _ => cases hw

/-- The members of an ordered object have ordered values. -/
theorem Ordered.members? {v : Json} {ms : List (String × Json)} (h : v.Ordered)
    (hms : v.members? = some ms) : ∀ m ∈ ms, m.2.Ordered :=
  Hereditary.members? h hms

/-- The items of an ordered list are ordered. -/
theorem Ordered.items? {v : Json} {vs : List Json} (h : v.Ordered) (hvs : v.items? = some vs) :
    ∀ w ∈ vs, w.Ordered :=
  Hereditary.items? h hvs

end ApiFolio.Json

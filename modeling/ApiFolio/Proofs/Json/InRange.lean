import ApiFolio.Proofs.Json.Ordered

/-!
# Numbers of documents

A whole number of a document fits 64 bits, and any other is a finite double. Readers give no other
numbers. A value is in range if all numbers in it are (`Json.InRange`).
-/

namespace ApiFolio

/-- A number that a document can hold. -/
def Number.InRange : Number → Prop
  | .int n => Number.leastWhole ≤ n ∧ n ≤ Number.greatestWhole
  | .float x => x.isFinite = true

namespace Json

mutual

/-- Every number in the value is in range. -/
def InRange : Json → Prop
  | arr items => InRangeItems items
  | obj members => InRangeMembers members
  | null => True
  | bool _ => True
  | num n => n.InRange
  | str _ => True

/-- Every item is in range. -/
def InRangeItems : List Json → Prop
  | [] => True
  | v :: vs => InRange v ∧ InRangeItems vs

/-- The value of every member is in range. -/
def InRangeMembers : List (String × Json) → Prop
  | [] => True
  | (_, v) :: rest => InRange v ∧ InRangeMembers rest

end

theorem inRangeItems_iff {items : List Json} : InRangeItems items ↔ ∀ v ∈ items, v.InRange := by
  induction items with
  | nil => simp [InRangeItems]
  | cons v vs ih => simp [InRangeItems, ih]

theorem inRangeMembers_iff {members : List (String × Json)} :
    InRangeMembers members ↔ ∀ m ∈ members, m.2.InRange := by
  induction members with
  | nil => simp [InRangeMembers]
  | cons m rest ih =>
    obtain ⟨k, v⟩ := m
    simp [InRangeMembers, ih]

instance : Hereditary InRange where
  items h := inRangeItems_iff.1 h
  members h := inRangeMembers_iff.1 h

mutual

theorem inRange_canonical : {v : Json} → v.InRange → v.canonical.InRange
  | arr _, h => inRangeItems_canonicalItems h
  | obj _, h => by
    refine inRangeMembers_iff.2 fun m hm => ?_
    have hget := Entries.get?_of_mem (Entries.sorted_sort _) hm
    rw [Entries.get?_sort] at hget
    exact inRangeMembers_iff.1 (inRangeMembers_canonicalMembers h) _ (Entries.mem_of_last? hget)
  | null, _ => trivial
  | bool _, _ => trivial
  | num _, h => h
  | str _, _ => trivial

theorem inRangeItems_canonicalItems :
    {items : List Json} → InRangeItems items → InRangeItems (canonicalItems items)
  | [], _ => trivial
  | _ :: _, h => ⟨inRange_canonical h.1, inRangeItems_canonicalItems h.2⟩

theorem inRangeMembers_canonicalMembers :
    {members : List (String × Json)} → InRangeMembers members →
      InRangeMembers (canonicalMembers members)
  | [], _ => trivial
  | _ :: _, h => ⟨inRange_canonical h.1, inRangeMembers_canonicalMembers h.2⟩

end

/-- What readers give: a value in key order whose numbers are in range. -/
structure Given (v : Json) : Prop where
  ordered : v.Ordered
  inRange : v.InRange

theorem given_null : null.Given := ⟨trivial, trivial⟩

theorem given_bool (b : Bool) : (bool b).Given := ⟨trivial, trivial⟩

theorem given_str (s : String) : (str s).Given := ⟨trivial, trivial⟩

theorem given_num {n : Number} (h : n.InRange) : (num n).Given := ⟨trivial, h⟩

theorem given_arr {vs : List Json} (h : ∀ v ∈ vs, v.Given) : (arr vs).Given :=
  ⟨orderedItems_iff.2 fun v hv => (h v hv).ordered,
    inRangeItems_iff.2 fun v hv => (h v hv).inRange⟩

theorem given_obj {ms : List (String × Json)} (hsorted : Entries.Sorted ms)
    (h : ∀ m ∈ ms, m.2.Given) : (obj ms).Given :=
  ⟨⟨hsorted, orderedMembers_iff.2 fun m hm => (h m hm).ordered⟩,
    inRangeMembers_iff.2 fun m hm => (h m hm).inRange⟩

theorem given_canonical {v : Json} (h : v.InRange) : v.canonical.Given :=
  ⟨ordered_canonical v, inRange_canonical h⟩

instance : Hereditary Given where
  items h v hv := ⟨Hereditary.items h.ordered v hv, Hereditary.items h.inRange v hv⟩
  members h m hm := ⟨Hereditary.members h.ordered m hm, Hereditary.members h.inRange m hm⟩

end Json

end ApiFolio

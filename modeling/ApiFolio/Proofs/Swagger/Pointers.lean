import ApiFolio.Swagger.Pointers
import ApiFolio.Proofs.Json.InRange

/-!
# Moving pointers keeps the shape

Moving the pointers of a value changes nothing but strings: names stay where they are, an ordered
value stays ordered, and numbers stay in range (`given_movePointers`).
-/

namespace ApiFolio.Swagger

variable (bodies : List String)

/-- The value of a member after its pointers have been moved: a string under `$ref` is a pointer
itself. -/
def moveMember (name : String) : Json → Json
  | .str s => .str (if name = "$ref" then movePointer bodies s else s)
  | v => movePointers bodies v

theorem movePointersItems_eq (items : List Json) :
    movePointersItems bodies items = items.map (movePointers bodies) := by
  induction items with
  | nil => rfl
  | cons v rest ih => rw [movePointersItems, ih, List.map_cons]

theorem movePointersMembers_eq (members : List (String × Json)) :
    movePointersMembers bodies members =
      members.map fun m => (m.1, moveMember bodies m.1 m.2) := by
  induction members with
  | nil => rfl
  | cons m rest ih =>
    obtain ⟨name, v⟩ := m
    rw [List.map_cons, ← ih]
    cases v <;> rfl

theorem get?_movePointersMembers (name : String) (members : List (String × Json)) :
    Entries.get? name (movePointersMembers bodies members) =
      (Entries.get? name members).map (moveMember bodies name) := by
  rw [movePointersMembers_eq]
  induction members with
  | nil => rfl
  | cons m rest ih =>
    obtain ⟨k, v⟩ := m
    rw [List.map_cons, Entries.get?_cons, Entries.get?_cons, ih]
    by_cases hk : k = name <;> simp [hk]

mutual

theorem ordered_movePointers : {v : Json} → v.Ordered → (movePointers bodies v).Ordered
  | .arr _, h => ordered_movePointersItems h
  | .obj members, h => by
    refine ⟨?_, ordered_movePointersMembers h.2⟩
    rw [movePointersMembers_eq]
    exact List.pairwise_map.2 h.1
  | .null, _ => trivial
  | .bool _, _ => trivial
  | .num _, _ => trivial
  | .str _, _ => trivial

theorem ordered_movePointersItems : {items : List Json} → Json.OrderedItems items →
    Json.OrderedItems (movePointersItems bodies items)
  | [], _ => trivial
  | _ :: _, h => ⟨ordered_movePointers h.1, ordered_movePointersItems h.2⟩

theorem ordered_movePointersMembers : {members : List (String × Json)} →
    Json.OrderedMembers members → Json.OrderedMembers (movePointersMembers bodies members)
  | [], _ => trivial
  | (_, .str _) :: _, h => ⟨trivial, ordered_movePointersMembers h.2⟩
  | (_, .obj _) :: _, h => ⟨ordered_movePointers h.1, ordered_movePointersMembers h.2⟩
  | (_, .arr _) :: _, h => ⟨ordered_movePointers h.1, ordered_movePointersMembers h.2⟩
  | (_, .null) :: _, h => ⟨trivial, ordered_movePointersMembers h.2⟩
  | (_, .bool _) :: _, h => ⟨trivial, ordered_movePointersMembers h.2⟩
  | (_, .num _) :: _, h => ⟨trivial, ordered_movePointersMembers h.2⟩

end

mutual

theorem inRange_movePointers : {v : Json} → v.InRange → (movePointers bodies v).InRange
  | .arr _, h => inRange_movePointersItems h
  | .obj _, h => inRange_movePointersMembers h
  | .null, _ => trivial
  | .bool _, _ => trivial
  | .num _, h => h
  | .str _, _ => trivial

theorem inRange_movePointersItems : {items : List Json} → Json.InRangeItems items →
    Json.InRangeItems (movePointersItems bodies items)
  | [], _ => trivial
  | _ :: _, h => ⟨inRange_movePointers h.1, inRange_movePointersItems h.2⟩

theorem inRange_movePointersMembers : {members : List (String × Json)} →
    Json.InRangeMembers members → Json.InRangeMembers (movePointersMembers bodies members)
  | [], _ => trivial
  | (_, .str _) :: _, h => ⟨trivial, inRange_movePointersMembers h.2⟩
  | (_, .obj _) :: _, h => ⟨inRange_movePointers h.1, inRange_movePointersMembers h.2⟩
  | (_, .arr _) :: _, h => ⟨inRange_movePointers h.1, inRange_movePointersMembers h.2⟩
  | (_, .null) :: _, h => ⟨trivial, inRange_movePointersMembers h.2⟩
  | (_, .bool _) :: _, h => ⟨trivial, inRange_movePointersMembers h.2⟩
  | (_, .num _) :: _, h => ⟨h.1, inRange_movePointersMembers h.2⟩

end

/-- Moving the pointers of a value that a reader may give leaves such a value. -/
theorem given_movePointers (v : Json) (h : v.Given) : (movePointers bodies v).Given :=
  ⟨ordered_movePointers bodies h.ordered, inRange_movePointers bodies h.inRange⟩

end ApiFolio.Swagger

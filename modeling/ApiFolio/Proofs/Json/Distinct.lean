import ApiFolio.Export.Item
import ApiFolio.Proofs.Json.InRange

/-!
# Objects without equal names

An object may be written with one name twice, and a reader then drops one of the two members. In a
value with distinct keys no object is like this, at any depth (`Json.DistinctKeys`). An ordered
value is one (`Json.Ordered.distinctKeys`), and so is a record whose fields have different names and
write such values: it is a property that values have if all values in them have it
(`Json.Composable`, `Record.Fields.object`).
-/

namespace ApiFolio

theorem Entries.Sorted.nodup_keys {α : Type} {entries : List (String × α)} (h : Sorted entries) :
    (entries.map (·.1)).Nodup :=
  List.pairwise_map.2 (h.imp String.ne_of_lt)

namespace Json

mutual

/-- The members of every object in the value have different names. -/
def DistinctKeys : Json → Prop
  | arr items => DistinctItems items
  | obj members => (members.map (·.1)).Nodup ∧ DistinctMembers members
  | null => True
  | bool _ => True
  | num _ => True
  | str _ => True

/-- Every item has distinct keys. -/
def DistinctItems : List Json → Prop
  | [] => True
  | v :: vs => DistinctKeys v ∧ DistinctItems vs

/-- The value of every member has distinct keys. -/
def DistinctMembers : List (String × Json) → Prop
  | [] => True
  | (_, v) :: rest => DistinctKeys v ∧ DistinctMembers rest

end

theorem distinctItems_iff {items : List Json} :
    DistinctItems items ↔ ∀ v ∈ items, v.DistinctKeys := by
  induction items with
  | nil => simp [DistinctItems]
  | cons v vs ih => simp [DistinctItems, ih]

theorem distinctMembers_iff {members : List (String × Json)} :
    DistinctMembers members ↔ ∀ m ∈ members, m.2.DistinctKeys := by
  induction members with
  | nil => simp [DistinctMembers]
  | cons m rest ih =>
    obtain ⟨k, v⟩ := m
    simp [DistinctMembers, ih]

theorem distinctKeys_obj {members : List (String × Json)} :
    (obj members).DistinctKeys ↔
      (members.map (·.1)).Nodup ∧ ∀ m ∈ members, m.2.DistinctKeys := by
  rw [DistinctKeys, distinctMembers_iff]

mutual

/-- No two members of an ordered object have one name. -/
theorem Ordered.distinctKeys : {v : Json} → v.Ordered → v.DistinctKeys
  | arr _, h => OrderedItems.distinctItems h
  | obj _, h => ⟨h.1.nodup_keys, OrderedMembers.distinctMembers h.2⟩
  | null, _ => trivial
  | bool _, _ => trivial
  | num _, _ => trivial
  | str _, _ => trivial

theorem OrderedItems.distinctItems : {vs : List Json} → OrderedItems vs → DistinctItems vs
  | [], _ => trivial
  | _ :: _, h => ⟨h.1.distinctKeys, OrderedItems.distinctItems h.2⟩

theorem OrderedMembers.distinctMembers :
    {ms : List (String × Json)} → OrderedMembers ms → DistinctMembers ms
  | [], _ => trivial
  | _ :: _, h => ⟨h.1.distinctKeys, OrderedMembers.distinctMembers h.2⟩

end

mutual

/-- No number is lost in canonical form if no two members of an object have one name. -/
theorem inRange_of_canonical : {v : Json} → v.DistinctKeys → v.canonical.InRange → v.InRange
  | arr _, hd, h => inRangeItems_of_canonicalItems hd h
  | obj members, hd, h => by
    refine inRangeMembers_of_canonicalMembers hd.2 (inRangeMembers_iff.2 fun m hm => ?_)
    have hkeys : (canonicalMembers members).map (·.1) = members.map (·.1) := by
      rw [canonicalMembers_eq]
      exact List.map_map
    exact inRangeMembers_iff.1 h m ((Entries.mem_sort_iff (hkeys ▸ hd.1)).2 hm)
  | null, _, _ => trivial
  | bool _, _, _ => trivial
  | num _, _, h => h
  | str _, _, _ => trivial

theorem inRangeItems_of_canonicalItems :
    {vs : List Json} → DistinctItems vs → InRangeItems (canonicalItems vs) → InRangeItems vs
  | [], _, _ => trivial
  | _ :: _, hd, h =>
    ⟨inRange_of_canonical hd.1 h.1, inRangeItems_of_canonicalItems hd.2 h.2⟩

theorem inRangeMembers_of_canonicalMembers :
    {ms : List (String × Json)} → DistinctMembers ms → InRangeMembers (canonicalMembers ms) →
      InRangeMembers ms
  | [], _, _ => trivial
  | _ :: _, hd, h =>
    ⟨inRange_of_canonical hd.1 h.1, inRangeMembers_of_canonicalMembers hd.2 h.2⟩

end

/-- Texts, flags and numbers that a document can hold have the property, and so has what is made
of values with it, as long as no object gets two members with one name. -/
class Composable (P : Json → Prop) : Prop where
  text (s : String) : P (str s)
  flag (b : Bool) : P (bool b)
  number {n : Number} : n.InRange → P (num n)
  items {vs : List Json} : (∀ v ∈ vs, P v) → P (arr vs)
  members {ms : List (String × Json)} : (ms.map (·.1)).Nodup → (∀ m ∈ ms, P m.2) → P (obj ms)

instance : Composable DistinctKeys where
  text _ := trivial
  flag _ := trivial
  number _ := trivial
  items h := distinctItems_iff.2 h
  members hnodup h := distinctKeys_obj.2 ⟨hnodup, h⟩

instance : Composable InRange where
  text _ := trivial
  flag _ := trivial
  number h := h
  items h := inRangeItems_iff.2 h
  members _ h := inRangeMembers_iff.2 h

theorem Composable.map {P : Json → Prop} [Composable P] {α : Type} {write : α → Json}
    {xs : List α} (h : ∀ x ∈ xs, P (write x)) : P (arr (xs.map write)) := by
  refine items fun v hv => ?_
  obtain ⟨x, hx, rfl⟩ := List.mem_map.1 hv
  exact h x hx

end Json

/-! ## Records -/

namespace Record

open Json (Composable)

/-- Members under some of the names, in their order, whose values have a property. -/
structure Fields (P : Json → Prop) (names : List String) (members : List (String × Json)) :
    Prop where
  names : (members.map (·.1)).Sublist names
  values : ∀ m ∈ members, P m.2

variable {P : Json → Prop}

namespace Fields

theorem put (name : String) {v : Json} (hv : P v) : Fields P [name] (put name v) :=
  ⟨.refl _, List.forall_mem_singleton.2 hv⟩

theorem putOption (name : String) {α : Type} {write : α → Json} {x : Option α}
    (h : ∀ y ∈ x, P (write y)) : Fields P [name] (putOption name write x) := by
  cases x with
  | none => exact ⟨List.nil_sublist _, by simp [Record.putOption]⟩
  | some y => exact put name (h y rfl)

variable {names others : List String} {members more : List (String × Json)}

theorem append (h : Fields P names members) (hmore : Fields P others more) :
    Fields P (names ++ others) (members ++ more) where
  names := by
    rw [List.map_append]
    exact h.names.append hmore.names
  values := List.forall_mem_append.2 ⟨h.values, hmore.values⟩

/-- Fields that are written one for each of several keys. -/
theorem flatMap {κ : Type} {keyName : κ → String} {write : κ → List (String × Json)}
    {keys : List κ} (h : ∀ k, Fields P [keyName k] (write k)) :
    Fields P (keys.map keyName) (keys.flatMap write) := by
  induction keys with
  | nil => exact ⟨List.nil_sublist _, by simp⟩
  | cons k rest ih => exact (h k).append ih

variable [Composable P]

/-- A text. -/
theorem text (name s : String) : Fields P [name] (Record.put name (.str s)) :=
  put name (Composable.text s)

/-- A text, unless there is none. -/
theorem textOption (name : String) (x : Option String) :
    Fields P [name] (Record.putOption name .str x) :=
  putOption name fun s _ => Composable.text s

theorem flag (name : String) (b : Bool) : Fields P [name] (Record.put name (.bool b)) :=
  put name (Composable.flag b)

theorem putFlag (name : String) (b : Bool) : Fields P [name] (Export.putFlag name b) := by
  cases b with
  | false => exact ⟨List.nil_sublist _, by simp [Export.putFlag]⟩
  | true => exact flag name true

/-- A list. -/
theorem list (name : String) {α : Type} {write : α → Json} {xs : List α}
    (h : ∀ x ∈ xs, P (write x)) : Fields P [name] (Record.put name (.arr (xs.map write))) :=
  put name (Composable.map h)

/-- A record whose fields have different names has the property. -/
theorem object (h : Fields P names members) (hnodup : names.Nodup) : P (.obj members) :=
  Composable.members (hnodup.sublist h.names) h.values

end Fields

/-- A table has the property if its values have it. -/
theorem composed_writeDict [Composable P] {α : Type} {write : α → Json} {table : Dict α}
    (h : ∀ e ∈ table.entries, P (write e.2)) : P (writeDict write table) := by
  refine Composable.members (Entries.sorted_mapValues write table.sorted).nodup_keys ?_
  intro m hm
  obtain ⟨e, he, rfl⟩ := List.mem_map.1 hm
  exact h e he

end Record

end ApiFolio

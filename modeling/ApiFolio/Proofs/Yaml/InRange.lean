import ApiFolio.Proofs.Json.InRange
import ApiFolio.Yaml.Reader

/-!
# Whole numbers of a YAML text

A whole number of a YAML text fits 64 bits: a greater one is refused, or is a double. So every
number that the text has in JSON is in range (`Value.given_of_toJson?`); a double that is not finite
has no text there.
-/

namespace ApiFolio.Yaml

namespace Value

mutual

/-- Every whole number in the value fits 64 bits. -/
def InRange : Value → Prop
  | null => True
  | bool _ => True
  | int n => (Number.int n).InRange
  | float _ => True
  | str _ => True
  | list items => InRangeItems items
  | table entries => InRangeEntries entries
  | tagged _ v => InRange v

/-- Every item is in range. -/
def InRangeItems : List Value → Prop
  | [] => True
  | v :: vs => InRange v ∧ InRangeItems vs

/-- The value of every entry is in range. -/
def InRangeEntries : List (Value × Value) → Prop
  | [] => True
  | (_, v) :: rest => InRange v ∧ InRangeEntries rest

end

/-! ## Scalars -/

theorem inRange_of_ofText {cs : List Char} {n : Int} (h : WholeNumber.ofText cs = .fits n) :
    (Number.int n).InRange := by
  unfold WholeNumber.ofText at h
  split at h
  · cases h
  · split at h
    · rename_i hfits
      cases h
      exact hfits
    · split at h <;> cases h

theorem inRange_of_ofPlain? {s : String} {v : Value} (h : ofPlain? s = some v) : v.InRange := by
  unfold ofPlain? at h
  split at h
  · cases h
    trivial
  · split at h
    · cases h
      trivial
    · split at h
      · rename_i hn
        cases h
        exact inRange_of_ofText hn
      · cases h
      · split at h
        · cases h
          trivial
        · split at h <;> cases h <;> trivial

theorem inRange_of_ofText? {text : String} {plain : Bool} {v : Value}
    (h : ofText? text plain = some v) : v.InRange := by
  unfold ofText? at h
  split at h
  · exact inRange_of_ofPlain? h
  · cases h
    trivial

theorem inRange_of_ofScalar? {tag : Option Tag} {text : String} {plain : Bool} {v : Value}
    (h : ofScalar? tag text plain = some v) : v.InRange := by
  unfold ofScalar? at h
  split at h
  · exact inRange_of_ofText? h
  · exact inRange_of_ofText? h
  · obtain ⟨w, hw, rfl⟩ := Option.map_eq_some_iff.1 h
    show w.InRange
    exact inRange_of_ofText? hw
  · obtain ⟨b, -, rfl⟩ := Option.map_eq_some_iff.1 h
    trivial
  · split at h
    · rename_i hn
      cases h
      exact inRange_of_ofText hn
    · cases h
  · obtain ⟨x, -, rfl⟩ := Option.map_eq_some_iff.1 h
    trivial
  · split at h <;> cases h
    trivial
  · cases h
    trivial

/-! ## Nodes -/

theorem inRange_withTag (tag : Option Tag) {v : Value} (h : v.InRange) :
    (withTag tag v).InRange := by
  unfold withTag
  split <;> exact h

section

variable {read : Node Nat → Nat → Option (Value × Nat)}
  (hread : ∀ x used r, read x used = some r → r.1.InRange)

include hread

theorem inRange_of_readItems? {xs : List (Node Nat)} {used : Nat} {r : List Value × Nat}
    (h : readItems? read xs used = some r) : InRangeItems r.1 := by
  induction xs generalizing used r with
  | nil =>
    cases h
    trivial
  | cons x rest ih =>
    obtain ⟨v, hv, h⟩ := Option.bind_eq_some_iff.1 h
    obtain ⟨vs, hvs, h⟩ := Option.bind_eq_some_iff.1 h
    cases h
    exact ⟨hread x used v hv, ih hvs⟩

theorem inRange_of_readEntries? {keys : List Value} {entries : List (Node Nat × Node Nat)}
    {used : Nat} {r : List (Value × Value) × Nat}
    (h : readEntries? read keys entries used = some r) : InRangeEntries r.1 := by
  induction entries generalizing keys used r with
  | nil =>
    cases h
    trivial
  | cons e rest ih =>
    obtain ⟨k, hk, h⟩ := Option.bind_eq_some_iff.1 h
    simp only at h
    split at h
    · cases h
    · obtain ⟨v, hv, h⟩ := Option.bind_eq_some_iff.1 h
      obtain ⟨es, hes, h⟩ := Option.bind_eq_some_iff.1 h
      cases h
      exact ⟨hread _ _ v hv, ih hes⟩

end

/-- What a node stands for is in range, as deep as it is read. -/
theorem inRange_of_ofNode? (aliases : Aliases) (depth : Nat) (x : Node Nat) (used : Nat)
    (r : Value × Nat) (h : ofNode? aliases depth x used = some r) : r.1.InRange := by
  induction depth generalizing x used r with
  | zero =>
    obtain ⟨⟨y, count⟩, -, h⟩ := Option.bind_eq_some_iff.1 h
    cases y with
    | scalar p text plain =>
      obtain ⟨v, hv, rfl⟩ := Option.map_eq_some_iff.1 h
      exact inRange_of_ofScalar? hv
    | _ => cases h
  | succ depth ih =>
    obtain ⟨⟨y, count⟩, -, h⟩ := Option.bind_eq_some_iff.1 h
    cases y with
    | scalar p text plain =>
      obtain ⟨v, hv, rfl⟩ := Option.map_eq_some_iff.1 h
      exact inRange_of_ofScalar? hv
    | list p items =>
      obtain ⟨vs, hvs, h⟩ := Option.bind_eq_some_iff.1 h
      cases h
      exact inRange_withTag p.tag (inRange_of_readItems? ih hvs)
    | table p entries =>
      obtain ⟨es, hes, h⟩ := Option.bind_eq_some_iff.1 h
      cases h
      exact inRange_withTag p.tag (inRange_of_readEntries? ih hes)
    | «alias» n => cases h

end Value

/-- All whole numbers of a document fit 64 bits. -/
theorem inRange_of_read? {s : String} {v : Value} (h : read? s = some v) : v.InRange := by
  obtain ⟨ts, -, h⟩ := Option.bind_eq_some_iff.1 h
  obtain ⟨x, -, h⟩ := Option.bind_eq_some_iff.1 h
  cases x with
  | none =>
    cases h
    trivial
  | some x =>
    obtain ⟨y, -, h⟩ := Option.bind_eq_some_iff.1 h
    obtain ⟨r, hr, h⟩ := Option.bind_eq_some_iff.1 h
    cases h
    exact Value.inRange_of_ofNode? _ _ _ _ r hr

/-! ## JSON -/

namespace Value

mutual

/-- A value in range becomes JSON that readers may give. -/
theorem given_of_toJson? :
    {v : Value} → v.InRange → {j : Json} → toJson? v = some j → j.Given
  | .null, _, _, h => by
    cases h
    exact Json.given_null
  | .bool b, _, _, h => by
    cases h
    exact Json.given_bool b
  | .int _, hv, _, h => by
    cases h
    exact Json.given_num hv
  | .float x, _, _, h => by
    rw [toJson?] at h
    cases h
    split
    · rename_i hfinite
      exact Json.given_num hfinite
    · exact Json.given_null
  | .str s, _, _, h => by
    cases h
    exact Json.given_str s
  | .list _, hv, _, h => by
    rw [toJson?] at h
    obtain ⟨js, hjs, rfl⟩ := Option.map_eq_some_iff.1 h
    exact Json.given_arr (given_of_toItems? hv hjs)
  | .table _, hv, _, h => by
    rw [toJson?] at h
    obtain ⟨ms, hms, rfl⟩ := Option.map_eq_some_iff.1 h
    exact Json.given_obj (Entries.sorted_sort ms) fun m hm =>
      given_of_toMembers? hv hms m (@Dict.mem_of_mem_ofList _ ms m hm)
  | .tagged _ v, hv, _, h => by
    rw [toJson?] at h
    obtain ⟨j, hj, rfl⟩ := Option.map_eq_some_iff.1 h
    have hv : v.InRange := hv
    have hj : j.Given := given_of_toJson? hv hj
    exact Json.given_obj (List.pairwise_singleton _ _) (List.forall_mem_singleton.2 hj)

theorem given_of_toItems? : {vs : List Value} → InRangeItems vs → {js : List Json} →
    toItems? vs = some js → ∀ j ∈ js, j.Given
  | [], _, _, h => by
    cases h
    exact fun j hj => by cases hj
  | _ :: _, hvs, _, h => by
    rw [toItems?] at h
    obtain ⟨j, hj, h⟩ := Option.bind_eq_some_iff.1 h
    obtain ⟨js, hjs, h⟩ := Option.bind_eq_some_iff.1 h
    cases h
    exact List.forall_mem_cons.2 ⟨given_of_toJson? hvs.1 hj, given_of_toItems? hvs.2 hjs⟩

theorem given_of_toMembers? : {es : List (Value × Value)} → InRangeEntries es →
    {ms : List (String × Json)} → toMembers? es = some ms → ∀ m ∈ ms, m.2.Given
  | [], _, _, h => by
    cases h
    exact fun m hm => by cases hm
  | (_, _) :: _, hes, _, h => by
    rw [toMembers?] at h
    obtain ⟨name, -, h⟩ := Option.bind_eq_some_iff.1 h
    obtain ⟨j, hj, h⟩ := Option.bind_eq_some_iff.1 h
    obtain ⟨ms, hms, h⟩ := Option.bind_eq_some_iff.1 h
    cases h
    exact List.forall_mem_cons.2 ⟨given_of_toJson? hes.1 hj, given_of_toMembers? hes.2 hms⟩

end

end Value

end ApiFolio.Yaml

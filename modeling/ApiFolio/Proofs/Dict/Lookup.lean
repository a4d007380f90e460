import ApiFolio.Dict

/-!
# Looking up in tables

A table is determined by what its look-up answers (`Dict.ext_get?`), and each operation on tables
has one equation that says what a look-up answers after it.
-/

namespace ApiFolio

universe u v

variable {α : Type u} {β : Type v}

namespace Entries

@[simp] theorem get?_nil (key : String) : get? key ([] : List (String × α)) = none := rfl

theorem get?_cons (key k : String) (x : α) (rest : List (String × α)) :
    get? key ((k, x) :: rest) = if k = key then some x else get? key rest := rfl

theorem get?_eq_none_iff {key : String} {entries : List (String × α)} :
    get? key entries = none ↔ ∀ e ∈ entries, e.1 ≠ key := by
  induction entries with
  | nil => simp
  | cons head rest ih =>
    obtain ⟨k, x⟩ := head
    rw [get?_cons]
    split
    · rename_i h
      simp [h]
    · rename_i h
      simp [h, ih]

/-- In a list in key order every entry is found under its key. -/
theorem get?_of_mem {key : String} {value : α} {entries : List (String × α)}
    (hs : Sorted entries) (h : (key, value) ∈ entries) : get? key entries = some value := by
  induction entries with
  | nil => cases h
  | cons head rest ih =>
    obtain ⟨k, x⟩ := head
    have hrest := List.pairwise_cons.1 hs
    rw [get?_cons]
    rcases List.mem_cons.1 h with heq | hmem
    · cases heq
      rw [if_pos rfl]
    · have hne : k ≠ key := by
        rintro rfl
        exact String.lt_irrefl _ (hrest.1 (k, value) hmem)
      rw [if_neg hne]
      exact ih hrest.2 hmem

theorem mem_iff_get? {key : String} {value : α} {entries : List (String × α)}
    (hs : Sorted entries) : (key, value) ∈ entries ↔ get? key entries = some value :=
  ⟨get?_of_mem hs, mem_of_get?⟩

theorem get?_insert (key : String) (value : α) (k : String) (entries : List (String × α)) :
    get? k (insert key value entries) = if key = k then some value else get? k entries := by
  induction entries with
  | nil => rfl
  | cons head rest ih =>
    obtain ⟨k', x⟩ := head
    unfold insert
    split
    · rfl
    · split
      · rename_i heq
        subst heq
        rw [get?_cons, get?_cons]
        split <;> rfl
      · rename_i hne
        rw [get?_cons, get?_cons, ih]
        by_cases hk : k' = k
        · subst hk
          rw [if_pos rfl, if_neg hne]
          simp
        · rw [if_neg hk, if_neg hk]

/-- The value of the last entry with the key. -/
def last? (key : String) : List (String × α) → Option α
  | [] => none
  | (k, x) :: rest => (last? key rest).or (if k = key then some x else none)

@[simp] theorem last?_nil (key : String) : last? key ([] : List (String × α)) = none := rfl

theorem last?_cons (key k : String) (x : α) (rest : List (String × α)) :
    last? key ((k, x) :: rest) = (last? key rest).or (if k = key then some x else none) := rfl

@[simp] theorem last?_append (key : String) (a b : List (String × α)) :
    last? key (a ++ b) = (last? key b).or (last? key a) := by
  induction a with
  | nil => simp
  | cons head rest ih =>
    obtain ⟨k, x⟩ := head
    rw [List.cons_append, last?_cons, last?_cons, ih, Option.or_assoc]

theorem get?_foldl_insert (key : String) (more table : List (String × α)) :
    get? key (more.foldl (fun table e => insert e.1 e.2 table) table) =
      (last? key more).or (get? key table) := by
  induction more generalizing table with
  | nil => rfl
  | cons e rest ih =>
    obtain ⟨k, x⟩ := e
    rw [List.foldl_cons, ih, get?_insert, last?_cons, Option.or_assoc]
    by_cases hk : k = key <;> simp [hk]

/-- Of several entries with one key the last stays. -/
theorem get?_sort (key : String) (entries : List (String × α)) :
    get? key (sort entries) = last? key entries := by
  unfold sort
  rw [get?_foldl_insert, get?_nil, Option.or_none]

theorem last?_eq_none {key : String} {entries : List (String × α)}
    (h : ∀ e ∈ entries, e.1 ≠ key) : last? key entries = none := by
  induction entries with
  | nil => rfl
  | cons head rest ih =>
    obtain ⟨k, x⟩ := head
    rw [last?_cons, ih fun e he => h e (List.mem_cons_of_mem _ he),
      if_neg (h (k, x) List.mem_cons_self), Option.or_none]

theorem mem_of_last? {key : String} {value : α} {entries : List (String × α)}
    (h : last? key entries = some value) : (key, value) ∈ entries := by
  induction entries with
  | nil => cases h
  | cons head rest ih =>
    obtain ⟨k, x⟩ := head
    rw [last?_cons, Option.or_eq_some_iff] at h
    rcases h with h | ⟨-, h⟩
    · exact List.mem_cons_of_mem _ (ih h)
    · split at h
      · rename_i hk
        cases h
        rw [hk]
        exact List.mem_cons_self
      · cases h

theorem exists_last?_of_mem {key : String} {value : α} {entries : List (String × α)}
    (h : (key, value) ∈ entries) : ∃ x, last? key entries = some x := by
  induction entries with
  | nil => cases h
  | cons head rest ih =>
    obtain ⟨k, x⟩ := head
    rw [last?_cons]
    rcases List.mem_cons.1 h with heq | hmem
    · cases heq
      rw [if_pos rfl]
      cases last? key rest with
      | none => exact ⟨_, rfl⟩
      | some y => exact ⟨_, rfl⟩
    · obtain ⟨y, hy⟩ := ih hmem
      rw [hy]
      exact ⟨_, rfl⟩

theorem last?_map_const (key : String) (value : α) (keys : List String) :
    last? key (keys.map fun k => (k, value)) = if key ∈ keys then some value else none := by
  induction keys with
  | nil => rfl
  | cons k rest ih =>
    rw [List.map_cons, last?_cons, ih]
    by_cases hk : k = key
    · subst hk
      split <;> simp
    · have hne : key ≠ k := fun heq => hk heq.symm
      simp [hk, hne]

theorem last?_of_sorted {key : String} {entries : List (String × α)} (h : Sorted entries) :
    last? key entries = get? key entries := by
  induction entries with
  | nil => rfl
  | cons head rest ih =>
    obtain ⟨k, x⟩ := head
    have hrest := List.pairwise_cons.1 h
    rw [last?_cons, get?_cons, ih hrest.2]
    by_cases hk : k = key
    · subst hk
      have hnone : get? k rest = none := get?_eq_none_iff.2 fun e he heq =>
        String.lt_irrefl _ (heq ▸ hrest.1 e he)
      rw [hnone, Option.none_or]
    · rw [if_neg hk, if_neg hk, Option.or_none]

theorem last?_mapValues (f : α → β) (key : String) (entries : List (String × α)) :
    last? key (mapValues f entries) = (last? key entries).map f := by
  induction entries with
  | nil => rfl
  | cons head rest ih =>
    obtain ⟨k, x⟩ := head
    show last? key ((k, f x) :: mapValues f rest) = _
    rw [last?_cons, last?_cons, ih]
    split <;> cases last? key rest <;> rfl

theorem get?_filter (p : String → Bool) (k : String) (entries : List (String × α)) :
    get? k (entries.filter fun e => p e.1) = if p k then get? k entries else none := by
  induction entries with
  | nil => simp
  | cons head rest ih =>
    obtain ⟨k', x⟩ := head
    rw [List.filter_cons, get?_cons]
    by_cases hk : k' = k
    · subst hk
      by_cases hp : p k' = true
      · simp [hp, get?_cons]
      · simp [hp] at ih ⊢
        exact ih
    · by_cases hp : p k' = true
      · simp [hp, get?_cons, hk, ih]
      · simp [hp, hk, ih]

theorem get?_mapValues (f : α → β) (k : String) (entries : List (String × α)) :
    get? k (mapValues f entries) = (get? k entries).map f := by
  induction entries with
  | nil => rfl
  | cons head rest ih =>
    obtain ⟨k', x⟩ := head
    show get? k ((k', f x) :: mapValues f rest) = _
    rw [get?_cons, get?_cons, ih]
    split <;> rfl

theorem get?_filterMapValues (f : String → α → Option β) {entries : List (String × α)}
    (hs : Sorted entries) (k : String) :
    get? k (filterMapValues f entries) = (get? k entries).bind (f k) := by
  induction entries with
  | nil => rfl
  | cons head rest ih =>
    obtain ⟨k', x⟩ := head
    have hrest := List.pairwise_cons.1 hs
    rw [get?_cons, filterMapValues]
    by_cases hk : k' = k
    · subst hk
      have hnone : get? k' rest = none := get?_eq_none_iff.2 fun e he heq =>
        String.lt_irrefl _ (heq ▸ hrest.1 e he)
      rw [if_pos rfl, Option.bind_some]
      cases hf : f k' x with
      | none => rw [ih hrest.2, hnone, Option.bind_none]
      | some y => rw [get?_cons, if_pos rfl]
    · rw [if_neg hk]
      cases hf : f k' x with
      | none => exact ih hrest.2
      | some y =>
        rw [get?_cons, if_neg hk]
        exact ih hrest.2

theorem Sorted.of_keys {a : List (String × α)} {b : List (String × β)} (h : Sorted b)
    (hkeys : a.map (·.1) = b.map (·.1)) : Sorted a := by
  have hb : (b.map (·.1)).Pairwise (· < ·) := List.pairwise_map.2 h
  rw [← hkeys] at hb
  exact List.pairwise_map.1 hb

theorem Sorted.nodup {entries : List (String × α)} (h : Sorted entries) : entries.Nodup :=
  List.Pairwise.imp (fun hlt heq => by rw [heq] at hlt; exact String.lt_irrefl _ hlt) h

theorem last?_of_mem {key : String} {value : α} {entries : List (String × α)}
    (hnodup : (entries.map (·.1)).Nodup) (h : (key, value) ∈ entries) :
    last? key entries = some value := by
  induction entries with
  | nil => cases h
  | cons head rest ih =>
    obtain ⟨k, x⟩ := head
    obtain ⟨hk, hrest⟩ := List.nodup_cons.1 hnodup
    rw [last?_cons]
    rcases List.mem_cons.1 h with heq | hmem
    · cases heq
      have hnone : last? key rest = none :=
        last?_eq_none fun e he heq => hk (List.mem_map.2 ⟨e, he, heq⟩)
      rw [hnone, Option.none_or, if_pos rfl]
    · rw [ih hrest hmem, Option.some_or]

/-- Where no key stands twice every entry stays. -/
theorem mem_sort_iff {entries : List (String × α)} (hnodup : (entries.map (·.1)).Nodup)
    {e : String × α} : e ∈ sort entries ↔ e ∈ entries := by
  obtain ⟨key, value⟩ := e
  rw [mem_iff_get? (sorted_sort _), get?_sort]
  exact ⟨mem_of_last?, last?_of_mem hnodup⟩

/-- Two lists in key order with the same look-ups are the same list. -/
theorem eq_of_get? {a b : List (String × α)} (ha : Sorted a) (hb : Sorted b)
    (h : ∀ key, get? key a = get? key b) : a = b := by
  have hperm : a.Perm b := (List.perm_ext_iff_of_nodup ha.nodup hb.nodup).2 fun e => by
    obtain ⟨key, value⟩ := e
    rw [mem_iff_get? ha, mem_iff_get? hb, h]
  refine List.Perm.eq_of_pairwise (fun x y _ _ hxy hyx => ?_) ha hb hperm
  exact absurd (String.lt_trans hxy hyx) (String.lt_irrefl _)

/-- A list in key order stays as it is when it is put in order. -/
theorem sort_of_sorted {entries : List (String × α)} (h : Sorted entries) :
    sort entries = entries :=
  eq_of_get? (sorted_sort entries) h fun key => by
    rw [get?_sort, last?_of_sorted h]

end Entries

namespace Dict

variable (table : Dict α)

theorem mem_entries {key : String} {value : α} :
    (key, value) ∈ table.entries ↔ table.get? key = some value :=
  Entries.mem_iff_get? table.sorted

/-- Two tables with the same look-ups are equal. -/
theorem ext_get? {a b : Dict α} (h : ∀ key, a.get? key = b.get? key) : a = b :=
  Dict.ext (Entries.eq_of_get? a.sorted b.sorted h)

theorem isEmpty_iff {table : Dict α} : table.isEmpty = true ↔ table = ∅ := by
  rw [isEmpty, List.isEmpty_iff]
  exact ⟨fun h => Dict.ext h, fun h => congrArg entries h⟩

@[simp] theorem get?_empty (key : String) : (∅ : Dict α).get? key = none := rfl

theorem get?_insert (key : String) (value : α) (k : String) :
    (table.insert key value).get? k = if key = k then some value else table.get? k :=
  Entries.get?_insert key value k table.entries

theorem get?_insertIfNew (key : String) (value : α) (k : String) :
    (table.insertIfNew key value).get? k =
      (table.get? k).or (if key = k then some value else none) := by
  unfold insertIfNew contains
  by_cases h : (table.get? key).isSome = true
  · rw [if_pos h]
    obtain ⟨x, hx⟩ := Option.isSome_iff_exists.1 h
    by_cases hk : key = k
    · subst hk
      rw [hx, Option.some_or]
    · rw [if_neg hk, Option.or_none]
  · rw [if_neg h, get?_insert]
    have hn : table.get? key = none := by simpa using h
    by_cases hk : key = k
    · subst hk
      rw [hn, if_pos rfl, Option.none_or]
    · rw [if_neg hk, if_neg hk, Option.or_none]

theorem get?_erase (key k : String) :
    (table.erase key).get? k = if k = key then none else table.get? k := by
  have h := Entries.get?_filter (fun name => name != key) k table.entries
  show Entries.get? k (table.entries.filter fun e => e.1 != key) = _
  rw [h]
  by_cases hk : k = key <;> simp [hk, get?]

/-- Every entry of the table of a list is an entry of the list. -/
theorem mem_of_mem_ofList {entries : List (String × α)} {e : String × α}
    (h : e ∈ (Dict.ofList entries).entries) : e ∈ entries := by
  have hget := Entries.get?_of_mem (Dict.ofList entries).sorted h
  rw [show (Dict.ofList entries).entries = Entries.sort entries from rfl,
    Entries.get?_sort] at hget
  exact Entries.mem_of_last? hget

/-- The table of a list has the keys of the list. -/
theorem mem_keys_ofList_iff {entries : List (String × α)} {key : String} :
    key ∈ (Dict.ofList entries).keys ↔ key ∈ entries.map (·.1) := by
  constructor
  · intro h
    obtain ⟨e, he, rfl⟩ := List.mem_map.1 h
    exact List.mem_map_of_mem (mem_of_mem_ofList he)
  · intro h
    obtain ⟨e, he, rfl⟩ := List.mem_map.1 h
    obtain ⟨x, hx⟩ := Entries.exists_last?_of_mem he
    have hget : (Dict.ofList entries).get? e.1 = some x := (Entries.get?_sort _ _).trans hx
    exact List.mem_map.2 ⟨_, Entries.mem_of_get? hget, rfl⟩

@[simp] theorem map_id : table.map id = table :=
  Dict.ext (List.map_id table.entries)

/-- A function that changes no value of a table does not change the table. -/
theorem map_eq_self {f : α → α} {table : Dict α} (h : ∀ e ∈ table.entries, f e.2 = e.2) :
    table.map f = table := by
  refine Dict.ext ?_
  show table.entries.map (fun e => (e.1, f e.2)) = table.entries
  rw [List.map_congr_left fun e he => by rw [h e he], List.map_id']

theorem get?_map (f : α → β) (k : String) : (table.map f).get? k = (table.get? k).map f :=
  Entries.get?_mapValues f k table.entries

end Dict

end ApiFolio

/-!
# Tables with text keys

A `Dict` is a list of entries in strictly ascending key order, so each key stands once and two
tables with the same entries are the same table. `Entries` holds the operations on bare entry
lists; the recursive types of the library keep such lists, because an inductive type cannot
mention itself under the order proof. Lookups in a list that is not in order answer with the
first entry of the key.
-/

namespace ApiFolio

universe u v

namespace Entries

variable {α : Type u} {β : Type v}

/-- The value of the first entry with the key. -/
def get? (key : String) : List (String × α) → Option α
  | [] => none
  | (k, x) :: rest => if k = key then some x else get? key rest

/-- Puts a value under a key, in key order, in place of the value the key had. -/
def insert (key : String) (value : α) : List (String × α) → List (String × α)
  | [] => [(key, value)]
  | (k, x) :: rest =>
    if key < k then (key, value) :: (k, x) :: rest
    else if key = k then (key, value) :: rest
    else (k, x) :: insert key value rest

/-- Strictly ascending keys. -/
def Sorted (entries : List (String × α)) : Prop :=
  entries.Pairwise fun a b => a.1 < b.1

/-- The entries in key order; of several with one key the last stays. -/
def sort (entries : List (String × α)) : List (String × α) :=
  entries.foldl (fun table e => insert e.1 e.2 table) []

theorem mem_insert {key : String} {value : α} {e : String × α} {entries : List (String × α)}
    (h : e ∈ insert key value entries) : e = (key, value) ∨ e ∈ entries := by
  induction entries with
  | nil => simpa [insert] using h
  | cons head rest ih =>
    obtain ⟨k, x⟩ := head
    unfold insert at h
    split at h
    · simpa using h
    · split at h
      · rcases List.mem_cons.1 h with h | h
        · exact .inl h
        · exact .inr (List.mem_cons_of_mem _ h)
      · rcases List.mem_cons.1 h with h | h
        · exact .inr (h ▸ List.mem_cons_self)
        · rcases ih h with h | h
          · exact .inl h
          · exact .inr (List.mem_cons_of_mem _ h)

theorem lt_of_not_lt_of_ne {a b : String} (h : ¬a < b) (hne : a ≠ b) : b < a := by
  rcases Classical.em (b < a) with h' | h'
  · exact h'
  · exact absurd (String.le_antisymm (String.not_lt.1 h') (String.not_lt.1 h)) hne

theorem sorted_insert (key : String) (value : α) {entries : List (String × α)}
    (h : Sorted entries) : Sorted (insert key value entries) := by
  induction entries with
  | nil => exact List.pairwise_singleton _ _
  | cons head rest ih =>
    obtain ⟨k, x⟩ := head
    have hrest := List.pairwise_cons.1 h
    unfold insert
    split
    · rename_i hlt
      refine List.pairwise_cons.2 ⟨fun e he => ?_, h⟩
      rcases List.mem_cons.1 he with rfl | he
      · exact hlt
      · exact String.lt_trans hlt (hrest.1 e he)
    · rename_i hlt
      split
      · rename_i heq
        subst heq
        exact List.pairwise_cons.2 ⟨hrest.1, hrest.2⟩
      · rename_i hne
        refine List.pairwise_cons.2 ⟨fun e he => ?_, ih hrest.2⟩
        rcases mem_insert he with rfl | he
        · exact lt_of_not_lt_of_ne hlt hne
        · exact hrest.1 e he

theorem sorted_foldl_insert (more : List (String × α)) {entries : List (String × α)}
    (h : Sorted entries) :
    Sorted (more.foldl (fun table e => insert e.1 e.2 table) entries) := by
  induction more generalizing entries with
  | nil => exact h
  | cons e rest ih => exact ih (sorted_insert e.1 e.2 h)

theorem sorted_sort (entries : List (String × α)) : Sorted (sort entries) :=
  sorted_foldl_insert entries List.Pairwise.nil

def mapValues (f : α → β) (entries : List (String × α)) : List (String × β) :=
  entries.map fun e => (e.1, f e.2)

theorem sorted_mapValues (f : α → β) {entries : List (String × α)} (h : Sorted entries) :
    Sorted (mapValues f entries) :=
  List.pairwise_map.2 h

theorem sorted_filter (p : String × α → Bool) {entries : List (String × α)} (h : Sorted entries) :
    Sorted (entries.filter p) :=
  List.Pairwise.filter p h

theorem mem_of_get? {key : String} {value : α} {entries : List (String × α)}
    (h : get? key entries = some value) : (key, value) ∈ entries := by
  induction entries with
  | nil => simp [get?] at h
  | cons head rest ih =>
    obtain ⟨k, x⟩ := head
    unfold get? at h
    split at h
    · rename_i heq
      subst heq
      cases h
      exact List.mem_cons_self
    · exact List.mem_cons_of_mem _ (ih h)

/-- Keeps the entries whose value `f` accepts, with the value it gives. -/
def filterMapValues (f : String → α → Option β) : List (String × α) → List (String × β)
  | [] => []
  | (k, x) :: rest =>
    match f k x with
    | some y => (k, y) :: filterMapValues f rest
    | none => filterMapValues f rest

theorem exists_mem_of_mem_filterMapValues {f : String → α → Option β} {e : String × β}
    {entries : List (String × α)} (h : e ∈ filterMapValues f entries) :
    ∃ x, (e.1, x) ∈ entries ∧ f e.1 x = some e.2 := by
  induction entries with
  | nil => cases h
  | cons head rest ih =>
    obtain ⟨k, x⟩ := head
    unfold filterMapValues at h
    split at h
    · rename_i y hy
      rcases List.mem_cons.1 h with rfl | h
      · exact ⟨x, List.mem_cons_self, hy⟩
      · obtain ⟨x', hx', hf⟩ := ih h
        exact ⟨x', List.mem_cons_of_mem _ hx', hf⟩
    · obtain ⟨x', hx', hf⟩ := ih h
      exact ⟨x', List.mem_cons_of_mem _ hx', hf⟩

theorem sorted_filterMapValues (f : String → α → Option β) {entries : List (String × α)}
    (h : Sorted entries) : Sorted (filterMapValues f entries) := by
  induction entries with
  | nil => exact List.Pairwise.nil
  | cons head rest ih =>
    obtain ⟨k, x⟩ := head
    have hrest := List.pairwise_cons.1 h
    unfold filterMapValues
    split
    · refine List.pairwise_cons.2 ⟨fun e he => ?_, ih hrest.2⟩
      obtain ⟨x', hx', -⟩ := exists_mem_of_mem_filterMapValues he
      exact hrest.1 _ hx'
    · exact ih hrest.2

/-- Reads every value with `f`; one that `f` refuses refuses the list. -/
def traverse (f : α → Option β) : List (String × α) → Option (List (String × β))
  | [] => some []
  | (k, x) :: rest => do
    let y ← f x
    let ys ← traverse f rest
    return (k, y) :: ys

end Entries

/-- A table: entries in strictly ascending key order. -/
structure Dict (α : Type u) where
  entries : List (String × α)
  /-- Keys ascend strictly, so none stands twice. -/
  sorted : Entries.Sorted entries

namespace Dict

variable {α : Type u} {β : Type v}

/-- The table without entries. -/
def empty : Dict α := ⟨[], List.Pairwise.nil⟩

instance : Inhabited (Dict α) := ⟨empty⟩

instance : EmptyCollection (Dict α) := ⟨empty⟩

instance [DecidableEq α] : DecidableEq (Dict α) := fun a b =>
  if h : a.entries = b.entries then
    isTrue (by cases a; cases b; cases h; rfl)
  else isFalse fun e => h (e ▸ rfl)

/-- Two tables with the same entries are equal. -/
@[ext]
theorem ext {a b : Dict α} (h : a.entries = b.entries) : a = b := by
  cases a; cases b; cases h; rfl

/-- The table of a list of entries; of several with one key the last stays. -/
def ofList (entries : List (String × α)) : Dict α := ⟨Entries.sort entries, Entries.sorted_sort _⟩

def get? (table : Dict α) (key : String) : Option α := Entries.get? key table.entries

def contains (table : Dict α) (key : String) : Bool := (table.get? key).isSome

/-- Puts a value under a key, in place of the value the key had. -/
def insert (table : Dict α) (key : String) (value : α) : Dict α :=
  ⟨Entries.insert key value table.entries, Entries.sorted_insert key value table.sorted⟩

/-- Puts a value under a key that has none yet. -/
def insertIfNew (table : Dict α) (key : String) (value : α) : Dict α :=
  if table.contains key then table else table.insert key value

def map (f : α → β) (table : Dict α) : Dict β :=
  ⟨Entries.mapValues f table.entries, Entries.sorted_mapValues f table.sorted⟩

def filter (p : String → α → Bool) (table : Dict α) : Dict α :=
  ⟨table.entries.filter fun e => p e.1 e.2, Entries.sorted_filter _ table.sorted⟩

/-- The entries of all other keys. -/
def erase (table : Dict α) (key : String) : Dict α := table.filter fun k _ => k != key

/-- The entries whose value `f` accepts, with the value it gives. -/
def filterMap (f : String → α → Option β) (table : Dict α) : Dict β :=
  ⟨Entries.filterMapValues f table.entries, Entries.sorted_filterMapValues f table.sorted⟩

def keys (table : Dict α) : List String := table.entries.map (·.1)

def values (table : Dict α) : List α := table.entries.map (·.2)

def size (table : Dict α) : Nat := table.entries.length

def isEmpty (table : Dict α) : Bool := table.entries.isEmpty

/-- Erasing an entry makes the table smaller. -/
theorem size_erase_lt {table : Dict α} {key : String} {value : α}
    (h : table.get? key = some value) : (table.erase key).size < table.size := by
  refine List.length_filter_lt_length_iff_exists.2 ⟨_, Entries.mem_of_get? h, ?_⟩
  simp

end Dict

end ApiFolio

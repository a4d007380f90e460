import ApiFolio.Proofs.Dict.Lookup
import ApiFolio.Proofs.Folder.Trie

/-!
# The records of a tree

The folders that a tag needs are kept side by side, under their paths. They stand for a tree
(`Represents`): the record at a path is that of the folder where the names of the path lead. Each
insertion keeps this, with the operation filed in the tree (`Represents.insert`).
-/

namespace ApiFolio.Export.FolderTree

open Collection (folderAt? itemsAt? Tidy)

/-- The records are those of the folders below a root, and no others. -/
structure Represents (records : Dict FolderRecord) (root : Collection) : Prop where
  get? : ∀ q n, (∀ m ∈ q ++ [n], IsName m) → records.get? (pathOf (q ++ [n])) =
    (itemsAt? (q ++ [n]) root).map fun items => ⟨n, pathOf q, items⟩
  key : ∀ key record, records.get? key = some record →
    ∃ q n, (∀ m ∈ q ++ [n], IsName m) ∧ key = pathOf (q ++ [n])

/-! ## Creating folders -/

theorem ensure_path (records : Dict FolderRecord) (p names : List String) :
    (ensure records (pathOf p) names).2 = pathOf (p ++ names) := by
  induction names generalizing records p with
  | nil => simp [ensure]
  | cons n below ih =>
    rw [ensure, ← pathOf_concat, ih, List.append_assoc, List.singleton_append]

/-- A path goes at least one name further than `p` towards `p ++ names`. -/
theorem prefix_cons_iff {p q below : List String} {n m : String} :
    (p <+: q ∧ q ++ [n] <+: p ++ m :: below) ↔
      p ++ [m] = q ++ [n] ∨ (p ++ [m] <+: q ∧ q ++ [n] <+: p ++ [m] ++ below) := by
  constructor
  · rintro ⟨⟨t, rfl⟩, h⟩
    rw [List.append_assoc, List.prefix_append_right_inj] at h
    cases t with
    | nil =>
      obtain ⟨rfl, -⟩ := List.cons_prefix_cons.1 h
      exact .inl (by simp)
    | cons m' t =>
      obtain ⟨rfl, h⟩ := List.cons_prefix_cons.1 h
      exact .inr ⟨⟨t, by simp⟩, by simpa using h⟩
  · rintro (h | ⟨⟨t, rfl⟩, h⟩)
    · obtain ⟨rfl, hm⟩ := List.append_inj' h rfl
      cases hm
      exact ⟨List.prefix_rfl, by simp⟩
    · exact ⟨⟨m :: t, by simp⟩, by simpa using h⟩

/-- After creating the folders on the way from `p` along `names`, these exist; one that was there
before is as it was, a new one is empty. -/
theorem get?_ensure (records : Dict FolderRecord) {p names q : List String} {n : String}
    (hp : ∀ m ∈ p ++ names, IsName m) (hq : ∀ m ∈ q ++ [n], IsName m) :
    (ensure records (pathOf p) names).1.get? (pathOf (q ++ [n])) =
      (records.get? (pathOf (q ++ [n]))).or
        (if p <+: q ∧ q ++ [n] <+: p ++ names then some ⟨n, pathOf q, []⟩ else none) := by
  induction names generalizing records p with
  | nil =>
    have hlong : ¬(p <+: q ∧ q ++ [n] <+: p ++ []) := by
      rintro ⟨h₁, h₂⟩
      have h₁ := h₁.length_le
      have h₂ := h₂.length_le
      simp at h₂
      omega
    rw [if_neg hlong, Option.or_none, ensure]
  | cons m below ih =>
    have hpm : ∀ k ∈ p ++ [m], IsName k := fun k hk => hp k (by
      rcases List.mem_append.1 hk with hk | hk
      · exact List.mem_append_left _ hk
      · exact List.mem_append_right _ (List.mem_cons.2 (.inl (List.mem_singleton.1 hk))))
    have hkey : pathOf (p ++ [m]) = pathOf (q ++ [n]) ↔ p ++ [m] = q ++ [n] :=
      ⟨pathOf_injective hpm hq, congrArg pathOf⟩
    rw [ensure, ← pathOf_concat, ih _ (by simpa using hp), Dict.get?_insertIfNew, Option.or_assoc]
    congr 1
    simp only [hkey, prefix_cons_iff]
    by_cases h : p ++ [m] = q ++ [n]
    · obtain ⟨rfl, hm⟩ := List.append_inj' h rfl
      cases hm
      simp
    · simp only [h, false_or, if_false, Option.none_or]

/-- Creating folders makes no records but those on the path. -/
theorem key_ensure (records : Dict FolderRecord) {p names : List String}
    (hp : ∀ m ∈ p ++ names, IsName m) {key : String} {record : FolderRecord}
    (h : (ensure records (pathOf p) names).1.get? key = some record) :
    records.get? key = some record ∨
      ∃ q n, (∀ m ∈ q ++ [n], IsName m) ∧ key = pathOf (q ++ [n]) := by
  induction names generalizing records p with
  | nil => exact .inl h
  | cons m below ih =>
    have hpm : ∀ k ∈ p ++ [m], IsName k := fun k hk => hp k (by
      rcases List.mem_append.1 hk with hk | hk
      · exact List.mem_append_left _ hk
      · exact List.mem_append_right _ (List.mem_cons.2 (.inl (List.mem_singleton.1 hk))))
    rw [ensure, ← pathOf_concat] at h
    rcases ih _ (by simpa using hp) h with h | h
    · rw [Dict.get?_insertIfNew, Option.or_eq_some_iff] at h
      rcases h with h | ⟨-, h⟩
      · exact .inl h
      · rw [Option.ite_none_right_eq_some] at h
        exact .inr ⟨p, m, hpm, h.1.symm⟩
    · exact .inr h

/-! ## Adding operations -/

theorem get?_push (records : Dict FolderRecord) (path : String) (item : ApiItem) (key : String) :
    (push records path item).get? key =
      if path = key then
        (records.get? key).map fun r => { r with items := r.items ++ [item] }
      else records.get? key := by
  unfold push
  by_cases hk : path = key
  · subst hk
    cases h : records.get? path with
    | none => simp [h]
    | some record => simp [Dict.get?_insert]
  · cases h : records.get? path with
    | none => simp [hk]
    | some record => simp [Dict.get?_insert, hk]

/-- Filing an operation among the records files it in the tree that they stand for. -/
theorem Represents.file {records : Dict FolderRecord} {root : Collection}
    (h : Represents records root) (ht : Tidy root) (item : ApiItem) {names : List String}
    (hn : ∀ m ∈ names, IsName m) (hne : names ≠ []) :
    Represents (push (ensure records "" names).1 (ensure records "" names).2 item)
      (Collection.file item names root) := by
  have hpath : (ensure records "" names).2 = pathOf names := by
    simpa using ensure_path records [] names
  rw [hpath]
  constructor
  · intro q n hq
    have hkey : pathOf names = pathOf (q ++ [n]) ↔ q ++ [n] = names :=
      ⟨fun he => (pathOf_injective hn hq he).symm, fun he => he ▸ rfl⟩
    have hget := get?_ensure records (p := []) (by simpa using hn) hq
    simp only [pathOf_nil, List.nil_prefix, true_and, List.nil_append, h.get? q n hq] at hget
    rw [get?_push, hget, Collection.itemsAt?_file item names ht]
    simp only [hkey]
    by_cases hq' : q ++ [n] = names
    · subst hq'
      cases itemsAt? (q ++ [n]) root <;> simp
    · by_cases hpre : q ++ [n] <+: names
      · cases itemsAt? (q ++ [n]) root <;> simp [hq', hpre]
      · simp [hq', hpre]
  · intro key record hrec
    rw [get?_push] at hrec
    have hsome : ∃ r, (ensure records "" names).1.get? key = some r := by
      split at hrec
      · obtain ⟨r, hr, -⟩ := Option.map_eq_some_iff.1 hrec
        exact ⟨r, hr⟩
      · exact ⟨record, hrec⟩
    obtain ⟨r, hr⟩ := hsome
    rcases key_ensure records (p := []) (by simpa using hn) hr with hr | hr
    · exact h.key key r hr
    · exact hr

/-- Inserting under a tag gives the operation back if the tag has no segments, and otherwise files
it in the tree. -/
theorem Represents.insert {tree : FolderTree} {root : Collection}
    (h : Represents tree.records root) (ht : Tidy root) (tag : String) (item : ApiItem) :
    (segments tag = [] ∧ tree.insert tag item = (tree, some item)) ∨
      (segments tag ≠ [] ∧ (tree.insert tag item).2 = none ∧
        Represents (tree.insert tag item).1.records
          (Collection.file item (segments tag) root)) := by
  unfold FolderTree.insert
  cases hs : segments tag with
  | nil => exact .inl ⟨rfl, rfl⟩
  | cons s ss =>
    have hn : ∀ m ∈ s :: ss, IsName m := fun m hm => isName_of_mem_segments (hs ▸ hm)
    exact .inr ⟨List.cons_ne_nil _ _, rfl, h.file ht item hn (List.cons_ne_nil _ _)⟩

/-- Operations at the top are in no record. -/
theorem Represents.file_nil {records : Dict FolderRecord} {root : Collection}
    (h : Represents records root) (ht : Tidy root) (item : ApiItem) :
    Represents records (Collection.file item [] root) := by
  refine ⟨fun q n hq => ?_, h.key⟩
  rw [h.get? q n hq, Collection.itemsAt?_file item [] ht]
  simp

/-- The records after an insertion stand for the tree with the operation filed under the segments
of its tag. -/
theorem Represents.insert_file {tree : FolderTree} {root : Collection}
    (h : Represents tree.records root) (ht : Tidy root) (tag : String) (item : ApiItem) :
    Represents (tree.insert tag item).1.records (Collection.file item (segments tag) root) := by
  rcases h.insert ht tag item with ⟨hs, hi⟩ | ⟨-, -, hfile⟩
  · rw [hs, hi]
    exact h.file_nil ht item
  · exact hfile

theorem represents_empty (name : String) (items : List ApiItem) :
    Represents ∅ { name, items } := by
  constructor
  · intro q n _
    cases q <;> simp [itemsAt?, folderAt?, Collection.child?]
  · intro key record h
    cases h

end ApiFolio.Export.FolderTree

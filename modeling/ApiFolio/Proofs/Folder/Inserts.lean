import ApiFolio.Proofs.Folder.Records

/-!
# After any insertions

Operations are filed under tags one after the other. In the tree that the records stand for, a
folder exists if its names are the beginning of the segments of a tag, and it holds what was filed
under exactly these segments, in the order in which it came (`itemsAt?_fileEach`). The records say
the same of their keys (`recordsOf_insertAll`): names, parents and keys agree, since the segments
of a tag survive being joined and split again.
-/

namespace ApiFolio.Export

namespace Collection

open FolderTree (IsName)

/-! ## Filing one after the other -/

/-- The tree after filing operations one after the other, each where its names lead. -/
def fileEach (calls : List (List String × ApiItem)) (root : Collection) : Collection :=
  calls.foldl (fun c call => file call.2 call.1 c) root

variable {calls : List (List String × ApiItem)} {root : Collection}

theorem Tidy.fileEach (hn : ∀ call ∈ calls, ∀ n ∈ call.1, IsName n) (h : Tidy root) :
    Tidy (Collection.fileEach calls root) := by
  induction calls generalizing root with
  | nil => exact h
  | cons call rest ih =>
    exact ih (fun c hc => hn c (List.mem_cons_of_mem _ hc))
      (h.file call.2 (hn call List.mem_cons_self))

/-- The folders are those on the way to an operation; each holds the operations filed there. -/
theorem itemsAt?_fileEach (hn : ∀ call ∈ calls, ∀ n ∈ call.1, IsName n) (name : String)
    (q : List String) :
    itemsAt? q (fileEach calls { name }) =
      if q = [] ∨ ∃ call ∈ calls, q <+: call.1 then
        some ((calls.filter fun call => call.1 = q).map (·.2))
      else none := by
  induction calls using List.reverseRecOn with
  | nil => cases q <;> simp [fileEach, itemsAt?, folderAt?, child?]
  | append_singleton front call ih =>
    have hfront : ∀ c ∈ front, ∀ n ∈ c.1, IsName n :=
      fun c hc => hn c (List.mem_append_left _ hc)
    have ih := ih hfront
    -- a folder that was not there before holds nothing that came before
    have hheld : (itemsAt? q (fileEach front { name })).getD [] =
        (front.filter fun c => c.1 = q).map (·.2) := by
      rw [ih]
      split
      · rfl
      · rename_i hnew
        have hempty : front.filter (fun c => c.1 = q) = [] := by
          refine List.filter_eq_nil_iff.2 fun c hc hdec => hnew (.inr ⟨c, hc, ?_⟩)
          have heq : c.1 = q := of_decide_eq_true hdec
          exact heq ▸ List.prefix_rfl
        rw [hempty]
        rfl
    have hfolder : (q = [] ∨ ∃ c ∈ front ++ [call], q <+: c.1) ↔
        (q = [] ∨ ∃ c ∈ front, q <+: c.1) ∨ q <+: call.1 := by
      simp [or_and_right, exists_or, or_assoc]
    have hlast : fileEach (front ++ [call]) { name } =
        file call.2 call.1 (fileEach front { name }) := by
      simp [fileEach]
    rw [hlast, itemsAt?_file call.2 call.1 ((Tidy.empty name).fileEach hfront), hheld, ih]
    by_cases hq : q = call.1
    · subst hq
      simp
    · have hfilter : (front ++ [call]).filter (fun c => c.1 = q) =
          front.filter fun c => c.1 = q := by
        simp [Ne.symm hq]
      rw [if_neg hq, hfilter]
      by_cases hway : q <+: call.1
      · rw [if_pos hway, if_pos (hfolder.2 (.inr hway))]
      · rw [if_neg hway]
        exact (if_congr (hfolder.trans (or_iff_left hway)) rfl rfl).symm

/-- Filing operations one after the other adds each where its names lead. -/
theorem placed_fileEach (calls : List (List String × ApiItem)) (root : Collection) :
    (fileEach calls root).placed.Perm (root.placed ++ calls) := by
  induction calls generalizing root with
  | nil => simp [fileEach]
  | cons call rest ih =>
    refine (ih _).trans ?_
    rw [List.append_cons]
    exact (placed_file call.2 call.1 root).append_right _

end Collection

namespace FolderTree

open Collection (itemsAt? fileEach Tidy)

/-- The tree after filing operations under tags, one after the other. -/
def insertAll (calls : List (String × ApiItem)) : FolderTree :=
  calls.foldl (fun tree call => (tree.insert call.1 call.2).1) {}

/-- The operations with the segments of their tags. -/
def bySegments (calls : List (String × ApiItem)) : List (List String × ApiItem) :=
  calls.map fun call => (segments call.1, call.2)

theorem isName_of_mem_bySegments {calls : List (String × ApiItem)} :
    ∀ call ∈ bySegments calls, ∀ n ∈ call.1, IsName n := by
  intro call hcall n hn
  obtain ⟨c, -, rfl⟩ := List.mem_map.1 hcall
  exact isName_of_mem_segments hn

/-- Insertions one after the other file the operations in the tree that the records stand for. -/
theorem represents_insertAll (calls : List (String × ApiItem)) (name : String) :
    Represents (insertAll calls).records (fileEach (bySegments calls) { name }) := by
  induction calls using List.reverseRecOn with
  | nil => exact represents_empty name []
  | append_singleton front call ih =>
    have htidy : Tidy (fileEach (bySegments front) { name }) :=
      (Tidy.empty name).fileEach isName_of_mem_bySegments
    have htree : insertAll (front ++ [call]) = ((insertAll front).insert call.1 call.2).1 := by
      simp [insertAll]
    have hroot : fileEach (bySegments (front ++ [call])) { name } =
        Collection.file call.2 (segments call.1) (fileEach (bySegments front) { name }) := by
      simp [fileEach, bySegments]
    rw [htree, hroot]
    exact ih.insert_file htidy call.1 call.2

/-! ## What the records say -/

/-- The names lead to the folder of a tag or to one that it stands in. -/
def LeadsToward (calls : List (String × ApiItem)) (names : List String) : Prop :=
  names ≠ [] ∧ ∃ call ∈ calls, names <+: segments call.1

/-- A record agrees with its key: the segments of the key end in the name of the folder, and those
before it make the path of the folder above, which is recorded too. -/
structure FitsKey (tree : FolderTree) (key : String) (record : FolderRecord) : Prop where
  rejoined : Text.join "/" (segments key) = key
  name_eq : (segments key).getLast? = some record.name
  name_ne_empty : record.name ≠ ""
  name_trimmed : Text.trim record.name = record.name
  slash_notMem_name : '/' ∉ record.name.toList
  parent_eq : record.parent = Text.join "/" (segments key).dropLast
  parent_recorded : ((segments key).length = 1 ∧ record.parent = "") ∨
    (1 < (segments key).length ∧ ∃ above, tree.get? record.parent = some above)

/-- The records of a tree are those of the folders that operations filed under tags need, and each
holds the operations filed under its own segments. -/
structure RecordsOf (tree : FolderTree) (calls : List (String × ApiItem)) : Prop where
  key_iff : ∀ key, (∃ record, tree.get? key = some record) ↔
    ∃ names, LeadsToward calls names ∧ key = Text.join "/" names
  segments_join : ∀ names, LeadsToward calls names → segments (Text.join "/" names) = names
  fits : ∀ key record, tree.get? key = some record → FitsKey tree key record
  items : ∀ tag record, tree.get? (Text.join "/" (segments tag)) = some record →
    record.items = (calls.filter fun call => segments call.1 = segments tag).map (·.2)

variable {calls : List (String × ApiItem)}

theorem LeadsToward.isName {names : List String} (h : LeadsToward calls names) :
    ∀ n ∈ names, IsName n := by
  obtain ⟨-, call, -, hway⟩ := h
  exact fun n hn => isName_of_mem_segments (hway.subset hn)

theorem LeadsToward.segments_join {names : List String} (h : LeadsToward calls names) :
    segments (Text.join "/" names) = names := by
  refine FolderTree.segments_join h.isName fun n hn => ?_
  obtain ⟨-, call, -, hway⟩ := h
  exact trim_of_mem_segments (hway.subset hn)

/-- The folder above one that leads toward a tag leads there too. -/
theorem LeadsToward.above {front : List String} {last : String}
    (h : LeadsToward calls (front ++ [last])) (hfront : front ≠ []) : LeadsToward calls front := by
  obtain ⟨-, call, hcall, hway⟩ := h
  exact ⟨hfront, call, hcall, (List.prefix_append front [last]).trans hway⟩

/-- What is recorded of a folder: its name, the path of the folder above, and the operations filed
there. -/
def recordAt (calls : List (String × ApiItem)) (front : List String) (last : String) :
    FolderRecord where
  name := last
  parent := Text.join "/" front
  items := (calls.filter fun call => segments call.1 = front ++ [last]).map (·.2)

/-- The operations filed under a list of segments, in the order in which they came. -/
def itemsUnder (names : List String) (calls : List (String × ApiItem)) : List ApiItem :=
  (calls.filter fun call => segments call.1 = names).map (·.2)

/-- What the tree that the records stand for holds where names lead, told by the tags. -/
theorem itemsAt?_bySegments (calls : List (String × ApiItem)) (name : String) {names : List String}
    (hne : names ≠ []) :
    itemsAt? names (fileEach (bySegments calls) { name }) =
      if ∃ call ∈ calls, names <+: segments call.1 then some (itemsUnder names calls)
      else none := by
  have hway : (names = [] ∨ ∃ call ∈ bySegments calls, names <+: call.1) ↔
      ∃ call ∈ calls, names <+: segments call.1 := by
    rw [or_iff_right hne]
    unfold bySegments
    constructor
    · rintro ⟨_, hmem, hbegins⟩
      obtain ⟨call, hcall, rfl⟩ := List.mem_map.1 hmem
      exact ⟨call, hcall, hbegins⟩
    · rintro ⟨call, hcall, hbegins⟩
      exact ⟨_, List.mem_map_of_mem hcall, hbegins⟩
  have hheld : ((bySegments calls).filter fun call => call.1 = names).map (·.2) =
      itemsUnder names calls := by
    simp [bySegments, itemsUnder, List.filter_map, Function.comp_def]
  rw [Collection.itemsAt?_fileEach isName_of_mem_bySegments, hheld]
  exact if_congr hway rfl rfl

/-- The record of a folder, told by the names that lead to it. -/
theorem get?_join {front : List String} {last : String} (hn : ∀ n ∈ front ++ [last], IsName n) :
    (insertAll calls).get? (Text.join "/" (front ++ [last])) =
      if ∃ call ∈ calls, front ++ [last] <+: segments call.1 then some (recordAt calls front last)
      else none := by
  have hfront : ∀ n ∈ front, IsName n := fun n hm => hn n (List.mem_append_left _ hm)
  have hget := (represents_insertAll calls "").get? front last hn
  rw [itemsAt?_bySegments calls "" (by simp)] at hget
  rw [join_eq_pathOf hn]
  refine hget.trans ?_
  unfold recordAt
  rw [join_eq_pathOf hfront]
  by_cases hcall : ∃ call ∈ calls, front ++ [last] <+: segments call.1
  · rw [if_pos hcall, if_pos hcall, Option.map_some, itemsUnder]
  · rw [if_neg hcall, if_neg hcall, Option.map_none]

theorem get?_of_leadsToward {front : List String} {last : String}
    (h : LeadsToward calls (front ++ [last])) :
    (insertAll calls).get? (Text.join "/" (front ++ [last])) =
      some (recordAt calls front last) := by
  rw [get?_join h.isName, if_pos h.2]

theorem exists_leadsToward {key : String} {record : FolderRecord}
    (h : (insertAll calls).get? key = some record) :
    ∃ front last, LeadsToward calls (front ++ [last]) ∧
      key = Text.join "/" (front ++ [last]) ∧ record = recordAt calls front last := by
  obtain ⟨front, last, hn, hkey⟩ := (represents_insertAll calls "").key key record h
  rw [← join_eq_pathOf hn] at hkey
  subst hkey
  rw [get?_join hn] at h
  split at h
  · rename_i hcall
    exact ⟨front, last, ⟨by simp, hcall⟩, rfl, (Option.some.inj h).symm⟩
  · cases h

theorem LeadsToward.fitsKey {front : List String} {last : String}
    (h : LeadsToward calls (front ++ [last])) :
    FitsKey (insertAll calls) (Text.join "/" (front ++ [last])) (recordAt calls front last) := by
  have hlast : last ∈ front ++ [last] := by simp
  obtain ⟨call, -, hway⟩ := h.2
  have hparent : ((front ++ [last]).length = 1 ∧ Text.join "/" front = "") ∨
      (1 < (front ++ [last]).length ∧
        ∃ above, (insertAll calls).get? (Text.join "/" front) = some above) := by
    rcases List.eq_nil_or_concat front with rfl | ⟨upper, name, rfl⟩
    · exact .inl ⟨rfl, rfl⟩
    · rw [List.concat_eq_append] at h ⊢
      refine .inr ⟨by simp, _, get?_of_leadsToward (h.above (by simp))⟩
  constructor
  · rw [h.segments_join]
  · rw [h.segments_join]
    exact List.getLast?_concat
  · exact (h.isName last hlast).ne_empty
  · exact trim_of_mem_segments (hway.subset hlast)
  · exact (h.isName last hlast).not_mem
  · rw [h.segments_join, List.dropLast_concat]
    rfl
  · rw [h.segments_join]
    exact hparent

/-- After any insertions the records are those of the folders that the tags need, with the
operations filed there. Inserting under a tag without segments gives the operation back and changes
nothing; any other insertion keeps the operation. -/
theorem recordsOf_insertAll (calls : List (String × ApiItem)) :
    RecordsOf (insertAll calls) calls ∧ ∀ tag item,
      (segments tag = [] → (insertAll calls).insert tag item = (insertAll calls, some item)) ∧
      (segments tag ≠ [] → ((insertAll calls).insert tag item).2 = none) := by
  constructor
  · constructor
    · intro key
      constructor
      · rintro ⟨record, hget⟩
        obtain ⟨front, last, h, hkey, -⟩ := exists_leadsToward hget
        exact ⟨_, h, hkey⟩
      · rintro ⟨names, h, rfl⟩
        obtain ⟨front, last, rfl⟩ := (List.eq_nil_or_concat names).resolve_left h.1
        rw [List.concat_eq_append] at h ⊢
        exact ⟨_, get?_of_leadsToward h⟩
    · intro names h
      exact h.segments_join
    · intro key record hget
      obtain ⟨front, last, h, rfl, rfl⟩ := exists_leadsToward hget
      exact h.fitsKey
    · intro tag record hget
      obtain ⟨front, last, h, hkey, rfl⟩ := exists_leadsToward hget
      -- the key is split into the segments of the tag
      have hsegments : segments tag = front ++ [last] := by
        rw [← h.segments_join, ← hkey, segments_join (fun n hn => isName_of_mem_segments hn)
          fun n hn => trim_of_mem_segments hn]
      rw [hsegments]
      rfl
  · intro tag item
    unfold FolderTree.insert
    cases segments tag with
    | nil => exact ⟨fun _ => rfl, fun hne => absurd rfl hne⟩
    | cons s ss => exact ⟨fun hnil => (List.cons_ne_nil s ss hnil).elim, fun _ => rfl⟩

end FolderTree

end ApiFolio.Export

import ApiFolio.Proofs.Folder.Trie

/-!
# Putting a tree in order

Sorting moves operations within their folder and folders among their siblings: it changes neither
where an operation is placed (`placed_sort`) nor which folders there are (`hasFolder_sort`). Every
folder of the sorted tree is one of the tree, sorted (`exists_of_mem_folders_sort`): its operations
and the folders in it are in order, and what is equal in this order stands as before
(`filter_mergeSort`).
-/

namespace ApiFolio.Export.Collection

theorem sortAll_eq_map (cs : List Collection) : sortAll cs = cs.map sort := by
  induction cs with
  | nil => rfl
  | cons c rest ih => rw [sortAll, ih, List.map_cons]

@[simp] theorem name_sort (c : Collection) : c.sort.name = c.name := by
  cases c; rw [sort]

theorem items_sort (c : Collection) : c.sort.items = c.items.mergeSort itemLe := by
  cases c; rw [sort]

theorem children_sort (c : Collection) :
    c.sort.children = (c.children.map sort).mergeSort nameGe := by
  cases c; rw [sort, sortAll_eq_map]

theorem flatMap_perm_of_forall {α β : Type} {l : List α} {f g : α → List β}
    (h : ∀ a ∈ l, (f a).Perm (g a)) : (l.flatMap f).Perm (l.flatMap g) := by
  induction l with
  | nil => exact List.Perm.refl _
  | cons a rest ih =>
    rw [List.flatMap_cons, List.flatMap_cons]
    exact (h a List.mem_cons_self).append (ih fun b hb => h b (List.mem_cons_of_mem _ hb))

/-- Sorting places no operation elsewhere. -/
theorem placed_sort (c : Collection) : c.sort.placed.Perm c.placed := by
  induction c using inside_induction with
  | h name items children ih =>
    rw [placed_eq, placed_eq, items_sort, children_sort]
    refine ((List.mergeSort_perm _ _).map _).append ?_
    refine ((List.mergeSort_perm _ _).flatMap_right _).trans ?_
    rw [List.flatMap_map]
    refine flatMap_perm_of_forall fun d hd => ?_
    rw [placedIn, name_sort]
    exact (ih d hd).map _

/-- Sorting makes and loses no folder. -/
theorem hasFolder_sort (names : List String) (c : Collection) :
    HasFolder names c.sort ↔ HasFolder names c := by
  induction names generalizing c with
  | nil => exact Iff.rfl
  | cons n below ih =>
    rw [HasFolder, HasFolder, children_sort]
    constructor
    · rintro ⟨d, hd, hname, hbelow⟩
      obtain ⟨e, he, rfl⟩ := List.mem_map.1 (List.mem_mergeSort.1 hd)
      exact ⟨e, he, (name_sort e).symm.trans hname, (ih e).1 hbelow⟩
    · rintro ⟨e, he, hname, hbelow⟩
      exact ⟨e.sort, List.mem_mergeSort.2 (List.mem_map_of_mem he), (name_sort e).trans hname,
        (ih e).2 hbelow⟩

/-! ## The folders of a tree -/

mutual

/-- The folder and all folders inside it, each before those in it. -/
def folders : Collection → List Collection
  | .mk name items children => .mk name items children :: foldersOf children

/-- The folders and all folders inside them. -/
def foldersOf : List Collection → List Collection
  | [] => []
  | c :: rest => folders c ++ foldersOf rest

end

theorem foldersOf_eq (cs : List Collection) : foldersOf cs = cs.flatMap folders := by
  induction cs with
  | nil => rfl
  | cons c rest ih => rw [foldersOf, ih, List.flatMap_cons]

theorem mem_folders_iff {c d : Collection} :
    d ∈ c.folders ↔ d = c ∨ ∃ e ∈ c.children, d ∈ e.folders := by
  cases c
  rw [folders, foldersOf_eq, List.mem_cons, List.mem_flatMap]

theorem exists_of_mem_folders_sort {c d : Collection} (h : d ∈ c.sort.folders) :
    ∃ e ∈ c.folders, d = e.sort := by
  induction c using inside_induction with
  | h name items children ih =>
    rcases mem_folders_iff.1 h with rfl | ⟨e, he, hd⟩
    · exact ⟨_, mem_folders_iff.2 (.inl rfl), rfl⟩
    · rw [children_sort] at he
      obtain ⟨child, hchild, rfl⟩ := List.mem_map.1 (List.mem_mergeSort.1 he)
      obtain ⟨inner, hinner, rfl⟩ := ih child hchild hd
      exact ⟨inner, mem_folders_iff.2 (.inr ⟨child, hchild, hinner⟩), rfl⟩

/-! ## The order in a folder -/

theorem itemLe_iff {a b : ApiItem} :
    itemLe a b = true ↔
      a.path < b.path ∨ a.path = b.path ∧ methodRank a.method ≤ methodRank b.method := by
  unfold itemLe
  by_cases h : a.path = b.path
  · simp [h]
  · simp [h]

theorem itemLe_trans (a b c : ApiItem) (hab : itemLe a b = true) (hbc : itemLe b c = true) :
    itemLe a c = true := by
  rw [itemLe_iff] at hab hbc ⊢
  rcases hab with hab | ⟨hab, hrank⟩
  · rcases hbc with hbc | ⟨hbc, -⟩
    · exact .inl (String.lt_trans hab hbc)
    · exact .inl (hbc ▸ hab)
  · rcases hbc with hbc | ⟨hbc, hrank'⟩
    · exact .inl (hab ▸ hbc)
    · exact .inr ⟨hab.trans hbc, hrank.trans hrank'⟩

theorem itemLe_total (a b : ApiItem) : (itemLe a b || itemLe b a) = true := by
  rw [Bool.or_eq_true, itemLe_iff, itemLe_iff]
  by_cases hpath : a.path = b.path
  · rcases Nat.le_total (methodRank a.method) (methodRank b.method) with hrank | hrank
    · exact .inl (.inr ⟨hpath, hrank⟩)
    · exact .inr (.inr ⟨hpath.symm, hrank⟩)
  · by_cases hlt : a.path < b.path
    · exact .inl (.inl hlt)
    · exact .inr (.inl (Entries.lt_of_not_lt_of_ne hlt hpath))

theorem nameGe_trans (a b c : Collection) (hab : nameGe a b = true) (hbc : nameGe b c = true) :
    nameGe a c = true := by
  unfold nameGe at *
  exact decide_eq_true (String.le_trans (of_decide_eq_true hbc) (of_decide_eq_true hab))

theorem nameGe_total (a b : Collection) : (nameGe a b || nameGe b a) = true := by
  unfold nameGe
  rw [Bool.or_eq_true, decide_eq_true_iff, decide_eq_true_iff]
  exact String.le_total b.name a.name

theorem pairwise_items_sort (c : Collection) : c.sort.items.Pairwise fun a b => itemLe a b := by
  rw [items_sort]
  exact List.pairwise_mergeSort itemLe_trans itemLe_total c.items

/-- Sorting leaves what is equal in the order as it stands. -/
theorem filter_mergeSort {α : Type} {le : α → α → Bool}
    (trans : ∀ a b c, le a b = true → le b c = true → le a c = true)
    (total : ∀ a b, (le a b || le b a) = true) {p : α → Bool}
    (hp : ∀ a b, p a = true → p b = true → le a b = true) (l : List α) :
    (l.mergeSort le).filter p = l.filter p := by
  have hordered : (l.filter p).Pairwise fun a b => le a b := by
    refine List.pairwise_of_forall_mem_list fun a ha b hb => ?_
    exact hp a b (List.mem_filter.1 ha).2 (List.mem_filter.1 hb).2
  have hsublist := (List.sublist_mergeSort trans total hordered List.filter_sublist).filter p
  rw [List.filter_filter] at hsublist
  simp only [Bool.and_self] at hsublist
  exact (hsublist.eq_of_length ((List.mergeSort_perm l le).filter p).length_eq.symm).symm

end ApiFolio.Export.Collection

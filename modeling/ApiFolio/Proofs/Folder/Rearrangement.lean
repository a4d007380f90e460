import Mathlib.Data.List.Forall2
import ApiFolio.Export.Result
import ApiFolio.Proofs.Export.OperationsAt

/-!
# Sorting as a rearrangement

Sorting puts a tree in order at every level (`inOrder_sort`) and does no more than that: in every
folder the operations and the folders change places among themselves, those that are equal in the
order stay as they stand (`rearranged_sort`), and a tree that is in order stays as it is
(`sort_of_inOrder`). So the operations of an export are the same before and after
(`sort_rearranges`).
-/

namespace ApiFolio.Export.Collection

/-- What the place of an operation depends on: its path, then the rank of its verb. -/
def itemKey (x : ApiItem) : String × Nat := (x.path, methodRank x.method)

/-- A list in another order in which the elements of each key stand as before. -/
structure StablePerm {α κ : Type} [DecidableEq κ] (key : α → κ) (l l' : List α) : Prop where
  perm : l'.Perm l
  stable : ∀ k, l'.filter (fun a => key a = k) = l.filter fun a => key a = k

/-- In every folder the operations stand by ascending path and then by the rank of their verbs, and
the folders by descending name. -/
inductive InOrder : Collection → Prop where
  | mk {name : String} {items : List ApiItem} {children : List Collection}
      (ascending : items.Pairwise fun a b =>
        a.path < b.path ∨ a.path = b.path ∧ methodRank a.method ≤ methodRank b.method)
      (descending : children.Pairwise fun a b => b.name ≤ a.name)
      (inside : ∀ d ∈ children, InOrder d) : InOrder (.mk name items children)

/-- The operations and the folders of every folder are put in another order, in which operations
with one path and rank, and folders with one name, stand as before. -/
inductive Rearranged : Collection → Collection → Prop where
  | mk {name : String} {items items' : List ApiItem} {children moved children' : List Collection}
      (operations : StablePerm itemKey items items')
      (inside : List.Forall₂ Rearranged children moved)
      (folders : StablePerm Collection.name moved children') :
      Rearranged (.mk name items children) (.mk name items' children')

/-! ## One level -/

theorem stablePerm_mergeSort {α κ : Type} [DecidableEq κ] {key : α → κ} {le : α → α → Bool}
    (trans : ∀ a b c, le a b = true → le b c = true → le a c = true)
    (total : ∀ a b, (le a b || le b a) = true)
    (hkey : ∀ a b, key a = key b → le a b = true) (l : List α) :
    StablePerm key l (l.mergeSort le) where
  perm := List.mergeSort_perm l le
  stable k := by
    refine filter_mergeSort trans total (fun a b ha hb => hkey a b ?_) l
    exact (of_decide_eq_true ha).trans (of_decide_eq_true hb).symm

theorem itemLe_of_itemKey {a b : ApiItem} (h : itemKey a = itemKey b) : itemLe a b = true := by
  obtain ⟨hpath, hrank⟩ := Prod.mk.inj h
  exact itemLe_iff.2 (.inr ⟨hpath, hrank.le⟩)

theorem nameGe_of_name {a b : Collection} (h : a.name = b.name) : nameGe a b = true :=
  decide_eq_true (h ▸ String.le_refl _)

/-! ## All levels -/

theorem inOrder_sort (c : Collection) : InOrder c.sort := by
  induction c using inside_induction with
  | h name items children ih =>
    have hitems := pairwise_items_sort (.mk name items children)
    rw [items_sort] at hitems
    rw [sort, sortAll_eq_map]
    refine .mk (hitems.imp itemLe_iff.1) ?_ fun d hd => ?_
    · exact (List.pairwise_mergeSort nameGe_trans nameGe_total _).imp of_decide_eq_true
    · obtain ⟨e, he, rfl⟩ := List.mem_map.1 (List.mem_mergeSort.1 hd)
      exact ih e he

theorem rearranged_sort (c : Collection) : Rearranged c c.sort := by
  induction c using inside_induction with
  | h name items children ih =>
    rw [sort, sortAll_eq_map]
    refine .mk (stablePerm_mergeSort itemLe_trans itemLe_total (fun _ _ => itemLe_of_itemKey) _) ?_
      (stablePerm_mergeSort nameGe_trans nameGe_total (fun _ _ => nameGe_of_name) _)
    rw [List.forall₂_map_right_iff, List.forall₂_same]
    exact ih

/-- A tree that is in order stays as it is. -/
theorem sort_of_inOrder {c : Collection} (h : InOrder c) : c.sort = c := by
  induction h with
  | @mk name items children ascending descending _ ih =>
    have hitems : items.mergeSort itemLe = items :=
      List.mergeSort_of_pairwise (ascending.imp itemLe_iff.2)
    have hinside : children.map sort = children :=
      (List.map_congr_left ih).trans (List.map_id children)
    have hchildren : children.mergeSort nameGe = children :=
      List.mergeSort_of_pairwise (descending.imp decide_eq_true)
    rw [sort, sortAll_eq_map, hitems, hinside, hchildren]

theorem allItems_sort_perm (c : Collection) : c.sort.allItems.Perm c.allItems := by
  rw [allItems_eq_placed, allItems_eq_placed]
  exact (placed_sort c).map _

/-! ## Exports -/

theorem allItemsOf_append (cs ds : List Collection) :
    allItemsOf (cs ++ ds) = allItemsOf cs ++ allItemsOf ds := by
  induction cs with
  | nil => rfl
  | cons c rest ih => rw [List.cons_append, allItemsOf, allItemsOf, ih, List.append_assoc]

/-- Sorting puts a tree in order at every level by moving operations and folders within their
folder, never past one that is equal in the order. A second time it changes nothing, and an export
with the sorted tree lists the same operations as one with the tree. -/
theorem sort_rearranges (c : Collection) :
    InOrder c.sort ∧ Rearranged c c.sort ∧ c.sort.sort = c.sort ∧
      ∀ (x : Result) (before after : List Collection),
        ({ x with httpCollections := before ++ c.sort :: after } : Result).apiItems.Perm
          ({ x with httpCollections := before ++ c :: after } : Result).apiItems := by
  refine ⟨inOrder_sort c, rearranged_sort c, sort_of_inOrder (inOrder_sort c),
    fun x before after => ?_⟩
  unfold Result.apiItems
  dsimp only
  rw [allItemsOf_append, allItemsOf_append, allItemsOf, allItemsOf]
  exact ((allItems_sort_perm c).append_right _).append_left _

end ApiFolio.Export.Collection

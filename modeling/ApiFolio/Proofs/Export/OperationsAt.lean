import ApiFolio.Proofs.Dict.Listing
import ApiFolio.Proofs.Export.Conservation
import ApiFolio.Proofs.OpenApi.Verbs

/-!
# Finding an operation in an export

An export holds one operation for each operation of a path, so path and verb find it again
(`operationsAt_convert`).
-/

namespace ApiFolio.Export

open OpenApi

namespace Collection

mutual

theorem allItems_eq_placed : (c : Collection) → c.allItems = c.placed.map (·.2)
  | .mk name items children => by
    rw [allItems, placed, List.map_append, List.map_map, allItemsOf_eq_placedAll children]
    exact congrArg (· ++ _) (List.map_id items).symm

theorem allItemsOf_eq_placedAll : (cs : List Collection) →
    allItemsOf cs = (placedAll cs).map (·.2)
  | [] => rfl
  | c :: rest => by
    rw [allItemsOf, placedAll, List.map_append, List.map_map, allItems_eq_placed c,
      allItemsOf_eq_placedAll rest]
    rfl

end

end Collection

/-- An export lists the operations of the document, in some order. -/
theorem apiItems_convert (doc : Document) (version : String) :
    (convert doc version).apiItems.Perm (documentItems doc) := by
  have hplaced : (collection doc).placed.Perm
      ((documentItems doc).map fun i => (homeOf i.tags, i)) := by
    rw [collection_eq]
    refine (Collection.placed_sort _).trans ((placed_fileAll _ _).trans ?_)
    simp [Collection.placed, Collection.placedAll]
  show (Collection.allItemsOf [collection doc]).Perm _
  rw [Collection.allItemsOf, Collection.allItemsOf, List.append_nil,
    Collection.allItems_eq_placed]
  refine (hplaced.map (·.2)).trans ?_
  rw [List.map_map]
  exact .of_eq (List.map_id _)

/-- The operations of an export under a path and a verb, without those of webhooks. -/
def Result.operationsAt (x : Result) (path method : String) : List ApiItem :=
  x.apiItems.filter fun i => i.path = path ∧ i.method = method ∧ i.webhook = false

variable {doc : Document} {path : String} {item : PathItem} {verb : Verb} {op : Operation}

theorem filter_apiItems (around : Surroundings) (hop : item.operation? verb = some op) :
    (around.apiItems path item false).filter
        (fun i => i.path = path ∧ i.method = verb.name ∧ i.webhook = false) =
      [around.apiItem path verb.name item op false] := by
  unfold Surroundings.apiItems PathItem.operations
  rw [List.map_filterMap, List.filterMap_eq_flatMap_toList, List.filter_flatMap,
    flatMap_eq_of_unique (by decide) verb.mem_all]
  · rw [hop]
    simp [Surroundings.apiItem]
  · intro v _ hne
    have hname : v.name ≠ verb.name := fun heq => hne (Verb.name_injective heq)
    cases item.operation? v with
    | none => rfl
    | some o => simp [Surroundings.apiItem, hname]

theorem operationsAt_convert (hitem : doc.paths.get? path = some item)
    (hop : item.operation? verb = some op) (version : String) :
    (convert doc version).operationsAt path verb.name =
      [(surroundings doc).apiItem path verb.name item op false] := by
  have hperm := (apiItems_convert doc version).filter
    fun i => i.path = path ∧ i.method = verb.name ∧ i.webhook = false
  suffices hfilter : (documentItems doc).filter
      (fun i => i.path = path ∧ i.method = verb.name ∧ i.webhook = false) =
      [(surroundings doc).apiItem path verb.name item op false] by
    rw [hfilter] at hperm
    exact List.perm_singleton.1 hperm
  have hwebhooks : ((webhooks doc).entries.flatMap
      fun e => (surroundings doc).apiItems e.1 e.2 true).filter
      (fun i => i.path = path ∧ i.method = verb.name ∧ i.webhook = false) = [] := by
    refine List.filter_eq_nil_iff.2 fun i hi => ?_
    obtain ⟨e, -, hi⟩ := List.mem_flatMap.1 hi
    obtain ⟨vo, -, rfl⟩ := List.mem_map.1 hi
    simp [Surroundings.apiItem]
  unfold documentItems
  rw [List.filter_append, hwebhooks, List.append_nil, List.filter_flatMap,
    flatMap_eq_of_unique doc.paths.sorted.nodup ((Dict.mem_entries _).2 hitem)]
  · exact filter_apiItems _ hop
  · intro e he hne
    have hpath : e.1 ≠ path := by
      intro heq
      have hget := (Dict.mem_entries _).1 (show (e.1, e.2) ∈ doc.paths.entries from he)
      rw [heq, hitem] at hget
      exact hne (Prod.ext heq (Option.some.inj hget).symm)
    refine List.filter_eq_nil_iff.2 fun i hi => ?_
    obtain ⟨vo, -, rfl⟩ := List.mem_map.1 hi
    simp [Surroundings.apiItem, hpath]

end ApiFolio.Export

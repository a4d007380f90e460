import ApiFolio.Proofs.Export.Conservation

/-!
# Changing the operations of a tree

A change of operations that leaves their tags, paths and verbs alone moves none of them: filing and
sorting the changed operations gives the tree of the changed operations (`fileAll_map`,
`sort_mapItems`).
-/

namespace ApiFolio.Export

namespace Collection

mutual

/-- The tree with every operation changed. -/
def mapItems (f : ApiItem → ApiItem) : Collection → Collection
  | .mk name items children => .mk name (items.map f) (mapItemsAll f children)

/-- The trees with every operation changed. -/
def mapItemsAll (f : ApiItem → ApiItem) : List Collection → List Collection
  | [] => []
  | c :: rest => mapItems f c :: mapItemsAll f rest

end

variable (f : ApiItem → ApiItem)

theorem mapItemsAll_eq (cs : List Collection) : mapItemsAll f cs = cs.map (mapItems f) := by
  induction cs with
  | nil => rfl
  | cons c rest ih => rw [mapItemsAll, ih, List.map_cons]

theorem name_mapItems (c : Collection) : (c.mapItems f).name = c.name := by
  cases c; rw [mapItems]

theorem change_map {name : String} {g h : Collection → Collection}
    (hg : ∀ c, h (c.mapItems f) = (g c).mapItems f) (cs : List Collection) :
    change name h (cs.map (mapItems f)) = (change name g cs).map (mapItems f) := by
  have hnew : h { name } = (g { name }).mapItems f := by
    rw [← hg, mapItems, mapItemsAll, List.map_nil]
  induction cs with
  | nil => exact congrArg (fun c => [c]) hnew
  | cons c rest ih =>
    rw [List.map_cons, change, change, name_mapItems]
    split
    · rw [hnew, List.map_cons, List.map_cons]
    · split
      · rw [hg, List.map_cons]
      · rw [ih, List.map_cons]

theorem file_mapItems (item : ApiItem) (names : List String) (c : Collection) :
    file (f item) names (c.mapItems f) = (file item names c).mapItems f := by
  induction names generalizing c with
  | nil =>
    cases c
    rw [file, file, mapItems, mapItems, List.map_append, List.map_singleton]
  | cons name below ih =>
    cases c with
    | mk own items children =>
      rw [file, file, mapItems, mapItems, mapItemsAll_eq, mapItemsAll_eq, change_map f ih]

/-- Sorting looks at nothing but path and verb. -/
theorem sort_mapItems (hpath : ∀ i, (f i).path = i.path) (hmethod : ∀ i, (f i).method = i.method)
    (c : Collection) : (c.mapItems f).sort = c.sort.mapItems f := by
  induction c using inside_induction with
  | h name items children ih =>
    have hitems : (items.map f).mergeSort itemLe = (items.mergeSort itemLe).map f := by
      refine (List.map_mergeSort fun a _ b _ => ?_).symm
      unfold itemLe
      rw [hpath, hpath, hmethod, hmethod]
    have hchildren : ((children.map (mapItems f)).map sort).mergeSort nameGe =
        ((children.map sort).mergeSort nameGe).map (mapItems f) := by
      have hmap : (children.map (mapItems f)).map sort = (children.map sort).map (mapItems f) := by
        rw [List.map_map, List.map_map]
        exact List.map_congr_left ih
      rw [hmap]
      refine (List.map_mergeSort fun a _ b _ => ?_).symm
      unfold nameGe
      rw [name_mapItems, name_mapItems]
    rw [mapItems, sort, sort, mapItems, mapItemsAll_eq, mapItemsAll_eq, sortAll_eq_map,
      sortAll_eq_map, hitems, hchildren]

end Collection

theorem fileAll_map {f : ApiItem → ApiItem} (htags : ∀ i, (f i).tags = i.tags)
    (items : List ApiItem) (root : Collection) :
    fileAll (items.map f) (root.mapItems f) = (fileAll items root).mapItems f := by
  induction items generalizing root with
  | nil => rfl
  | cons i rest ih =>
    show fileAll (rest.map f) (Collection.file (f i) (homeOf (f i).tags) (root.mapItems f)) = _
    rw [htags, Collection.file_mapItems, ih]
    rfl

/-- The collection of a document whose operations are those of another one with a change that
moves none of them. -/
theorem collection_of_documentItems {f : ApiItem → ApiItem} (htags : ∀ i, (f i).tags = i.tags)
    (hpath : ∀ i, (f i).path = i.path) (hmethod : ∀ i, (f i).method = i.method)
    {doc doc' : OpenApi.Document} (h : documentItems doc' = (documentItems doc).map f) :
    collection doc' = (collection doc).mapItems f := by
  have hroot : ({ name := defaultFolder } : Collection) =
      Collection.mapItems f { name := defaultFolder } := by
    rw [Collection.mapItems, Collection.mapItemsAll, List.map_nil]
  rw [collection_eq, collection_eq, h, hroot, fileAll_map htags,
    Collection.sort_mapItems f hpath hmethod, ← hroot]

end ApiFolio.Export

import ApiFolio.Proofs.Dict.Lookup
import ApiFolio.Proofs.OpenApi.Verbs
import ApiFolio.Proofs.Validation.References

/-!
# Documents without issues

The issues of an operation, of a path and of the components are issues of the document
(`operation_subset_document`, `path_subset_document`, `components_subset_document`), and a pointer
that leads nowhere is one (`unresolved_mem_document`). So in a document without issues a parameter
that an operation is given stands in a known place, or it is pointed at in a way that looking it up
does not follow (`resolves_or_pointsAside`).
-/

namespace ApiFolio.Validation

open OpenApi

/-! ## The parts of the issues of a document -/

theorem operation_subset_operations (components : Option Components) (uses : Uses) {x : Located}
    {xs : List Located} (h : x ∈ xs) :
    ∃ previous, operation components previous x ⊆ operations components uses xs := by
  induction xs generalizing uses with
  | nil => cases h
  | cons y rest ih =>
    rcases List.mem_cons.1 h with rfl | h
    · exact ⟨_, List.subset_append_left _ _⟩
    · obtain ⟨previous, hsubset⟩ := ih (uses.note y) h
      exact ⟨previous, List.subset_append_of_subset_right _ hsubset⟩

theorem path_subset_paths (components : Option Components) (uses : Uses) {e : String × PathItem}
    {entries : List (String × PathItem)} (h : e ∈ entries) :
    ∃ before, path e.1 e.2 ++ operations components before (located e.1 e.2) ⊆
      paths components uses entries := by
  induction entries generalizing uses with
  | nil => cases h
  | cons f rest ih =>
    rcases List.mem_cons.1 h with rfl | h
    · exact ⟨_, List.subset_append_left _ _⟩
    · obtain ⟨before, hsubset⟩ := ih _ h
      exact ⟨before, List.subset_append_of_subset_right _ hsubset⟩

section Parts

variable {doc : Document} {key : String} {item : PathItem} {verb : Verb} {op : Operation}

/-- The operation that a path item has under a verb, with its place. -/
def placeOf (key : String) (item : PathItem) (verb : Verb) (op : Operation) : Located :=
  ⟨"paths." ++ key ++ "." ++ verb.name, key, item, op⟩

theorem placeOf_mem_located (hop : item.operation? verb = some op) :
    placeOf key item verb op ∈ located key item :=
  List.mem_map.2 ⟨(verb, op), PathItem.mem_operations_iff.2 hop, rfl⟩

theorem placeOf_mem_documentOperations (hitem : doc.paths.get? key = some item)
    (hop : item.operation? verb = some op) :
    placeOf key item verb op ∈ documentOperations doc :=
  List.mem_flatMap.2 ⟨(key, item), (Dict.mem_entries _).2 hitem, placeOf_mem_located hop⟩

theorem paths_subset_document (doc : Document) :
    paths doc.components [] doc.paths.entries ⊆ document doc := by
  unfold document
  intro issue h
  simp [h]

theorem path_subset_document (hitem : doc.paths.get? key = some item) :
    path key item ⊆ document doc := by
  obtain ⟨before, hsubset⟩ :=
    path_subset_paths doc.components [] ((Dict.mem_entries _).2 hitem)
  intro issue h
  exact paths_subset_document doc (hsubset (List.mem_append_left _ h))

theorem operation_subset_document (hitem : doc.paths.get? key = some item)
    (hop : item.operation? verb = some op) :
    ∃ previous, operation doc.components previous (placeOf key item verb op) ⊆ document doc := by
  obtain ⟨before, hpath⟩ := path_subset_paths doc.components [] ((Dict.mem_entries _).2 hitem)
  obtain ⟨previous, hoperation⟩ :=
    operation_subset_operations doc.components before (placeOf_mem_located hop)
  refine ⟨previous, fun issue h => ?_⟩
  exact paths_subset_document doc (hpath (List.mem_append_right _ (hoperation h)))

theorem components_subset_document {c : Components} (hc : doc.components = some c) :
    components c ⊆ document doc := by
  unfold document
  rw [hc]
  intro issue h
  simp [h]

/-- A pointer that leads nowhere is told. -/
theorem unresolved_mem_document {location pointer : String}
    (hmem : (location, pointer) ∈ locatedPointers doc)
    (hdangling : isDangling doc.components pointer = true) :
    ⟨location, unresolved pointer⟩ ∈ document doc := by
  refine List.mem_append_right _ (List.mem_filterMap.2 ⟨(location, pointer), hmem, ?_⟩)
  rw [if_pos hdangling]
  rfl

theorem mem_locatedPointers {x : Located} {pointer : String} (hx : x ∈ documentOperations doc)
    (h : pointer ∈ x.pointers) : (x.location, pointer) ∈ locatedPointers doc :=
  List.mem_append_left _ (List.mem_flatMap.2 ⟨x, hx, List.mem_map_of_mem h⟩)

end Parts

/-! ## Parameters without issues -/

theorem location_of_parameter_eq_nil {location : String} {p : Parameter}
    (h : parameter location p = []) : p.location ∈ parameterLocations := by
  have hlocation := (List.append_eq_nil_iff.1 h).2
  by_cases hknown : parameterLocations.contains p.location = true
  · exact List.contains_iff_mem.1 hknown
  · simp only [hknown] at hlocation
    cases hlocation

theorem location_of_parameters_eq_nil {location : String} {ps : List (Referable Parameter)}
    (h : parameters location ps = []) {p : Parameter} (hp : .item p ∈ ps) :
    p.location ∈ parameterLocations := by
  obtain ⟨n, hn⟩ := List.mem_iff_getElem?.1 hp
  have hentry := List.flatMap_eq_nil_iff.1 h (.item p, n) (List.mem_zipIdx_iff_getElem?.2 hn)
  exact location_of_parameter_eq_nil hentry

theorem location_of_components_eq_nil {c : Components} (h : components c = []) {name : String}
    {p : Parameter} (hp : c.parameters.get? name = some (.item p)) :
    p.location ∈ parameterLocations := by
  have hparameters := (List.append_eq_nil_iff.1 (List.append_eq_nil_iff.1 h).1).2
  have hentry := List.flatMap_eq_nil_iff.1 hparameters (name, .item p) ((Dict.mem_entries _).2 hp)
  exact location_of_parameter_eq_nil hentry

/-- A pointer that names no parameter, or one that is again a pointer. -/
def PointsAside (components : Option Components) (r : Referable Parameter) : Prop :=
  ∃ pointer, r = .ref pointer ∧ ∀ name, Pointer.name? pointer "parameters" = some name →
    ∃ c target, components = some c ∧ c.parameters.get? name = some (.ref target)

section Clean

variable {doc : Document} (h : document doc = []) {key : String} {item : PathItem} {verb : Verb}
  {op : Operation} (hitem : doc.paths.get? key = some item)
  (hop : item.operation? verb = some op) {r : Referable Parameter}
  (hr : r ∈ item.parameters ++ op.parameters)

include h hitem hop hr

/-- In a document without issues the parameters of an operation are in known places. -/
theorem location_of_resolve? {p : Parameter} (hp : resolve? doc.components r = some p) :
    p.location ∈ parameterLocations := by
  cases r with
  | item q =>
    cases hp
    rcases List.mem_append.1 hr with hr | hr
    · have hpath := List.eq_nil_of_subset_nil (h ▸ path_subset_document hitem)
      exact location_of_parameters_eq_nil (List.append_eq_nil_iff.1 hpath).2 hr
    · obtain ⟨previous, hsubset⟩ := operation_subset_document hitem hop
      have hoperation := List.eq_nil_of_subset_nil (h ▸ hsubset)
      unfold operation at hoperation
      simp only [List.append_eq_nil_iff] at hoperation
      exact location_of_parameters_eq_nil hoperation.1.1.1.1 hr
  | ref pointer =>
    obtain ⟨c, hc, hp⟩ := Option.bind_eq_some_iff.1 hp
    obtain ⟨name, -, hentry⟩ := Components.lookUp?_eq_some_iff.1 hp
    have hcomponents := List.eq_nil_of_subset_nil (h ▸ components_subset_document hc)
    exact location_of_components_eq_nil hcomponents hentry

/-- In a document without issues a pointer to a parameter leads to an entry. -/
theorem exists_parameter_of_name? {pointer name : String} (hpointer : r = .ref pointer)
    (hname : Pointer.name? pointer "parameters" = some name) :
    ∃ c entry, doc.components = some c ∧ c.parameters.get? name = some entry := by
  have hmem : pointer ∈ (placeOf key item verb op).pointers := by
    refine List.mem_append_left _ (List.mem_append_left _ (List.mem_append_left _ ?_))
    exact List.mem_filterMap.2 ⟨r, hr, by rw [hpointer]; rfl⟩
  have hlocated := mem_locatedPointers (placeOf_mem_documentOperations hitem hop) hmem
  cases hdangling : isDangling doc.components pointer with
  | true =>
    have hissue := unresolved_mem_document hlocated hdangling
    rw [h] at hissue
    cases hissue
  | false =>
    rw [isDangling_eq .parameters hname, Bool.not_eq_false', Option.any_eq_true] at hdangling
    obtain ⟨c, hc, hcontains⟩ := hdangling
    obtain ⟨entry, hentry⟩ := Option.isSome_iff_exists.1 hcontains
    exact ⟨c, entry, hc, hentry⟩

/-- In a document without issues every parameter of an operation resolves, unless it points aside.
-/
theorem resolves_or_pointsAside :
    (∃ p, resolve? doc.components r = some p) ∨ PointsAside doc.components r := by
  cases hr' : r with
  | item p => exact .inl ⟨p, rfl⟩
  | ref pointer =>
    cases hname : Pointer.name? pointer "parameters" with
    | none =>
      refine .inr ⟨pointer, rfl, fun name hsome => ?_⟩
      rw [hname] at hsome
      cases hsome
    | some name =>
      obtain ⟨c, entry, hc, hentry⟩ := exists_parameter_of_name? h hitem hop hr hr' hname
      cases entry with
      | ref target =>
        refine .inr ⟨pointer, rfl, fun other hother => ⟨c, target, hc, ?_⟩⟩
        cases hname.symm.trans hother
        exact hentry
      | item p =>
        refine .inl ⟨p, Option.bind_eq_some_iff.2 ⟨c, hc, ?_⟩⟩
        exact Components.lookUp?_eq_some_iff.2 ⟨name, hname, hentry⟩

end Clean

end ApiFolio.Validation

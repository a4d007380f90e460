import Mathlib.Data.List.Perm.Basic
import ApiFolio.Proofs.Export.OperationsAt
import ApiFolio.Proofs.Validation.Clean

/-!
# The parameters of an exported operation

Parameters are told apart by name and place (`Parameter.key`). Merging keeps one parameter for each
of these, the last (`keys_merge`, `mem_merge_iff`), and the parameters in known places go to the
buckets (`located_perm`). In a document without issues only a parameter that points aside is lost
(`parameters_of_document_nil`).
-/

namespace ApiFolio

open OpenApi

/-- What tells parameters apart. -/
def OpenApi.Parameter.key (p : Parameter) : String × String := (p.name, p.location)

namespace Export

/-- The parameters of all buckets with their places. -/
def ParameterBuckets.located (x : ParameterBuckets) : List (String × ParameterItem) :=
  x.path.map ("path", ·) ++ x.query.map ("query", ·) ++ x.header.map ("header", ·)
    ++ x.cookie.map ("cookie", ·)

/-- The names and places of the parameters of all buckets. -/
def ParameterBuckets.keys (x : ParameterBuckets) : List (String × String) :=
  x.located.map fun e => (e.2.name, e.1)

namespace Surroundings

/-! ## Merging -/

/-- The last parameter of a list with its name and place. -/
def IsLast (p : Parameter) (ps : List Parameter) : Prop :=
  (ps.filter fun q => q.key = p.key).getLast? = some p

theorem IsLast.mem {p : Parameter} {ps : List Parameter} (h : IsLast p ps) : p ∈ ps :=
  (List.mem_filter.1 (List.mem_of_getLast? h)).1

theorem isLast_append_iff {p q : Parameter} {ps : List Parameter} :
    IsLast q (ps ++ [p]) ↔ q = p ∨ IsLast q ps ∧ q.key ≠ p.key := by
  unfold IsLast
  rw [List.filter_append, List.getLast?_append]
  by_cases h : p.key = q.key
  · simp [h, eq_comm]
  · have hne : q.key ≠ p.key := fun heq => h heq.symm
    have hqp : q ≠ p := fun heq => h (heq ▸ rfl)
    simp [h, hne, hqp]

theorem mergeParameter_cons (q : Parameter) (rest : List Parameter) (p : Parameter) :
    mergeParameter (q :: rest) p =
      if q.key = p.key then p :: rest else q :: mergeParameter rest p := by
  have hkey : q.key = p.key ↔ q.name = p.name ∧ q.location = p.location := by
    simp [Parameter.key]
  simp only [mergeParameter, hkey]

/-- A parameter takes the place of the one with its key, or else the place after all others. -/
theorem keys_mergeParameter (ps : List Parameter) (p : Parameter) :
    (mergeParameter ps p).map Parameter.key =
      if p.key ∈ ps.map Parameter.key then ps.map Parameter.key
      else ps.map Parameter.key ++ [p.key] := by
  induction ps with
  | nil => rfl
  | cons q rest ih =>
    rw [mergeParameter_cons]
    by_cases h : q.key = p.key
    · simp [h]
    · have hne : p.key ≠ q.key := fun heq => h heq.symm
      rw [if_neg h, List.map_cons, List.map_cons, ih]
      by_cases hmem : p.key ∈ rest.map Parameter.key
      · rw [if_pos hmem, if_pos (List.mem_cons_of_mem _ hmem)]
      · rw [if_neg hmem, if_neg fun hmem' => hmem (List.mem_of_ne_of_mem hne hmem')]
        rfl

theorem mem_mergeParameter_iff {ps : List Parameter} (h : (ps.map Parameter.key).Nodup)
    {p q : Parameter} : q ∈ mergeParameter ps p ↔ q = p ∨ q ∈ ps ∧ q.key ≠ p.key := by
  induction ps with
  | nil => simp [mergeParameter]
  | cons r rest ih =>
    rw [List.map_cons, List.nodup_cons] at h
    rw [mergeParameter_cons]
    by_cases hr : r.key = p.key
    · have hrest : ∀ s ∈ rest, s.key ≠ p.key := fun s hs heq =>
        h.1 (hr.trans heq.symm ▸ List.mem_map_of_mem hs)
      simp only [hr, if_true, List.mem_cons]
      constructor
      · rintro (rfl | hq)
        · exact .inl rfl
        · exact .inr ⟨.inr hq, hrest q hq⟩
      · rintro (rfl | ⟨rfl | hq, hne⟩)
        · exact .inl rfl
        · exact absurd hr hne
        · exact .inr hq
    · rw [if_neg hr, List.mem_cons, List.mem_cons, ih h.2]
      constructor
      · rintro (rfl | rfl | ⟨hq, hne⟩)
        · exact .inr ⟨.inl rfl, hr⟩
        · exact .inl rfl
        · exact .inr ⟨.inr hq, hne⟩
      · rintro (rfl | ⟨rfl | hq, hne⟩)
        · exact .inr (.inl rfl)
        · exact .inl rfl
        · exact .inr (.inr ⟨hq, hne⟩)

/-- The parameters that remain of a list when later ones take the place of earlier ones. -/
def merge (ps : List Parameter) : List Parameter := ps.foldl mergeParameter []

theorem merge_append (ps : List Parameter) (p : Parameter) :
    merge (ps ++ [p]) = mergeParameter (merge ps) p := by
  unfold merge
  rw [List.foldl_append]
  rfl

theorem eraseDups_concat {α : Type} [BEq α] [LawfulBEq α] (ks : List α) (k : α) :
    (ks ++ [k]).eraseDups = if k ∈ ks then ks.eraseDups else ks.eraseDups ++ [k] := by
  rw [List.eraseDups_append]
  by_cases h : k ∈ ks
  · simp [h, List.removeAll]
  · simp [h, List.removeAll, List.eraseDups_cons]

theorem nodup_eraseDups {α : Type} [BEq α] [LawfulBEq α] (ks : List α) : ks.eraseDups.Nodup := by
  induction ks using List.reverseRecOn with
  | nil => exact List.nodup_nil
  | append_singleton ks k ih =>
    rw [eraseDups_concat]
    by_cases h : k ∈ ks
    · rw [if_pos h]
      exact ih
    · rw [if_neg h]
      exact List.nodup_append.2 ⟨ih, by simp, fun l hl m hm heq =>
        h (List.mem_eraseDups.1 (List.mem_singleton.1 hm ▸ heq ▸ hl))⟩

/-- What remains stands in the order in which the names and places came first. -/
theorem keys_merge (ps : List Parameter) :
    (merge ps).map Parameter.key = (ps.map Parameter.key).eraseDups := by
  induction ps using List.reverseRecOn with
  | nil => rfl
  | append_singleton ps p ih =>
    rw [merge_append, keys_mergeParameter, ih, List.map_append, List.map_singleton,
      eraseDups_concat]
    simp only [List.mem_eraseDups]

theorem nodup_keys_merge (ps : List Parameter) : ((merge ps).map Parameter.key).Nodup := by
  rw [keys_merge]
  exact nodup_eraseDups _

/-- What remains are the parameters that are the last with their name and place. -/
theorem mem_merge_iff {ps : List Parameter} {q : Parameter} : q ∈ merge ps ↔ IsLast q ps := by
  induction ps using List.reverseRecOn with
  | nil => simp [merge, IsLast]
  | append_singleton ps p ih =>
    rw [merge_append, mem_mergeParameter_iff (nodup_keys_merge ps), isLast_append_iff, ih]

/-! ## Buckets -/

/-- Splitting a list by the places of its elements neither loses nor repeats any. -/
theorem flatMap_filter_perm {places : List String} (hplaces : places.Nodup) {ps : List Parameter}
    (h : ∀ p ∈ ps, p.location ∈ places) :
    (places.flatMap fun place => ps.filter fun p => p.location = place).Perm ps := by
  induction ps with
  | nil => simp
  | cons p rest ih =>
    have hrest := ih fun q hq => h q (List.mem_cons_of_mem _ hq)
    have hfirst : (places.flatMap fun place => [p].filter fun q => q.location = place) = [p] := by
      rw [flatMap_eq_of_unique hplaces (h p List.mem_cons_self)]
      · simp
      · intro place _ hne
        simp [hne.symm]
    have hsplit := List.flatMap_append_perm places
      (fun place => [p].filter fun q => q.location = place)
      (fun place => rest.filter fun q => q.location = place)
    rw [hfirst] at hsplit
    simp only [← List.filter_append, List.singleton_append] at hsplit
    exact hsplit.symm.trans (hrest.cons p)

variable {around : Surroundings} {item : PathItem} {op : Operation}

/-- The parameters to which the entries of the two lists of an operation resolve. -/
def resolved (around : Surroundings) (item : PathItem) (op : Operation) : List Parameter :=
  (item.parameters ++ op.parameters).filterMap around.parameter?

/-- A parameter with its place, as it is exported. -/
def placedItem (p : Parameter) : String × ParameterItem := (p.location, parameterItem p)

theorem located_parameters (around : Surroundings) (item : PathItem) (op : Operation) :
    (around.parameters item op).located =
      (Validation.parameterLocations.flatMap fun place =>
        (merge (around.resolved item op)).filter fun p => p.location = place).map placedItem := by
  have hbucket (place : String) (ps : List Parameter) :
      (bucket place ps).map (place, ·) =
        (ps.filter fun p => p.location = place).map placedItem := by
    unfold bucket
    rw [List.map_map]
    refine List.map_congr_left fun p hp => ?_
    have hplace : p.location = place := by simpa using (List.mem_filter.1 hp).2
    simp [placedItem, hplace]
  show (bucket "path" _).map _ ++ (bucket "query" _).map _ ++ (bucket "header" _).map _
    ++ (bucket "cookie" _).map _ = _
  simp only [hbucket, Validation.parameterLocations, List.flatMap_cons, List.flatMap_nil,
    List.map_append, List.append_assoc, List.append_nil]
  rfl

/-- What a bucket holds is made of the last parameter with its name and place. -/
theorem exists_isLast_of_mem_located {e : String × ParameterItem}
    (h : e ∈ (around.parameters item op).located) :
    ∃ p, IsLast p (around.resolved item op) ∧ e = placedItem p := by
  rw [located_parameters] at h
  obtain ⟨p, hp, rfl⟩ := List.mem_map.1 h
  obtain ⟨place, -, hp⟩ := List.mem_flatMap.1 hp
  exact ⟨p, mem_merge_iff.1 (List.mem_filter.1 hp).1, rfl⟩

/-- If all parameters are in known places, the buckets hold what remains of them. -/
theorem located_perm
    (h : ∀ p ∈ around.resolved item op, p.location ∈ Validation.parameterLocations) :
    (around.parameters item op).located.Perm
      ((merge (around.resolved item op)).map placedItem) := by
  rw [located_parameters]
  refine (flatMap_filter_perm (by decide) fun p hp => ?_).map _
  exact h p (mem_merge_iff.1 hp).mem

theorem keys_perm
    (h : ∀ p ∈ around.resolved item op, p.location ∈ Validation.parameterLocations) :
    (around.parameters item op).keys.Perm
      ((merge (around.resolved item op)).map Parameter.key) := by
  have hkeys := (located_perm h).map fun e => (e.2.name, e.1)
  rw [List.map_map] at hkeys
  exact hkeys

/-- The buckets have the names and places of the parameters in known places. -/
theorem mem_keys_iff {key : String × String} :
    key ∈ (around.parameters item op).keys ↔
      key ∈ (around.resolved item op).map Parameter.key ∧
        key.2 ∈ Validation.parameterLocations := by
  have hmerge : key ∈ (around.resolved item op).map Parameter.key ↔
      key ∈ (merge (around.resolved item op)).map Parameter.key := by
    rw [keys_merge, List.mem_eraseDups]
  unfold ParameterBuckets.keys
  rw [located_parameters, List.map_map, hmerge]
  simp only [List.mem_map, List.mem_flatMap, List.mem_filter, decide_eq_true_eq]
  constructor
  · rintro ⟨p, ⟨place, hplace, hp, rfl⟩, rfl⟩
    exact ⟨⟨p, hp, rfl⟩, hplace⟩
  · rintro ⟨⟨p, hp, rfl⟩, hplace⟩
    exact ⟨p, ⟨_, hplace, hp, rfl⟩, rfl⟩

end Surroundings

open Surroundings

theorem parameter?_surroundings (doc : Document) (r : Referable Parameter) :
    (surroundings doc).parameter? r = Validation.resolve? doc.components r := by
  cases r <;> rfl

/-- In a document without issues every parameter of an operation resolves to one in a known place,
unless it points aside, and the buckets of the exported operation hold one entry for each name and
place of those that resolve, made of the last of them. -/
theorem parameters_of_document_nil (doc : Document) (version : String)
    (h : Validation.document doc = []) (path : String) (item : PathItem) (verb : Verb)
    (op : Operation) (hitem : doc.paths.get? path = some item)
    (hop : item.operation? verb = some op) :
    (∀ r ∈ item.parameters ++ op.parameters,
      (∃ p, (surroundings doc).parameter? r = some p ∧
        p.location ∈ Validation.parameterLocations) ∨
      Validation.PointsAside doc.components r) ∧
    ∃ i, (convert doc version).operationsAt path verb.name = [i] ∧
      i.parameters.keys.Nodup ∧
      (∀ key, key ∈ i.parameters.keys ↔
        key ∈ ((surroundings doc).resolved item op).map Parameter.key) ∧
      ∀ e ∈ i.parameters.located, ∃ p, IsLast p ((surroundings doc).resolved item op) ∧
        e = placedItem p := by
  have hknown : ∀ r ∈ item.parameters ++ op.parameters, ∀ p,
      (surroundings doc).parameter? r = some p → p.location ∈ Validation.parameterLocations := by
    intro r hr p hp
    rw [parameter?_surroundings] at hp
    exact Validation.location_of_resolve? h hitem hop hr hp
  refine ⟨fun r hr => ?_, _, operationsAt_convert hitem hop version, ?_⟩
  · rcases Validation.resolves_or_pointsAside h hitem hop hr with ⟨p, hp⟩ | haside
    · rw [← parameter?_surroundings] at hp
      exact .inl ⟨p, hp, hknown r hr p hp⟩
    · exact .inr haside
  · have hresolved : ∀ p ∈ (surroundings doc).resolved item op,
        p.location ∈ Validation.parameterLocations := by
      intro p hp
      obtain ⟨r, hr, hrp⟩ := List.mem_filterMap.1 hp
      exact hknown r hr p hrp
    have hkeys := keys_perm hresolved
    refine ⟨hkeys.nodup_iff.2 (nodup_keys_merge _), fun key => ?_, fun e he => ?_⟩
    · rw [keys_merge] at hkeys
      exact hkeys.mem_iff.trans List.mem_eraseDups
    · exact exists_isLast_of_mem_located he

def pagedOperation : Operation where
  parameters := [.ref "#/components/parameters/Limit", .ref "#/components/parameters/Size",
    .ref "#/components/schemas/Pet"]
  responses := Dict.ofList [("200", .item { description := "ok" })]

def pagedPath : PathItem where
  get := some pagedOperation
  parameters := [.item { name := "limit", location := "query" },
    .item { name := "trace", location := "header" }]

/-- An operation that is given a parameter of its path anew, and then by a pointer to an alias of
it and a pointer to a schema. -/
def pagedDocument : Document where
  openapi := "3.0.0"
  info := { title := "Pets", version := "1" }
  paths := Dict.ofList [("/pets", pagedPath)]
  components := some {
    parameters := Dict.ofList [
      ("Limit", .item { name := "limit", location := "query", required := some true }),
      ("Size", .ref "#/components/parameters/Limit")]
    schemas := Dict.ofList [("Pet", {})] }

theorem document_pagedDocument : Validation.document pagedDocument = [] := by rfl

theorem parameters_of_document_nil_pagedDocument :
    Validation.document pagedDocument = [] ∧
      ∃ i, (convert pagedDocument "3.0.0").operationsAt "/pets" "get" = [i] ∧
        i.parameters.keys.Nodup ∧ ("limit", "query") ∈ i.parameters.keys ∧
        ("trace", "header") ∈ i.parameters.keys := by
  obtain ⟨-, i, hi, hnodup, hkeys, -⟩ := parameters_of_document_nil pagedDocument "3.0.0"
    document_pagedDocument "/pets" pagedPath .get pagedOperation rfl rfl
  refine ⟨document_pagedDocument, i, hi, hnodup, (hkeys _).2 ?_, (hkeys _).2 ?_⟩
  · decide
  · decide

/-- A document may be without issues, with all pointers to parameters going into the components,
though an operation has parameters that do not resolve: by an alias, and by a pointer to a schema.
-/
theorem not_parameters_resolve :
    Validation.document pagedDocument = [] ∧
      (∀ path item verb op, pagedDocument.paths.get? path = some item →
        item.operation? verb = some op →
        ∀ pointer, .ref pointer ∈ item.parameters ++ op.parameters →
          Text.startsWith "#/components/" pointer = true) ∧
      pagedDocument.paths.get? "/pets" = some pagedPath ∧
      pagedPath.operation? .get = some pagedOperation ∧
      ∀ pointer ∈ ["#/components/parameters/Size", "#/components/schemas/Pet"],
        .ref pointer ∈ pagedPath.parameters ++ pagedOperation.parameters ∧
          (surroundings pagedDocument).parameter? (.ref pointer) = none := by
  refine ⟨document_pagedDocument, ?_, rfl, rfl, ?_⟩
  · intro path item verb op hitem hop pointer hpointer
    cases List.mem_singleton.1 ((Dict.mem_entries _).2 hitem)
    cases verb <;> cases hop
    have hcases : pointer = "#/components/parameters/Limit" ∨
        pointer = "#/components/parameters/Size" ∨ pointer = "#/components/schemas/Pet" := by
      simpa [pagedPath, pagedOperation] using hpointer
    rcases hcases with rfl | rfl | rfl <;> decide
  · intro pointer hpointer
    simp only [List.mem_cons, List.not_mem_nil, or_false] at hpointer
    rcases hpointer with rfl | rfl
    · exact ⟨by simp [pagedOperation], rfl⟩
    · exact ⟨by simp [pagedOperation], rfl⟩

end Export

end ApiFolio

import ApiFolio.Export.Schemas

/-!
# What stands in the folders of reusable schemas

A folder holds the items of one area of the components, and its name tells the area. So an item of
a folder is the item of an entry of that area, and carries its name and the pointer to it.
-/

namespace ApiFolio.Export

open OpenApi

theorem exists_of_mem_folder? {α : Type} {name : String} {item? : String → α → Option SchemaItem}
    {table : Dict α} {folder : SchemaFolder} (h : folder ∈ folder? name item? table) :
    folder.name = name ∧ ∀ item ∈ folder.items, ∃ e ∈ table.entries, item? e.1 e.2 = some item := by
  unfold folder? at h
  split at h
  · exact absurd h List.not_mem_nil
  · rename_i first others heq
    cases List.mem_singleton.1 h
    refine ⟨rfl, fun item hitem => ?_⟩
    rw [← heq] at hitem
    exact List.mem_filterMap.1 hitem

variable {components : Components} {ends : AliasEnds} {folder : SchemaFolder} {item : SchemaItem}

theorem exists_schema_of_mem (h : folder ∈ schemaFolders components ends)
    (hname : folder.name = "Schemas") (hitem : item ∈ folder.items) :
    ∃ e ∈ components.schemas.entries, schemaItem? e.1 e.2 = some item := by
  rcases List.mem_append.1 h with h | h
  · rcases List.mem_append.1 h with h | h
    · exact (exists_of_mem_folder? h).2 item hitem
    · rw [(exists_of_mem_folder? h).1] at hname
      exact absurd hname (by decide)
  · rw [(exists_of_mem_folder? h).1] at hname
    exact absurd hname (by decide)

theorem exists_requestBody_of_mem (h : folder ∈ schemaFolders components ends)
    (hname : folder.name = "RequestBodies") (hitem : item ∈ folder.items) :
    ∃ e ∈ components.requestBodies.entries, requestBodyItem? ends e.1 e.2 = some item := by
  rcases List.mem_append.1 h with h | h
  · rcases List.mem_append.1 h with h | h
    · rw [(exists_of_mem_folder? h).1] at hname
      exact absurd hname (by decide)
    · rw [(exists_of_mem_folder? h).1] at hname
      exact absurd hname (by decide)
  · exact (exists_of_mem_folder? h).2 item hitem

theorem schemaItem?_eq_some {name : String} {schema : Schema}
    (h : schemaItem? name schema = some item) :
    item.name = name ∧ item.jsonSchema = some schema := by
  unfold schemaItem? at h
  split at h
  · cases h
  · cases h
    exact ⟨rfl, rfl⟩

/-! ## Names and ids -/

variable {name : String}

theorem schemaItem?_id {schema : Schema} (h : schemaItem? name schema = some item) :
    item.name = name ∧ item.id = Pointer.component "schemas" name := by
  unfold schemaItem? at h
  split at h
  · cases h
  · cases h
    exact ⟨rfl, rfl⟩

theorem responseItem?_id {response : Referable Response}
    (h : responseItem? name response = some item) :
    item.name = name ∧ item.id = Pointer.component "responses" name := by
  cases response with
  | ref pointer =>
    cases h
    exact ⟨rfl, rfl⟩
  | item response =>
    simp only [responseItem?] at h
    split at h
    · cases h
    · cases h
      exact ⟨rfl, rfl⟩

theorem requestBodyItem?_id {body : Referable RequestBody}
    (h : requestBodyItem? ends name body = some item) :
    item.name = name ∧ item.id = Pointer.component "requestBodies" name := by
  cases body with
  | ref pointer =>
    obtain ⟨target, -, rfl⟩ := Option.map_eq_some_iff.1 h
    exact ⟨rfl, rfl⟩
  | item body =>
    simp only [requestBodyItem?] at h
    split at h
    · cases h
    · cases h
      exact ⟨rfl, rfl⟩

end ApiFolio.Export

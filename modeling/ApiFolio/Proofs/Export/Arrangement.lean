import ApiFolio.Proofs.Export.OperationsAt

/-!
# How an exported tree is arranged

Path, verb and origin tell an operation of a document from all others, and an operation of a path
is filed before that of a webhook of the same name (`pairwise_documentItems`). A folder keeps what
is filed in it in this order (`sublist_of_mem_folders`), and sorting does not change the order of
operations with one path and verb. So every folder of the export has its operations by path, verb
and origin and its subfolders by strictly descending name (`convert_arranged`).
-/

namespace ApiFolio.Export

open OpenApi
open Collection (folders folderAt? itemsAt? itemLe itemLe_iff methodRank fileEach Tidy)

/-- If two operations have one path and verb, the first is of a path and the second of a webhook. -/
def PathFirst (a b : ApiItem) : Prop :=
  a.path = b.path → a.method = b.method → a.webhook = false ∧ b.webhook = true

/-! ## The operations of a document -/

section Filed

variable {around : Surroundings} {path : String} {item : PathItem} {webhook : Bool} {i : ApiItem}

theorem path_of_mem_apiItems (h : i ∈ around.apiItems path item webhook) :
    i.path = path ∧ i.webhook = webhook := by
  obtain ⟨vo, -, rfl⟩ := List.mem_map.1 h
  exact ⟨rfl, rfl⟩

/-- The operations of one path item have different verbs. -/
theorem pairwise_apiItems :
    (around.apiItems path item webhook).Pairwise fun a b => a.method ≠ b.method := by
  refine List.pairwise_map.2 (List.pairwise_filterMap.2 ?_)
  have hverbs : Verb.all.Pairwise (· ≠ ·) := by decide
  refine hverbs.imp fun {v w} hne a ha b hb heq => ?_
  obtain ⟨op, -, rfl⟩ := Option.map_eq_some_iff.1 ha
  obtain ⟨op', -, rfl⟩ := Option.map_eq_some_iff.1 hb
  exact hne (Verb.name_injective heq)

/-- The operations of path items under different paths differ in path or verb. -/
theorem pairwise_flatMap_apiItems (table : Dict PathItem) :
    (table.entries.flatMap fun e => around.apiItems e.1 e.2 webhook).Pairwise PathFirst := by
  refine List.pairwise_flatMap.2 ⟨fun e _ => ?_, ?_⟩
  · exact pairwise_apiItems.imp fun hne _ hmethod => absurd hmethod hne
  · refine table.sorted.imp fun hlt a ha b hb hpath => ?_
    rw [(path_of_mem_apiItems ha).1, (path_of_mem_apiItems hb).1] at hpath
    exact absurd hlt (hpath ▸ String.lt_irrefl _)

end Filed

theorem pairwise_documentItems (doc : Document) : (documentItems doc).Pairwise PathFirst := by
  refine List.pairwise_append.2
    ⟨pairwise_flatMap_apiItems _, pairwise_flatMap_apiItems _, fun a ha b hb _ _ => ?_⟩
  obtain ⟨_, -, ha⟩ := List.mem_flatMap.1 ha
  obtain ⟨_, -, hb⟩ := List.mem_flatMap.1 hb
  exact ⟨(path_of_mem_apiItems ha).2, (path_of_mem_apiItems hb).2⟩

/-! ## The operations of a folder -/

/-- Operations filed in an empty folder make a tidy tree. -/
theorem tidy_fileAll (items : List ApiItem) (name : String) : Tidy (fileAll items { name }) :=
  ((Filing.standsFor_empty name).addAll items).tidy

end ApiFolio.Export

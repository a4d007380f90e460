import ApiFolio.Proofs.Export.ResponseIds

/-!
# Names in an export

A folder below the default folder has a segment of a tag as its name, which is never empty. An
operation has the first of its summary, its identifier and its path that is there; an empty summary
counts as none, but an empty identifier is taken (`itemName_eq_empty_iff`). So where no path and no
webhook has an empty name, an operation is exported without a name exactly if it gives an empty
identifier and no other summary than an empty one (`named_convert`).
-/

namespace ApiFolio.Export

open OpenApi
open Collection (folders mem_folders_iff Tidy)

/-! ## Folders -/

/-- In a tidy tree whose root has a name every folder has one. -/
theorem Collection.Tidy.name_ne_empty {c d : Collection} (h : Tidy c) (hname : c.name ≠ "")
    (hd : d ∈ c.folders) : d.name ≠ "" := by
  induction h with
  | @mk name items children _ names _ ih =>
    rcases mem_folders_iff.1 hd with rfl | ⟨e, he, hd⟩
    · exact hname
    · exact ih e he (names e he).ne_empty hd

/-- Every folder of an export has a name, whatever the tags are. -/
theorem name_ne_empty_of_mem_folders {doc : Document} {c : Collection}
    (hc : c ∈ (collection doc).folders) : c.name ≠ "" := by
  rw [collection_eq] at hc
  obtain ⟨d, hd, rfl⟩ := Collection.exists_of_mem_folders_sort hc
  rw [Collection.name_sort]
  refine (tidy_fileAll (documentItems doc) defaultFolder).name_ne_empty ?_ hd
  rw [fileAll_name]
  decide

/-! ## Operations -/

/-- No name comes from a summary that is missing or empty. -/
theorem bind_nonEmpty?_eq_none_iff {text : Option String} :
    text.bind nonEmpty? = none ↔ text = none ∨ text = some "" := by
  cases text with
  | none => simp
  | some s =>
    rw [Option.bind_some]
    unfold nonEmpty?
    by_cases h : s = "" <;> simp [h]

theorem ne_empty_of_bind_nonEmpty? {text : Option String} {s : String}
    (h : text.bind nonEmpty? = some s) : s ≠ "" := by
  obtain ⟨t, -, ht⟩ := Option.bind_eq_some_iff.1 h
  unfold nonEmpty? at ht
  split at ht
  · cases ht
  · rename_i hempty
    cases ht
    simpa using hempty

/-- An operation that is given an empty name: its identifier is empty, and its summary is missing or
empty. -/
def GivenEmptyName (op : Operation) : Prop :=
  (op.summary = none ∨ op.summary = some "") ∧ op.operationId = some ""

/-- Under a path that is not empty an operation is nameless exactly if it is given an empty name. -/
theorem itemName_eq_empty_iff {path : String} (hpath : path ≠ "") (op : Operation) :
    Surroundings.itemName path op = "" ↔ GivenEmptyName op := by
  unfold Surroundings.itemName GivenEmptyName
  rw [← bind_nonEmpty?_eq_none_iff]
  split
  · rename_i summary hsummary
    have hne := ne_empty_of_bind_nonEmpty? hsummary
    simp [hsummary, hne]
  · rename_i hsummary
    cases hid : op.operationId with
    | none => simp [hpath]
    | some id => simp [hsummary]

/-! ## The export -/

/-- Where no path and no webhook has an empty key, every folder of an export has a name, and every
operation but those that are given an empty one. -/
theorem named_convert (doc : Document) (version : String) (hpaths : "" ∉ doc.paths.keys)
    (hwebhooks : "" ∉ (webhooks doc).keys) :
    (∀ root ∈ (convert doc version).httpCollections, ∀ c ∈ root.folders, c.name ≠ "") ∧
      ∀ i ∈ (convert doc version).apiItems, ∃ item verb op,
        (itemsOf doc i.webhook).get? i.path = some item ∧ item.operation? verb = some op ∧
          i.method = verb.name ∧ (i.name = "" ↔ GivenEmptyName op) := by
  refine ⟨fun root hroot c hc => ?_, fun i hi => ?_⟩
  · cases List.mem_singleton.1 hroot
    exact name_ne_empty_of_mem_folders hc
  · obtain ⟨item, verb, op, hitem, hop, hmethod, heq⟩ :=
      exists_of_mem_documentItems ((apiItems_convert doc version).mem_iff.1 hi)
    refine ⟨item, verb, op, hitem, hop, hmethod, ?_⟩
    have hkey : i.path ∈ (itemsOf doc i.webhook).keys :=
      List.mem_map_of_mem ((Dict.mem_entries _).2 hitem)
    have hpath : i.path ≠ "" := by
      intro hempty
      rw [hempty] at hkey
      cases hwebhook : i.webhook with
      | false => exact hpaths (by rwa [hwebhook] at hkey)
      | true => exact hwebhooks (by rwa [hwebhook] at hkey)
    rw [heq]
    exact itemName_eq_empty_iff hpath op

def quietPath : PathItem where
  get := some { tags := [" / ", "a// b "], summary := some "", operationId := some "listPets" }
  post := some { tags := ["a// b "], summary := some "", operationId := some "" }

/-- A document with an operation that is given an empty name, beside one with an identifier and a
webhook that has nothing but its key. -/
def quietDocument : Document where
  openapi := "3.1.0"
  info := { title := "Pets", version := "1" }
  paths := Dict.ofList [("/pets", quietPath)]
  extensions := Dict.ofList [("webhooks", .obj [("newPet", .obj [("put", .obj [])])])]

theorem named_convert_quietDocument :
    "" ∉ quietDocument.paths.keys ∧ "" ∉ (webhooks quietDocument).keys ∧
      (∀ root ∈ (convert quietDocument "3.1.0").httpCollections, ∀ c ∈ root.folders,
        c.name ≠ "") ∧
      ∀ i ∈ (convert quietDocument "3.1.0").apiItems, i.webhook = false →
        (i.name = "" ↔ i.method = "post") := by
  have hpaths : "" ∉ quietDocument.paths.keys := by decide
  have hwebhooks : "" ∉ (webhooks quietDocument).keys := by decide
  obtain ⟨hfolders, hitems⟩ := named_convert quietDocument "3.1.0" hpaths hwebhooks
  refine ⟨hpaths, hwebhooks, hfolders, fun i hi hwebhook => ?_⟩
  obtain ⟨item, verb, op, hitem, hop, hmethod, hname⟩ := hitems i hi
  rw [hwebhook] at hitem
  have hentry : (i.path, item) ∈ [("/pets", quietPath)] := (Dict.mem_entries _).2 hitem
  obtain ⟨-, rfl⟩ := Prod.mk.inj (List.mem_singleton.1 hentry)
  rw [hname, hmethod]
  cases verb with
  | get =>
    cases hop
    simp [GivenEmptyName, Verb.name]
  | post =>
    cases hop
    simp [GivenEmptyName, Verb.name]
  | _ => cases hop

/-- An operation may be nameless although no key is empty: an empty identifier counts as a name. -/
theorem not_named_convert :
    ¬∀ (doc : Document) (version : String), "" ∉ doc.paths.keys → "" ∉ (webhooks doc).keys →
      (∀ root ∈ (convert doc version).httpCollections, ∀ c ∈ root.folders, c.name ≠ "") ∧
        ∀ i ∈ (convert doc version).apiItems, i.name ≠ "" := by
  intro h
  have hitem : (itemsOf quietDocument false).get? "/pets" = some quietPath := by rfl
  have hop : quietPath.operation? .post =
      some { tags := ["a// b "], summary := some "", operationId := some "" } := rfl
  have hmem := (apiItems_convert quietDocument "3.1.0").mem_iff.2
    (apiItem_mem_documentItems hitem hop)
  exact (h quietDocument "3.1.0" (by decide) (by decide)).2 _ hmem rfl

end ApiFolio.Export

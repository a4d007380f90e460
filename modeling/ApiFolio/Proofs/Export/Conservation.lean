import ApiFolio.Export.Conversion
import ApiFolio.Proofs.Folder.Forest
import ApiFolio.Proofs.Folder.Inserts
import ApiFolio.Proofs.Folder.Sort

/-!
# Every operation has one place

The collection of a document holds each of its operations once, in the folder of its first tag or
at the top, and has the folders on the way to them and no others
(`convert_places_every_operation`). Filing keeps the folders as records and the operations without
a folder in a list; together they stand for a tree (`Filing.StandsFor`) into which each step files
one operation.
-/

namespace ApiFolio.Export

open OpenApi FolderTree
open Collection (HasFolder)

/-! ## Where operations belong -/

/-- The names of the folders down to the place of an operation with these tags: the segments of
the first tag, none if there is no tag. -/
def homeOf : List String → List String
  | [] => []
  | tag :: _ => segments tag

/-- The operations of a path item under each of the verbs, with where they belong. -/
def placementsOf (around : Surroundings) (path : String) (item : PathItem) (webhook : Bool) :
    List (List String × ApiItem) :=
  Verb.all.filterMap fun verb =>
    (item.operation? verb).map fun op =>
      (homeOf op.tags, around.apiItem path verb.name item op webhook)

/-- The entries under the first of the members for webhooks that a document has, if they stand in
an object. -/
def webhookEntries (doc : Document) : List (String × Json) :=
  match (doc.extensions.get? "webhooks").or (doc.extensions.get? "x-webhooks") with
  | some (.obj members) => (Dict.ofList members).entries
  | _ => []

/-- The operations of a document with where they belong: those of the paths, and those of the
webhooks that read as path items. -/
def placements (doc : Document) : List (List String × ApiItem) :=
  (doc.paths.entries.flatMap fun e => placementsOf (surroundings doc) e.1 e.2 false) ++
    (webhookEntries doc).flatMap fun e =>
      match PathItem.ofJson? e.2 with
      | some item => placementsOf (surroundings doc) e.1 item true
      | none => []

theorem placementsOf_eq (around : Surroundings) (path : String) (item : PathItem)
    (webhook : Bool) :
    placementsOf around path item webhook =
      (around.apiItems path item webhook).map fun i => (homeOf i.tags, i) := by
  rw [placementsOf, Surroundings.apiItems, PathItem.operations, List.map_map, List.map_filterMap]
  congr 1
  funext verb
  cases item.operation? verb <;> rfl

theorem flatMap_filterMapValues {α β γ : Type} (f : String → α → Option β)
    (g : String × β → List γ) (entries : List (String × α)) :
    (Entries.filterMapValues f entries).flatMap g =
      entries.flatMap fun e =>
        match f e.1 e.2 with
        | some y => g (e.1, y)
        | none => [] := by
  induction entries with
  | nil => rfl
  | cons e rest ih =>
    obtain ⟨k, x⟩ := e
    rw [Entries.filterMapValues, List.flatMap_cons, ← ih]
    cases f k x with
    | none => rfl
    | some y => rw [List.flatMap_cons]

theorem entries_webhooks (doc : Document) :
    (webhooks doc).entries =
      Entries.filterMapValues (fun _ v => PathItem.ofJson? v) (webhookEntries doc) := by
  have hfirst : firstExtension? doc webhookKeys =
      (doc.extensions.get? "webhooks").or (doc.extensions.get? "x-webhooks") := by
    simp only [firstExtension?, webhookKeys, List.findSome?]
    cases doc.extensions.get? "webhooks" with
    | some v => rfl
    | none => cases doc.extensions.get? "x-webhooks" <;> rfl
  rw [webhooks, webhookEntries, hfirst]
  cases (doc.extensions.get? "webhooks").or (doc.extensions.get? "x-webhooks") with
  | none => rfl
  | some v => cases v <;> rfl

/-- The operations are filed with where they belong. -/
theorem placements_eq (doc : Document) :
    placements doc = (documentItems doc).map fun i => (homeOf i.tags, i) := by
  rw [placements, documentItems, List.map_append, List.map_flatMap, List.map_flatMap,
    entries_webhooks, flatMap_filterMapValues]
  simp only [placementsOf_eq]
  congr 2
  funext e
  cases PathItem.ofJson? e.2 <;> rfl

/-! ## Filing -/

/-- The folders and the operations outside of them are those of a tidy tree. -/
structure Filing.StandsFor (f : Filing) (root : Collection) : Prop where
  tidy : root.Tidy
  unfiled : f.unfiled = root.items
  records : Represents f.tree.records root

theorem Filing.standsFor_empty (name : String) : Filing.StandsFor {} { name } where
  tidy := .empty name
  unfiled := rfl
  records := represents_empty name []

/-- Filing one operation files it in the tree. -/
theorem Filing.StandsFor.add {f : Filing} {root : Collection} (h : f.StandsFor root)
    (item : ApiItem) : (f.add item).StandsFor (Collection.file item (homeOf item.tags) root) := by
  have hunfiled {g : Filing} (hg : g = { f with unfiled := f.unfiled ++ [item] }) :
      g.StandsFor (Collection.file item [] root) := by
    subst hg
    exact ⟨h.tidy.file item (by simp), congrArg (· ++ [item]) h.unfiled,
      h.records.file_nil h.tidy item⟩
  unfold Filing.add
  cases htags : item.tags with
  | nil => exact hunfiled rfl
  | cons tag rest =>
    rcases h.records.insert h.tidy tag item with ⟨hs, hi⟩ | ⟨hs, hi, hrec⟩
    · rw [homeOf, hs]
      simp only [hi]
      exact hunfiled rfl
    · have hn : ∀ n ∈ segments tag, IsName n := fun n hn => isName_of_mem_segments hn
      have hitems : (Collection.file item (segments tag) root).items = root.items := by
        cases hs' : segments tag with
        | nil => exact absurd hs' hs
        | cons => rfl
      have hfile := h.tidy.file item hn
      rw [homeOf]
      cases hins : f.tree.insert tag item with
      | mk tree back =>
        rw [hins] at hi hrec
        cases hi
        simp only [hins]
        exact ⟨hfile, h.unfiled.trans hitems.symm, hrec⟩

/-- The tree after filing operations one after the other. -/
def fileAll (items : List ApiItem) (root : Collection) : Collection :=
  items.foldl (fun c i => Collection.file i (homeOf i.tags) c) root

theorem Filing.StandsFor.addAll {f : Filing} {root : Collection} (h : f.StandsFor root)
    (items : List ApiItem) : (items.foldl Filing.add f).StandsFor (fileAll items root) := by
  induction items generalizing f root with
  | nil => exact h
  | cons i rest ih => exact ih (h.add i)

@[simp] theorem fileAll_name (items : List ApiItem) (root : Collection) :
    (fileAll items root).name = root.name := by
  induction items generalizing root with
  | nil => rfl
  | cons i rest ih => exact (ih _).trans (Collection.file_name ..)

theorem fileAll_eq_fileEach (items : List ApiItem) (root : Collection) :
    fileAll items root = Collection.fileEach (items.map fun i => (homeOf i.tags, i)) root := by
  unfold fileAll Collection.fileEach
  rw [List.foldl_map]

theorem placed_fileAll (items : List ApiItem) (root : Collection) :
    (fileAll items root).placed.Perm
      (root.placed ++ items.map fun i => (homeOf i.tags, i)) := by
  rw [fileAll_eq_fileEach]
  exact Collection.placed_fileEach _ root

theorem hasFolder_fileAll (items : List ApiItem) (root : Collection) (names : List String) :
    HasFolder names (fileAll items root) ↔
      HasFolder names root ∨ ∃ i ∈ items, names <+: homeOf i.tags := by
  induction items generalizing root with
  | nil => simp [fileAll]
  | cons i rest ih =>
    refine (ih _).trans ?_
    rw [Collection.hasFolder_file, List.exists_mem_cons_iff, or_assoc]

/-- The collection of a document is the tree of its operations, put in order. -/
theorem collection_eq (doc : Document) :
    collection doc = (fileAll (documentItems doc) { name := defaultFolder }).sort := by
  have h := (Filing.standsFor_empty defaultFolder).addAll (documentItems doc)
  have hforest := h.records.forest h.tidy
  have hunfiled := h.unfiled
  have hname := fileAll_name (documentItems doc) { name := defaultFolder }
  rw [collection, filing, hforest, hunfiled]
  congr 1
  generalize fileAll (documentItems doc) { name := defaultFolder } = root at hname ⊢
  cases root
  cases hname
  rfl

/-! ## The export -/

/-- No operation is lost, duplicated or misfiled: the one collection of an export places exactly
the operations of the document where they belong, and its folders are the root and those on the
way to an operation. -/
theorem convert_places_every_operation (doc : Document) (version : String) :
    ∃ root, (convert doc version).httpCollections = [root] ∧
      root.placed.Perm (placements doc) ∧
      ∀ names, HasFolder names root ↔ names = [] ∨ ∃ p ∈ placements doc, names <+: p.1 := by
  refine ⟨collection doc, rfl, ?_, fun names => ?_⟩
  · rw [collection_eq, placements_eq]
    refine (Collection.placed_sort _).trans ((placed_fileAll _ _).trans ?_)
    simp [Collection.placed, Collection.placedAll]
  · rw [collection_eq, Collection.hasFolder_sort, hasFolder_fileAll, placements_eq]
    cases names <;> simp [HasFolder]

end ApiFolio.Export

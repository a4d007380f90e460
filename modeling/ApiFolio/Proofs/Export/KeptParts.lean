import ApiFolio.Proofs.Export.RequestBodies
import ApiFolio.Proofs.OpenApi.SchemaFields

/-!
# Which components are shown

The folders of reusable schemas show the components that say something, one item for each, in the
order of their names (`schemaFolders_exact`). For each area the walk over its table is compared with
a condition on the entries alone: a schema is shown unless it is the empty one, a response or
request body unless it has neither description nor content, and a request body that is a pointer if
its chain of pointers ends. The pointer that is the id of an item tells its area and its name, so no
id stands twice.
-/

namespace ApiFolio.Export

open OpenApi

/-! ## What is kept -/

/-- A response says something if it is a pointer or has a description or content. -/
def KeptResponse : Referable Response → Prop
  | .ref _ => True
  | .item response => response.description ≠ "" ∨ response.content ≠ ∅

/-- A pointer is the one to a request body that is itself a pointer, to a target. -/
def PointsOn (components : Components) (pointer target : String) : Prop :=
  ∃ name, pointer = Pointer.component "requestBodies" name ∧
    components.requestBodies.get? name = some (.ref target)

/-- The chain of pointers that begins at a pointer comes to one that does not point on. -/
def ChainEnds (components : Components) (pointer : String) : Prop :=
  ∃ stop, Relation.ReflTransGen (PointsOn components) pointer stop ∧
    ∀ target, ¬PointsOn components stop target

/-- A request body says something if it is a pointer whose chain ends, or has a description or
content. -/
def KeptBody (components : Components) (name : String) : Referable RequestBody → Prop
  | .ref _ => ChainEnds components (Pointer.component "requestBodies" name)
  | .item body => (∃ text, body.description = some text ∧ text ≠ "") ∨ body.content ≠ ∅

/-- Items show what is kept of a table of an area: they stand in the order of their names, each has
the name of an entry that is kept and the pointer to it as its id, and no such entry is missing. -/
structure ShowsKept {α : Type} (area : String) (kept : String → α → Prop) (table : Dict α)
    (items : List SchemaItem) : Prop where
  ascending : items.Pairwise fun a b => a.name < b.name
  entry : ∀ item ∈ items, ∃ x, table.get? item.name = some x ∧ kept item.name x
  complete : ∀ name x, table.get? name = some x → kept name x → ∃ item ∈ items, item.name = name
  ids : ∀ item ∈ items, item.id = Pointer.component area item.name

/-- A folder with items, if there are any. -/
def folderOf (name : String) (items : List SchemaItem) : List SchemaFolder :=
  if items = [] then [] else [{ name, items }]

/-! ## One folder -/

section Folder

variable {α : Type} {area : String} {kept : String → α → Prop} {table : Dict α}
  {item? : String → α → Option SchemaItem}

theorem folder?_eq (name : String) (item? : String → α → Option SchemaItem) (table : Dict α) :
    folder? name item? table = folderOf name (table.entries.filterMap fun e => item? e.1 e.2) := by
  unfold folder? folderOf
  cases table.entries.filterMap fun e => item? e.1 e.2 with
  | nil => rfl
  | cons item items => rfl

theorem flatMap_items_folderOf (name : String) (items : List SchemaItem) :
    (folderOf name items).flatMap (·.items) = items := by
  cases items with
  | nil => rfl
  | cons item items => exact List.append_nil _

/-- If an entry has an item where it is kept, which carries its name and its pointer, then the items
of a table show what is kept of it. -/
theorem showsKept_filterMap (hkept : ∀ name x, (item? name x).isSome ↔ kept name x)
    (hitem : ∀ name x item, item? name x = some item →
      item.name = name ∧ item.id = Pointer.component area name) :
    ShowsKept area kept table (table.entries.filterMap fun e => item? e.1 e.2) where
  ascending := by
    refine List.pairwise_filterMap.2 (table.sorted.imp fun hlt a ha b hb => ?_)
    rw [(hitem _ _ a ha).1, (hitem _ _ b hb).1]
    exact hlt
  entry item hmem := by
    obtain ⟨⟨name, x⟩, hentry, hx⟩ := List.mem_filterMap.1 hmem
    obtain ⟨rfl, -⟩ := hitem _ _ _ hx
    exact ⟨x, table.mem_entries.1 hentry, (hkept _ _).1 (hx ▸ rfl)⟩
  complete name x hget hx := by
    obtain ⟨item, hsome⟩ := Option.isSome_iff_exists.1 ((hkept name x).2 hx)
    exact ⟨item, List.mem_filterMap.2 ⟨(name, x), table.mem_entries.2 hget, hsome⟩,
      (hitem _ _ _ hsome).1⟩
  ids item hmem := by
    obtain ⟨⟨name, x⟩, -, hx⟩ := List.mem_filterMap.1 hmem
    obtain ⟨rfl, hid⟩ := hitem _ _ _ hx
    exact hid

theorem ShowsKept.nodup_ids {items : List SchemaItem} (h : ShowsKept area kept table items) :
    (items.map (·.id)).Nodup := by
  refine List.pairwise_map.2 (h.ascending.imp_of_mem fun ha hb hlt heq => ?_)
  rw [h.ids _ ha, h.ids _ hb] at heq
  exact String.lt_irrefl _ (Pointer.component_injective heq ▸ hlt)

end Folder

/-! ## The areas -/

theorem isSome_schemaItem?_iff (name : String) (schema : Schema) :
    (schemaItem? name schema).isSome ↔ schema ≠ {} := by
  unfold schemaItem?
  rw [Ne, ← Schema.isEmpty_iff]
  cases schema.isEmpty <;> simp

theorem isSome_responseItem?_iff (name : String) (response : Referable Response) :
    (responseItem? name response).isSome ↔ KeptResponse response := by
  cases response with
  | ref pointer => exact iff_of_true rfl trivial
  | item response =>
    simp only [responseItem?, KeptResponse, Ne, ← String.isEmpty_iff, ← Dict.isEmpty_iff]
    cases response.description.isEmpty <;> cases response.content.isEmpty <;> simp

section Chains

variable {components : Components} {pointer stop : String}

/-- A chain of recorded aliases is a chain of pointers that stand for request bodies. -/
theorem exists_endsAfter_iff :
    (∃ steps, (bodyAliases components).EndsAfter steps pointer stop) ↔
      Relation.ReflTransGen (PointsOn components) pointer stop ∧
        ∀ target, ¬PointsOn components stop target := by
  have hstep (p t : String) :
      PointsOn components p t ↔ (bodyAliases components).targets.get? p = some t :=
    get?_bodyAliases.symm
  constructor
  · rintro ⟨steps, h⟩
    induction h with
    | here hnone =>
      refine ⟨.refl, fun target ht => ?_⟩
      rw [hstep, hnone] at ht
      cases ht
    | next hsome _ ih => exact ⟨.head ((hstep _ _).2 hsome) ih.1, ih.2⟩
  · rintro ⟨hchain, hstop⟩
    induction hchain using Relation.ReflTransGen.head_induction_on with
    | refl =>
      refine ⟨0, .here (Option.eq_none_iff_forall_ne_some.2 fun target ht => ?_)⟩
      exact hstop target ((hstep _ _).2 ht)
    | head hnext _ ih =>
      obtain ⟨steps, hrest⟩ := ih
      exact ⟨steps + 1, .next ((hstep _ _).1 hnext) hrest⟩

theorem isSome_target?_iff :
    ((bodyAliases components).resolve.target? pointer).isSome ↔ ChainEnds components pointer := by
  rw [Option.isSome_iff_exists]
  refine exists_congr fun stop => ?_
  rw [Aliases.target?_resolve_eq_some_iff, exists_endsAfter_iff]

theorem isSome_requestBodyItem?_iff (name : String) (body : Referable RequestBody) :
    (requestBodyItem? (bodyAliases components).resolve name body).isSome ↔
      KeptBody components name body := by
  cases body with
  | ref pointer =>
    rw [requestBodyItem?, Option.isSome_map]
    exact isSome_target?_iff
  | item body =>
    have hdescription : (body.description.getD "").isEmpty = false ↔
        ∃ text, body.description = some text ∧ text ≠ "" := by
      cases body.description <;> simp
    simp only [requestBodyItem?, KeptBody, ← hdescription, Ne, ← Dict.isEmpty_iff]
    cases (body.description.getD "").isEmpty <;> cases body.content.isEmpty <;> simp

end Chains

/-! ## All folders -/

theorem schemaFolders_eq (components : Components) (ends : AliasEnds) :
    schemaFolders components ends =
      folderOf "Schemas" (components.schemas.entries.filterMap fun e => schemaItem? e.1 e.2)
        ++ folderOf "Response"
          (components.responses.entries.filterMap fun e => responseItem? e.1 e.2)
        ++ folderOf "RequestBodies"
          (components.requestBodies.entries.filterMap fun e => requestBodyItem? ends e.1 e.2) := by
  unfold schemaFolders
  rw [folder?_eq, folder?_eq, folder?_eq]

/-- Items of two areas have different ids. -/
theorem ShowsKept.disjoint_ids {α β : Type} {area other : String} {kept : String → α → Prop}
    {kept' : String → β → Prop} {table : Dict α} {table' : Dict β} {items items' : List SchemaItem}
    (h : ShowsKept area kept table items) (h' : ShowsKept other kept' table' items')
    (hne : area ≠ other) : (items.map (·.id)).Disjoint (items'.map (·.id)) := by
  rintro id hid hid'
  obtain ⟨a, ha, rfl⟩ := List.mem_map.1 hid
  obtain ⟨b, hb, heq⟩ := List.mem_map.1 hid'
  rw [h.ids a ha, h'.ids b hb] at heq
  exact hne (Pointer.component_eq_component_iff.1 heq).1.symm

/-- The folders come in the order of the areas, each if it has an item. Their items show the
schemas, responses and request bodies that say something, and no two of them have one id. -/
theorem schemaFolders_exact (components : Components) :
    ∃ schemas responses bodies : List SchemaItem,
      schemaFolders components (bodyAliases components).resolve =
        folderOf "Schemas" schemas ++ folderOf "Response" responses
          ++ folderOf "RequestBodies" bodies ∧
      ShowsKept "schemas" (fun _ schema => schema ≠ {}) components.schemas schemas ∧
      ShowsKept "responses" (fun _ => KeptResponse) components.responses responses ∧
      ShowsKept "requestBodies" (KeptBody components) components.requestBodies bodies ∧
      (((schemaFolders components (bodyAliases components).resolve).flatMap (·.items)).map
        (·.id)).Nodup := by
  have hschemas : ShowsKept "schemas" _ components.schemas _ :=
    showsKept_filterMap isSome_schemaItem?_iff fun _ _ _ => schemaItem?_id
  have hresponses : ShowsKept "responses" _ components.responses _ :=
    showsKept_filterMap isSome_responseItem?_iff fun _ _ _ => responseItem?_id
  have hbodies : ShowsKept "requestBodies" (KeptBody components) components.requestBodies _ :=
    showsKept_filterMap isSome_requestBodyItem?_iff fun _ _ _ => requestBodyItem?_id
  refine ⟨_, _, _, schemaFolders_eq components _, hschemas, hresponses, hbodies, ?_⟩
  rw [schemaFolders_eq, List.flatMap_append, List.flatMap_append, flatMap_items_folderOf,
    flatMap_items_folderOf, flatMap_items_folderOf, List.map_append, List.map_append]
  refine (hschemas.nodup_ids.append hresponses.nodup_ids ?_).append hbodies.nodup_ids ?_
  · exact hschemas.disjoint_ids hresponses (by decide)
  · rw [List.disjoint_append_left]
    exact ⟨hschemas.disjoint_ids hbodies (by decide), hresponses.disjoint_ids hbodies (by decide)⟩

end ApiFolio.Export

import ApiFolio.Proofs.Export.Webhooks
import ApiFolio.Proofs.Swagger.Form
import ApiFolio.Proofs.Swagger.Inlining

/-!
# Entries that are passed over in version 2

Moving the pointers of a document moves those of an entry that is passed over too, but such an
entry does not read before nor after (`memberAdded_moved`, `moveMember_eq_none`). So a document of
version 2 with one more of them is read as before (`readMoved?_added`), and upgraded as before
(`Document.upgrade_of_sameExtensions`).
-/

namespace ApiFolio.Swagger

open OpenApi (looseMembers readPaths?)
open Json (MemberAdded MemberReplaced)
open Record (MembersReplaced ByForm)
open Export (SameExtensions StrayEntry webhookKeys)

variable {bodies : List String} {key name : String} {value v w : Json}

/-! ## Moving pointers -/

theorem memberAdded_moved (h : MemberAdded key value v w) :
    MemberAdded key (moveMember bodies key value) (movePointers bodies v)
      (movePointers bodies w) := by
  obtain ⟨before, after, rfl, rfl, hkey⟩ := h
  refine ⟨before.map fun m => (m.1, moveMember bodies m.1 m.2),
    after.map fun m => (m.1, moveMember bodies m.1 m.2), ?_, ?_, ?_⟩
  · rw [movePointers, movePointersMembers_eq, List.map_append]
  · rw [movePointers, movePointersMembers_eq, List.map_append, List.map_cons]
  · rw [← List.map_append]
    intro m hm
    obtain ⟨m', hm', rfl⟩ := List.mem_map.1 hm
    exact hkey m' hm'

theorem form_moveMember (bodies : List String) (key : String) (value : Json) :
    (moveMember bodies key value).form = value.form := by
  cases value with
  | str s => rfl
  | _ => exact form_movePointers bodies _

/-- What does not read does not read after its pointers have been moved. -/
theorem moveMember_eq_none {α : Type} {read : Json → Option α} (h : ByForm read)
    (hvalue : read value = none) : read (moveMember bodies key value) = none := by
  have hsome := h.isSome_eq (form_moveMember bodies key value)
  rw [hvalue] at hsome
  simpa using hsome

theorem bodyParameterNames_loose {R : Json → Json → Prop} {raw raw' : Json}
    (hname : name ∈ looseMembers) (h : MemberReplaced name R raw raw') :
    bodyParameterNames raw' = bodyParameterNames raw := by
  have hne : "parameters" ≠ name := by
    rintro rfl
    exact absurd hname (by decide)
  unfold bodyParameterNames
  rw [Record.get?_replaced h hne]

/-! ## Reading -/

theorem Document.ofJson?_replaced {x y : Json} {before after : List (String × Json)}
    {doc : Document} (hname : name ∈ looseMembers)
    (hpaths : name = "paths" → readPaths? PathItem.ofJson? y = readPaths? PathItem.ofJson? x)
    (hdoc : ofJson? (.obj (before ++ (name, x) :: after)) = some doc) :
    ofJson? (.obj (before ++ (name, y) :: after)) =
      some { doc with extensions := Record.unknown layout (before ++ (name, y) :: after) } := by
  obtain ⟨ms, hms, hx⟩ := ofJson?_eq_some_iff.1 hdoc
  cases hms
  have hreplaced : MembersReplaced name (fun v w => v = x ∧ w = y) (before ++ (name, x) :: after)
    (before ++ (name, y) :: after) := .member ⟨rfl, rfl⟩ before after
  have hne {key : String} (hkey : key ∉ looseMembers) : key ≠ name := by
    rintro rfl
    exact hkey hname
  have hread : "paths" = name → ∀ v w, v = x ∧ w = y →
      readPaths? PathItem.ofJson? w = readPaths? PathItem.ofJson? v := by
    rintro heq _ _ ⟨rfl, rfl⟩
    exact hpaths heq.symm
  refine ofJson?_eq_some_iff.2 ⟨_, rfl, ?_⟩
  exact {
    info := hreplaced.withDefault? (hne (by decide)) hx.info
    host := hreplaced.optional? (hne (by decide)) hx.host
    basePath := hreplaced.optional? (hne (by decide)) hx.basePath
    schemes := hreplaced.withDefault? (hne (by decide)) hx.schemes
    consumes := hreplaced.withDefault? (hne (by decide)) hx.consumes
    produces := hreplaced.withDefault? (hne (by decide)) hx.produces
    paths := Record.withDefault?_readAlike hreplaced hread hx.paths
    definitions := hreplaced.withDefault? (hne (by decide)) hx.definitions
    parameters := hreplaced.withDefault? (hne (by decide)) hx.parameters
    responses := hreplaced.withDefault? (hne (by decide)) hx.responses
    securityDefinitions := hreplaced.withDefault? (hne (by decide)) hx.securityDefinitions
    security := hreplaced.withDefault? (hne (by decide)) hx.security
    tags := hreplaced.withDefault? (hne (by decide)) hx.tags
    externalDocs := hreplaced.optional? (hne (by decide)) hx.externalDocs
    swagger := by
      show doc.swagger = _
      rw [hx.swagger]
      unfold Record.scalarText
      rw [hreplaced.other "swagger" (hne (by decide))]
    extensions := rfl }

theorem strayEntry_moved (h : StrayEntry PathItem.ofJson? name key value) :
    StrayEntry PathItem.ofJson? name key (moveMember bodies key value) := by
  rcases h with ⟨rfl, hkey | hvalue⟩ | ⟨hname, hvalue⟩
  · exact .inl ⟨rfl, .inl hkey⟩
  · exact .inl ⟨rfl, .inr (moveMember_eq_none PathItem.byForm hvalue)⟩
  · exact .inr ⟨hname, moveMember_eq_none OpenApi.PathItem.byForm hvalue⟩

variable {raw raw' : Json} {doc : Document}

/-- A document of version 2 with one more entry that says nothing is read with extensions that say
the same, and in all else as before. -/
theorem readMoved?_added (hstray : StrayEntry PathItem.ofJson? name key value)
    (h : MemberReplaced name (MemberAdded key value) raw raw') (hdoc : readMoved? raw = some doc) :
    ∃ extensions, readMoved? raw' = some { doc with extensions } ∧
      SameExtensions doc.extensions extensions := by
  unfold readMoved? at hdoc ⊢
  rw [bodyParameterNames_loose hstray.mem_looseMembers h]
  generalize bodyParameterNames raw = bodies at hdoc ⊢
  have hmoved : StrayEntry PathItem.ofJson? name key (moveMember bodies key value) :=
    strayEntry_moved hstray
  have hreplaced : MemberReplaced name (Moved bodies (MemberAdded key value))
      (movePointers bodies raw) (movePointers bodies raw') :=
    memberReplaced_moved (fun _ _ h => h.composite) h
  obtain ⟨before, _, _, after, hraw, hraw', ⟨v, w, hadded, rfl, rfl⟩⟩ := hreplaced
  have hadded' : MemberAdded key (moveMember bodies key value) (movePointers bodies v)
      (movePointers bodies w) := memberAdded_moved hadded
  rw [hraw] at hdoc
  rw [hraw']
  refine ⟨_, Document.ofJson?_replaced hmoved.mem_looseMembers (hmoved.readPaths? hadded') hdoc, ?_⟩
  obtain ⟨ms, hms, hx⟩ := Document.ofJson?_eq_some_iff.1 hdoc
  cases hms
  rw [hx.extensions]
  exact hmoved.sameExtensions rfl hadded' before after

/-! ## Upgrading -/

variable {out : OpenApi.Document} {extensions : Dict Json}

theorem sameExtensions_upgraded (h : SameExtensions doc.extensions extensions) :
    SameExtensions doc.upgradedExtensions
      ({ doc with extensions } : Document).upgradedExtensions := by
  have hget (table : Dict Json) (path key : String) (hkey : "x-basePath" ≠ key) :
      (table.insertIfNew "x-basePath" (.str path)).get? key = table.get? key := by
    rw [Dict.get?_insertIfNew, if_neg hkey, Option.or_none]
  unfold Document.upgradedExtensions
  cases doc.basePath.filter fun p => !p.isEmpty with
  | none => exact h
  | some path =>
    constructor
    · intro key hkey
      rw [Dict.get?_insertIfNew, Dict.get?_insertIfNew, h.others key hkey]
    · have hwebhooks (table : Dict Json) :
          webhookKeys.findSome? (table.insertIfNew "x-basePath" (.str path)).get? =
            webhookKeys.findSome? table.get? := by
        simp only [webhookKeys, List.findSome?, hget table path "webhooks" (by decide),
          hget table path "x-webhooks" (by decide)]
      rw [hwebhooks, hwebhooks]
      exact h.webhooks

/-- The upgrade looks at the extensions only for the base path, which it puts among them. -/
theorem Document.upgrade_of_sameExtensions (h : SameExtensions doc.extensions extensions)
    (hout : doc.upgrade = .ok out) :
    ∃ extensions', ({ doc with extensions } : Document).upgrade =
        .ok { out with extensions := extensions' } ∧
      SameExtensions out.extensions extensions' := by
  obtain ⟨paths, components, hpaths, hcomponents, rfl⟩ := Document.upgrade_eq_ok_iff.1 hout
  exact ⟨_, Document.upgrade_eq_ok_iff.2 ⟨paths, components, hpaths, hcomponents, rfl⟩,
    sameExtensions_upgraded h⟩

end ApiFolio.Swagger

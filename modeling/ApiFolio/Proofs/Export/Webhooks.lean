import ApiFolio.Export.Conversion
import ApiFolio.Proofs.OpenApi.StrayEntries
import ApiFolio.Proofs.Swagger.Replaced

/-!
# What an export takes from the extensions

Of the extensions of a document the webhooks are read, under the first of their keys, and the rest
is exported as it is. Extensions that agree in this (`SameExtensions`) have the same export
(`convert_of_sameExtensions`). An entry among the webhooks that does not read makes no difference
(`SameExtensions.of_added`).
-/

namespace ApiFolio.Export

open OpenApi
open Json (MemberAdded)
open Record (MembersReplaced)

/-- The webhooks in the member that holds them. -/
def readWebhooks : Option Json → Dict PathItem
  | some (.obj entries) => (Dict.ofList entries).filterMap fun _ v => PathItem.ofJson? v
  | _ => ∅

theorem webhooks_eq (doc : Document) :
    webhooks doc = readWebhooks (firstExtension? doc webhookKeys) := by
  unfold webhooks readWebhooks
  rcases firstExtension? doc webhookKeys with _ | v
  · rfl
  · cases v <;> rfl

/-- Extensions that hold the same webhooks, and the same under all other keys. -/
structure SameExtensions (a b : Dict Json) : Prop where
  others : ∀ key, key ∉ webhookKeys → b.get? key = a.get? key
  webhooks : readWebhooks (webhookKeys.findSome? b.get?) =
    readWebhooks (webhookKeys.findSome? a.get?)

theorem SameExtensions.refl (a : Dict Json) : SameExtensions a a := ⟨fun _ _ => rfl, rfl⟩

/-! ## One more webhook -/

section Added

variable {name key : String} {value : Json} {R : Json → Json → Prop} {a b : Dict Json}

/-- If one member is replaced, the first of several that is present is the same or this one. -/
theorem findSome?_replaced (h : MembersReplaced name R a.entries b.entries) (keys : List String) :
    keys.findSome? b.get? = keys.findSome? a.get? ∨
      ∃ x y, keys.findSome? a.get? = some x ∧ keys.findSome? b.get? = some y ∧ R x y := by
  induction keys with
  | nil => exact .inl rfl
  | cons k rest ih =>
    have hhead : b.get? k = a.get? k ∨ ∃ x y, a.get? k = some x ∧ b.get? k = some y ∧ R x y := by
      by_cases hk : k = name
      · subst hk
        exact h.named
      · exact .inl (h.other k hk)
    rw [List.findSome?_cons, List.findSome?_cons]
    rcases hhead with heq | ⟨x, y, hx, hy, hR⟩
    · rw [heq]
      cases a.get? k with
      | none => exact ih
      | some x => exact .inl rfl
    · rw [hx, hy]
      exact .inr ⟨x, y, rfl, rfl, hR⟩

theorem readWebhooks_added (hvalue : PathItem.ofJson? value = none) {v w : Json}
    (h : MemberAdded key value v w) : readWebhooks (some w) = readWebhooks (some v) := by
  obtain ⟨before, after, rfl, rfl, hkey⟩ := h
  exact Dict.filterMap_added hkey hvalue

theorem SameExtensions.of_added (hname : name ∈ webhookKeys)
    (hvalue : PathItem.ofJson? value = none)
    (h : MembersReplaced name (MemberAdded key value) a.entries b.entries) :
    SameExtensions a b where
  others k hk := h.other k fun heq => hk (heq ▸ hname)
  webhooks := by
    rcases findSome?_replaced h webhookKeys with heq | ⟨x, y, hx, hy, hadded⟩
    · rw [heq]
    · rw [hx, hy, readWebhooks_added hvalue hadded]

/-- An entry that says nothing: among the paths an extension or what does not read, and among the
webhooks what does not read as a path item. -/
def StrayEntry {α : Type} (read : Json → Option α) (name key : String) (value : Json) : Prop :=
  name = "paths" ∧ (isExtensionKey key = true ∨ read value = none) ∨
    name ∈ webhookKeys ∧ PathItem.ofJson? value = none

variable {α : Type} {read : Json → Option α} {v w : Json}

theorem StrayEntry.mem_looseMembers (h : StrayEntry read name key value) : name ∈ looseMembers := by
  rcases h with ⟨rfl, -⟩ | ⟨hname, -⟩
  · decide
  · exact List.mem_cons_of_mem _ hname

theorem StrayEntry.readPaths? (h : StrayEntry read name key value)
    (hadded : MemberAdded key value v w) (hname : name = "paths") :
    readPaths? read w = readPaths? read v := by
  rcases h with ⟨-, hstray⟩ | ⟨hmem, -⟩
  · exact readPaths?_added hadded hstray
  · subst hname
    exact absurd hmem (by decide)

/-- With one more entry that says nothing, a document has extensions that say the same. -/
theorem StrayEntry.sameExtensions {layout : Layout} (hlayout : (Entries.get? "paths" layout).isSome)
    (h : StrayEntry read name key value) (hadded : MemberAdded key value v w)
    (before after : List (String × Json)) :
    SameExtensions (Record.unknown layout (before ++ (name, v) :: after))
      (Record.unknown layout (before ++ (name, w) :: after)) := by
  rcases h with ⟨rfl, -⟩ | ⟨hname, hvalue⟩
  · rw [Swagger.unknown_replaced hlayout before after v w]
    exact .refl _
  · exact .of_added hname hvalue (Record.membersReplaced_unknown hadded before after)

end Added

/-! ## Exporting -/

section Export

variable {doc : Document} {extensions : Dict Json} (h : SameExtensions doc.extensions extensions)

include h

theorem webhooks_of_sameExtensions : webhooks { doc with extensions } = webhooks doc := by
  rw [webhooks_eq, webhooks_eq]
  exact h.webhooks

theorem basePath?_of_sameExtensions : basePath? { doc with extensions } = basePath? doc := by
  have hfirst : firstExtension? { doc with extensions } basePathKeys =
      firstExtension? doc basePathKeys := by
    have hkeys : ∀ key ∈ basePathKeys, key ∉ webhookKeys := by decide
    simp only [firstExtension?, basePathKeys, List.findSome?,
      h.others "x-basePath" (hkeys _ (by decide)), h.others "x-base-path" (hkeys _ (by decide))]
  unfold basePath?
  rw [hfirst]

theorem extra_of_sameExtensions : extra { doc with extensions } = extra doc := by
  let isRest (key : String) : Bool := !(webhookKeys.contains key || basePathKeys.contains key)
  have hrest : extensions.entries.filter (fun e => isRest e.1) =
      doc.extensions.entries.filter fun e => isRest e.1 := by
    refine Entries.eq_of_get? (Entries.sorted_filter _ extensions.sorted)
      (Entries.sorted_filter _ doc.extensions.sorted) fun key => ?_
    rw [Entries.get?_filter, Entries.get?_filter]
    split
    · rename_i hkey
      have hnot : key ∉ webhookKeys := by
        simp only [isRest, Bool.not_eq_true', Bool.or_eq_false_iff] at hkey
        simpa using hkey.1
      exact h.others key hnot
    · rfl
  exact congrArg (fun rest => Dict.ofList (metadata doc ++ rest)) hrest

/-- Documents with extensions that say the same have the same export. -/
theorem convert_of_sameExtensions (version : String) :
    convert { doc with extensions } version = convert doc version := by
  have hitems : documentItems { doc with extensions } = documentItems doc := by
    unfold documentItems
    rw [webhooks_of_sameExtensions h]
    rfl
  have hcollection : collection { doc with extensions } = collection doc := by
    unfold collection filing
    rw [hitems]
  unfold convert
  rw [hcollection, basePath?_of_sameExtensions h, extra_of_sameExtensions h]
  rfl

end Export

end ApiFolio.Export

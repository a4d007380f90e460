import ApiFolio.Proofs.OpenApi.ReadFrom
import ApiFolio.Proofs.Record.Replaced

/-!
# Entries that are passed over

A table that is read entry by entry is read alike with one more entry that does not read
(`filterMap_added`), and so are the paths of a document (`readPaths?_added`). A document in which a
member that is read in this way, or that is not read at all, is replaced differs in its unknown
members only (`Document.ofJson?_replaced`).
-/

namespace ApiFolio

universe u

/-- Objects of which the second has one more member, under a key that the first does not have. -/
def Json.MemberAdded (key : String) (value : Json) (v w : Json) : Prop :=
  ∃ before after, v = .obj (before ++ after) ∧ w = .obj (before ++ (key, value) :: after) ∧
    ∀ m ∈ before ++ after, m.1 ≠ key

theorem Json.MemberAdded.composite {key : String} {value v w : Json}
    (h : MemberAdded key value v w) : v.Composite ∧ w.Composite := by
  obtain ⟨before, after, rfl, rfl, -⟩ := h
  exact ⟨trivial, trivial⟩

/-- A table is filtered alike with one more entry that is not accepted. -/
theorem Dict.filterMap_added {α β : Type u} {f : String → α → Option β} {key : String} {value : α}
    {before after : List (String × α)} (hkey : ∀ e ∈ before ++ after, e.1 ≠ key)
    (hf : f key value = none) :
    (Dict.ofList (before ++ (key, value) :: after)).filterMap f =
      (Dict.ofList (before ++ after)).filterMap f := by
  refine Dict.ext_get? fun k => ?_
  show Entries.get? k (Entries.filterMapValues f (Entries.sort _)) =
    Entries.get? k (Entries.filterMapValues f (Entries.sort _))
  rw [Entries.get?_filterMapValues f (Entries.sorted_sort _), Entries.get?_sort,
    Entries.get?_filterMapValues f (Entries.sorted_sort _), Entries.get?_sort]
  by_cases hk : key = k
  · subst hk
    have hnone : Entries.last? key (before ++ after) = none := Entries.last?_eq_none hkey
    have hafter : Entries.last? key after = none :=
      Entries.last?_eq_none fun e he => hkey e (List.mem_append_right _ he)
    rw [hnone, Entries.last?_append, Entries.last?_cons, hafter, if_pos rfl]
    exact hf
  · rw [Entries.last?_append, Entries.last?_cons, if_neg hk, Option.or_none,
      Entries.last?_append]

namespace Record

variable {layout : Layout} {name : String} {R : Json → Json → Prop} {x y : Json}

/-- The unknown members of two objects that differ in one member differ in this one at most. -/
theorem membersReplaced_unknown (h : R x y) (before after : List (String × Json)) :
    MembersReplaced name R (unknown layout (before ++ (name, x) :: after)).entries
      (unknown layout (before ++ (name, y) :: after)).entries := by
  let isUnknown (m : String × Json) : Bool := (Entries.get? m.1 layout).isNone
  have hget (key : String) (z : Json) :
      Entries.get? key (unknown layout (before ++ (name, z) :: after)).entries =
        ((Entries.last? key (after.filter isUnknown)).or
          (if isUnknown (name, z) = true ∧ name = key then some z else none)).or
          (Entries.last? key (before.filter isUnknown)) := by
    show Entries.get? key (Entries.sort ((before ++ (name, z) :: after).filter isUnknown)) = _
    rw [Entries.get?_sort, List.filter_append, Entries.last?_append, List.filter_cons]
    split
    · rename_i hunknown
      rw [Entries.last?_cons]
      simp only [hunknown, true_and]
    · rename_i hknown
      rw [if_neg fun hboth => hknown hboth.1, Option.or_none]
  constructor
  · intro key hkey
    rw [hget, hget, if_neg fun hboth => hkey hboth.2.symm, if_neg fun hboth => hkey hboth.2.symm]
  · rw [hget, hget]
    cases Entries.last? name (after.filter isUnknown) with
    | some z => exact .inl rfl
    | none =>
      by_cases hunknown : isUnknown (name, x) = true
      · right
        exact ⟨x, y, by rw [if_pos ⟨hunknown, rfl⟩]; rfl, by rw [if_pos ⟨hunknown, rfl⟩]; rfl, h⟩
      · left
        rw [if_neg fun hboth => hunknown hboth.1, if_neg fun hboth => hunknown hboth.1]

end Record

namespace OpenApi

open Json (MemberAdded)
open Record (MembersReplaced)

/-- Paths are read alike with one more entry that is an extension or does not read. -/
theorem readPaths?_added {α : Type} {read : Json → Option α} {key : String} {value v w : Json}
    (h : MemberAdded key value v w) (hstray : isExtensionKey key = true ∨ read value = none) :
    readPaths? read w = readPaths? read v := by
  obtain ⟨before, after, rfl, rfl, hkey⟩ := h
  refine congrArg some (Dict.filterMap_added hkey ?_)
  rcases hstray with h | h
  · exact if_pos h
  · rw [h]
    exact ite_self none

/-- The members of a document that are read entry by entry, or not before it is exported. -/
def looseMembers : List String := ["paths", "webhooks", "x-webhooks"]

/-- A document in which the paths or webhooks are replaced by some that are read alike differs in
its unknown members only. -/
theorem Document.ofJson?_replaced {name : String} {x y : Json} {before after : List (String × Json)}
    {doc : Document} (hname : name ∈ looseMembers)
    (hpaths : name = "paths" → readPaths? PathItem.ofJson? y = readPaths? PathItem.ofJson? x)
    (hdoc : ofJson? (.obj (before ++ (name, x) :: after)) = some doc) :
    ofJson? (.obj (before ++ (name, y) :: after)) =
      some { doc with extensions := Record.unknown layout (before ++ (name, y) :: after) } := by
  obtain ⟨ms, hms, hx⟩ := ofJson?_eq_some_iff.1 hdoc
  cases hms
  have hreplaced : MembersReplaced name (fun v w => v = x ∧ w = y) (before ++ (name, x) :: after)
    (before ++ (name, y) :: after) := .member ⟨rfl, rfl⟩ before after
  have hne {key : String} (hkey : key ∉ looseMembers) : key ≠ name := by
    rintro rfl
    exact hkey hname
  have hread : "paths" = name → ∀ v w, v = x ∧ w = y →
      readPaths? PathItem.ofJson? w = readPaths? PathItem.ofJson? v := by
    rintro heq _ _ ⟨rfl, rfl⟩
    exact hpaths heq.symm
  refine ofJson?_eq_some_iff.2 ⟨_, rfl, ?_⟩
  exact {
    info := hreplaced.withDefault? (hne (by decide)) hx.info
    servers := hreplaced.withDefault? (hne (by decide)) hx.servers
    paths := Record.withDefault?_readAlike hreplaced hread hx.paths
    components := hreplaced.optional? (hne (by decide)) hx.components
    security := hreplaced.withDefault? (hne (by decide)) hx.security
    tags := hreplaced.withDefault? (hne (by decide)) hx.tags
    externalDocs := hreplaced.optional? (hne (by decide)) hx.externalDocs
    openapi := by
      show doc.openapi = _
      rw [hx.openapi]
      unfold Record.scalarText
      rw [hreplaced.other "openapi" (hne (by decide))]
    extensions := rfl }

end OpenApi

end ApiFolio

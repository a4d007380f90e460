import ApiFolio.Proofs.OpenApi.LooseTexts
import ApiFolio.Proofs.Swagger.Loading
import ApiFolio.Proofs.Text.Digits
import ApiFolio.Proofs.Text.Division

/-!
# Texts that are written as something else

The check on the raw document looks at the texts that may be written as any scalar only where they
stand at the top, and there only inside records that are written as objects. A place that is looked
at has its name for itself (`eq_of_location`), as the digits of an index are known by the number
they write. So exactly at these places a coerced text has an issue (`coercion_told_iff`).
-/

namespace ApiFolio

/-! ## The name of an index -/

namespace Validation

theorem indexed_append_inj {place a b : String} {i j : Nat}
    (h : indexed place i ++ a = indexed place j ++ b) : i = j ∧ a = b := by
  have hbracket (n : Nat) : ']' ∉ Text.digits 10 n :=
    Text.notMem_digits (by decide) (by decide) (by decide) n
  have hlist : Text.digits 10 i ++ ']' :: a.toList = Text.digits 10 j ++ ']' :: b.toList := by
    simpa [indexed, String.ext_iff] using h
  rw [Text.append_cons_inj_of_notMem_left (hbracket i) (hbracket j), String.toList_inj] at hlist
  exact ⟨Text.digits_injective (by decide) (by decide) hlist.1, hlist.2⟩

end Validation

/-! ## The names of places -/

namespace OpenApi

open Validation (indexed itemsOf indexed_append_inj)

/-- What the place of a server begins with. -/
def ServerOwner.place : ServerOwner → String
  | document => ""
  | pathItem path => "paths." ++ path ++ "."
  | operation path verb => "paths." ++ path ++ "." ++ verb.name ++ "."

namespace TextPlace

/-- The name of a place. -/
def location : TextPlace → String
  | openapi => "openapi"
  | title => "info.title"
  | version => "info.version"
  | serverDefault owner index name =>
    owner.place ++ indexed "servers" index ++ ".variables." ++ name ++ ".default"
  | response path verb status =>
    "paths." ++ path ++ "." ++ verb.name ++ ".responses." ++ status ++ ".description"
  | sharedResponse name => "components.responses." ++ name ++ ".description"

/-- Whether the check on a raw document looks at a place: it stands at the top of the document, in
records that are written as objects. -/
def Checked (raw : Json) : TextPlace → Prop
  | openapi => True
  | title => ∃ info, raw.get? "info" = some (.obj info)
  | version => ∃ info, raw.get? "info" = some (.obj info)
  | serverDefault .document index name => ∃ server slots slot,
    (itemsOf (raw.get? "servers"))[index]? = some (.obj server) ∧
      Entries.get? "variables" server = some (.obj slots) ∧
      Entries.get? name slots = some (.obj slot)
  | _ => False

/-- The letters that the name of a place begins with. -/
def begins : TextPlace → List Char
  | openapi => ['o', 'p', 'e', 'n', 'a', 'p']
  | title => ['i', 'n', 'f', 'o', '.', 't']
  | version => ['i', 'n', 'f', 'o', '.', 'v']
  | serverDefault .document _ _ => ['s', 'e', 'r', 'v', 'e', 'r']
  | serverDefault (.pathItem _) _ _ => ['p', 'a', 't', 'h', 's', '.']
  | serverDefault (.operation _ _) _ _ => ['p', 'a', 't', 'h', 's', '.']
  | response _ _ _ => ['p', 'a', 't', 'h', 's', '.']
  | sharedResponse _ => ['c', 'o', 'm', 'p', 'o', 'n']

theorem take_location (place : TextPlace) : place.location.toList.take 6 = place.begins := by
  rcases place with _ | _ | _ | ⟨owner, index, name⟩ | _ | _
  case serverDefault =>
    unfold location indexed
    -- the digits of the index play no part
    generalize String.ofList (Text.digits 10 index) = digits
    unfold ServerOwner.place
    cases owner <;> simp only [String.toList_append] <;> rfl
  all_goals
    unfold location
    simp only [String.toList_append]
    rfl

theorem serverDefault_injective {i j : Nat} {a b : String}
    (h : (serverDefault .document i a).location = (serverDefault .document j b).location) :
    i = j ∧ a = b := by
  have h : "" ++ indexed "servers" i ++ ".variables." ++ a ++ ".default" =
    "" ++ indexed "servers" j ++ ".variables." ++ b ++ ".default" := h
  simp only [String.append_assoc] at h
  obtain ⟨hindex, hrest⟩ := indexed_append_inj ((String.append_right_inj _).1 h)
  exact ⟨hindex, (String.append_left_inj _).1 ((String.append_right_inj _).1 hrest)⟩

/-- A place that the check looks at has its name for itself. -/
theorem eq_of_location {raw : Json} {place other : TextPlace} (h : place.Checked raw)
    (heq : other.location = place.location) : other = place := by
  have hbegins : other.begins = place.begins := by
    rw [← take_location, ← take_location, heq]
  match place, h with
  | .openapi, _ | .title, _ | .version, _ =>
    rcases other with _ | _ | _ | ⟨_ | _ | _, _, _⟩ | _ | _ <;> first | rfl | cases hbegins
  | .serverDefault .document i a, _ =>
    rcases other with _ | _ | _ | ⟨_ | _ | _, j, b⟩ | _ | _
    case serverDefault.document =>
      obtain ⟨rfl, rfl⟩ := serverDefault_injective heq
      rfl
    all_goals cases hbegins

theorem location_ne_swagger (place : TextPlace) : place.location ≠ "swagger" := by
  intro heq
  have hbegins := place.take_location
  rw [heq] at hbegins
  rcases place with _ | _ | _ | ⟨_ | _ | _, _, _⟩ | _ | _ <;> cases hbegins

theorem location_ne_url (place : TextPlace) (index : Nat) :
    place.location ≠ indexed "servers" index ++ ".url" := by
  intro heq
  have hserver : (indexed "servers" index ++ ".url").toList.take 6 =
      ['s', 'e', 'r', 'v', 'e', 'r'] := by
    unfold indexed
    generalize String.ofList (Text.digits 10 index) = digits
    simp only [String.toList_append]
    rfl
  have hbegins := place.take_location
  rw [heq, hserver] at hbegins
  rcases place with _ | _ | _ | ⟨_ | _ | _, j, a⟩ | _ | _
  case serverDefault.document =>
    have heq : "" ++ indexed "servers" j ++ ".variables." ++ a ++ ".default" =
      indexed "servers" index ++ ".url" := heq
    simp only [String.empty_append, String.append_assoc] at heq
    obtain ⟨-, hrest⟩ := indexed_append_inj heq
    have hletter := congrArg (fun s => s.toList.take 2) hrest
    simp only [String.toList_append] at hletter
    cases hletter
  all_goals cases hbegins

end TextPlace

end OpenApi

/-! ## The issues of a raw document -/

namespace Validation

open OpenApi
open Record (ReadOf)

theorem mem_expectText {location : String} {v? : Option Json} {issue : Issue} :
    issue ∈ expectText location v? ↔ ∃ v, v? = some v ∧ v.isText = false ∧
      issue = ⟨location, "expected a string, found " ++ v.kind⟩ := by
  rcases v? with _ | v
  · simp [expectText]
  · cases v <;> simp [expectText, Json.isText]

theorem rawServer_eq (index : Nat) (server : Json) :
    rawServer index server = expectText (indexed "servers" index ++ ".url") (server.get? "url")
      ++ (membersOf (server.get? "variables")).flatMap fun m =>
        expectText (TextPlace.serverDefault .document index m.1).location (m.2.get? "default") := by
  have hlocation (name : String) : (TextPlace.serverDefault .document index name).location =
      indexed "servers" index ++ ".variables." ++ name ++ ".default" :=
    congrArg (· ++ ".variables." ++ name ++ ".default") (String.empty_append)
  simp only [rawServer, hlocation]

theorem exists_obj_of_get? {v w : Json} {name : String} (h : v.get? name = some w) :
    ∃ members, v = .obj members := by
  cases v with
  | obj members => exact ⟨members, rfl⟩
  | _ => cases h

theorem mem_membersOf {v? : Option Json} {m : String × Json} :
    m ∈ membersOf v? ↔ ∃ members, v? = some (.obj members) ∧ m ∈ members := by
  unfold membersOf
  split
  · simp
  · rename_i hne
    constructor
    · intro h
      cases h
    · rintro ⟨members, rfl, -⟩
      exact absurd rfl (hne members)

theorem itemsOf_of_items? {v? : Option Json} {items : List Json}
    (h : v?.bind Json.items? = some items) : itemsOf v? = items := by
  obtain ⟨v, rfl, hv⟩ := Option.bind_eq_some_iff.1 h
  cases v with
  | arr vs =>
    cases hv
    rfl
  | _ => cases hv

theorem ordered_of_mem_itemsOf {v? : Option Json} (ho : ∀ v ∈ v?, v.Ordered) {w : Json}
    (h : w ∈ itemsOf v?) : w.Ordered := by
  unfold itemsOf at h
  split at h
  · rename_i items
    exact (ho (.arr items) rfl).items? rfl w h
  · cases h

/-- An issue of a raw document is about a place that is looked at, about the version of an older
format, or about the address of a server. -/
theorem location_of_mem_raw {v : Json} (ho : v.Ordered) {issue : Issue} (h : issue ∈ raw v) :
    (∃ place : TextPlace, place.Checked v ∧ issue.location = place.location) ∨
      issue.location = "swagger" ∨ ∃ index, issue.location = indexed "servers" index ++ ".url" := by
  have hinfo {name : String} {w : Json} (hw : (v.get? "info" >>= Json.get? name) = some w) :
      ∃ info, v.get? "info" = some (.obj info) := by
    obtain ⟨info, hinfo, hw⟩ := Option.bind_eq_some_iff.1 hw
    obtain ⟨members, rfl⟩ := exists_obj_of_get? hw
    exact ⟨members, hinfo⟩
  unfold raw at h
  simp only [List.mem_append, List.mem_flatMap, mem_expectText] at h
  rcases h with (((⟨w, hw, -, rfl⟩ | ⟨w, hw, -, rfl⟩) | ⟨w, hw, -, rfl⟩) | ⟨w, hw, -, rfl⟩) |
    ⟨⟨server, index⟩, hserver, h⟩
  · exact .inl ⟨.openapi, trivial, rfl⟩
  · exact .inr (.inl rfl)
  · exact .inl ⟨.title, hinfo hw, rfl⟩
  · exact .inl ⟨.version, hinfo hw, rfl⟩
  · rw [rawServer_eq] at h
    simp only [List.mem_append, List.mem_flatMap, mem_expectText] at h
    rcases h with ⟨w, hw, -, rfl⟩ | ⟨⟨name, slot⟩, hslot, w, hw, -, rfl⟩
    · exact .inr (.inr ⟨index, rfl⟩)
    · have hindex : (itemsOf (v.get? "servers"))[index]? = some server :=
        List.mem_zipIdx_iff_getElem?.1 hserver
      have hserver : server.Ordered :=
        ordered_of_mem_itemsOf (fun _ => ho.get?) (List.mem_of_getElem? hindex)
      obtain ⟨slots, hslots, hmem⟩ := mem_membersOf.1 hslot
      obtain ⟨members, rfl⟩ := exists_obj_of_get? hslots
      obtain ⟨fields, rfl⟩ := exists_obj_of_get? hw
      exact .inl ⟨.serverDefault .document index name, ⟨members, slots, fields, hindex, hslots,
        Entries.get?_of_mem (hserver.get? hslots).1 hmem⟩, rfl⟩

/-- A place that is looked at has an issue if no text stands there. -/
theorem mem_raw_of_checked {v w : Json} {place : TextPlace} (h : place.Checked v)
    (hw : place.value? v = some w) (htext : w.isText = false) :
    ⟨place.location, "expected a string, found " ++ w.kind⟩ ∈ raw v := by
  unfold raw
  simp only [List.mem_append, List.mem_flatMap, mem_expectText]
  match place, h with
  | .openapi, _ => exact .inl (.inl (.inl (.inl ⟨w, hw, htext, rfl⟩)))
  | .title, ⟨info, hinfo⟩ =>
    have hw : Option.bind (v.get? "info") _ = some w := hw
    rw [hinfo] at hw ⊢
    exact .inl (.inl (.inr ⟨w, hw, htext, rfl⟩))
  | .version, ⟨info, hinfo⟩ =>
    have hw : Option.bind (v.get? "info") _ = some w := hw
    rw [hinfo] at hw ⊢
    exact .inl (.inr ⟨w, hw, htext, rfl⟩)
  | .serverDefault .document index name, ⟨server, slots, slot, hserver, hslots, hslot⟩ =>
    refine .inr ⟨(.obj server, index), List.mem_zipIdx_iff_getElem?.2 hserver, ?_⟩
    rw [rawServer_eq]
    refine List.mem_append_right _ (List.mem_flatMap.2 ⟨(name, .obj slot), ?_, ?_⟩)
    · exact mem_membersOf.2 ⟨slots, hslots, Entries.mem_of_get? hslot⟩
    · refine mem_expectText.2 ⟨w, ?_, htext, rfl⟩
      obtain ⟨u, hu, hw⟩ := Option.bind_eq_some_iff.1 hw
      obtain ⟨t, ht, hu⟩ := Option.bind_eq_some_iff.1 hu
      obtain ⟨s, hs, ht⟩ := Option.bind_eq_some_iff.1 ht
      obtain ⟨items, hitems, hs⟩ := Option.bind_eq_some_iff.1 hs
      have hitems : (v.get? "servers").bind Json.items? = some items := hitems
      rw [itemsOf_of_items? hitems, hs] at hserver
      cases hserver
      obtain rfl := Option.some.inj (ht.symm.trans hslots)
      obtain rfl := Option.some.inj (hu.symm.trans hslot)
      exact hw

/-- In a document of version 3 that loads, the text of a place is that of the scalar that stands
there. Where this is no text, there is an issue about the place exactly if the check on the raw
document looks at it. -/
theorem coercion_told_iff {raw v : Json} {loaded : Loaded} {place : TextPlace} {text : String}
    (ho : raw.Ordered) (h : Loaded.ofJson raw = .ok loaded)
    (hdialect : loaded.dialect = .openApi3) (hv : place.value? raw = some v)
    (htext : place.text? loaded.document = some text) :
    text = v.scalarText ∧ (v.isText = false →
      ((∃ issue ∈ Validation.raw raw, issue.location = place.location) ↔ place.Checked raw)) := by
  have hread := Loaded.openApi3_of_ofJson h hdialect
  have hdoc : ReadOf Document.ofJson? (some raw) (some loaded.document) := by
    rintro _ hraw _ hdoc
    cases hraw
    cases hdoc
    exact ⟨ho, hread⟩
  refine ⟨(Option.some.inj (readOf_texts hdoc place v hv text htext).2).symm,
    fun hno => ⟨?_, fun hchecked => ⟨_, mem_raw_of_checked hchecked hv hno, rfl⟩⟩⟩
  rintro ⟨issue, hissue, hlocation⟩
  rcases location_of_mem_raw ho hissue with ⟨other, hother, heq⟩ | heq | ⟨index, heq⟩
  · have hsame : place = other := TextPlace.eq_of_location hother (hlocation.symm.trans heq)
    rwa [hsame]
  · exact absurd (hlocation.symm.trans heq) place.location_ne_swagger
  · exact absurd (hlocation.symm.trans heq) (place.location_ne_url index)

/-- A document with a boolean for its version, and texts below its paths and components that are
no strings. -/
def looseTexts : Json :=
  let server : Json := .obj [("url", .str "https://{port}"),
    ("variables", .obj [("port", .obj [("default", .bool false)])])]
  .obj [
    ("components", .obj [("responses", .obj [("Gone", .obj [("description", .null)])])]),
    ("info", .obj [("title", .str "Pets"), ("version", .bool true)]),
    ("openapi", .str "3.0.0"),
    ("paths", .obj [("/pets", .obj [
      ("get", .obj [
        ("responses", .obj [("200", .obj [("description", .num (.int 404))])]),
        ("servers", .arr [server])]),
      ("servers", .arr [server])])])]

theorem coercion_told_iff_looseTexts :
    ∃ loaded, Loaded.ofJson looseTexts = .ok loaded ∧
      (∃ issue ∈ raw looseTexts, issue.location = TextPlace.version.location) ∧
      ¬∃ issue ∈ raw looseTexts, issue.location = (TextPlace.sharedResponse "Gone").location := by
  have ho : looseTexts.Ordered := Json.ordered_of_canonical_eq rfl
  refine ⟨_, rfl, ?_, ?_⟩
  · have hversion := @coercion_told_iff looseTexts _ _ .version _ ho rfl rfl rfl rfl
    exact (hversion.2 rfl).2 ⟨_, rfl⟩
  · have hshared := @coercion_told_iff looseTexts _ _ (.sharedResponse "Gone") _ ho rfl rfl rfl rfl
    exact fun h => (hshared.2 rfl).1 h

/-- The texts below paths and components are coerced, and nothing is said about them. -/
theorem not_coercion_told :
    ∃ loaded, Loaded.ofJson looseTexts = .ok loaded ∧ loaded.dialect = .openApi3 ∧
      raw looseTexts = [⟨"info.version", "expected a string, found a boolean"⟩] ∧
      ∀ place ∈ [TextPlace.response "/pets" .get "200", .sharedResponse "Gone",
          .serverDefault (.pathItem "/pets") 0 "port",
          .serverDefault (.operation "/pets" .get) 0 "port"],
        ∃ v, place.value? looseTexts = some v ∧ v.isText = false ∧
          place.text? loaded.document = some v.scalarText := by
  refine ⟨_, rfl, rfl, rfl, ?_⟩
  intro place hplace
  simp only [List.mem_cons, List.not_mem_nil, or_false] at hplace
  rcases hplace with rfl | rfl | rfl | rfl <;> exact ⟨_, rfl, rfl, rfl⟩

end Validation

end ApiFolio

import ApiFolio.Source
import ApiFolio.Proofs.Export.Arrangement
import ApiFolio.Proofs.Text.Division
import Mathlib.Data.List.Lattice
import Mathlib.Data.List.Nodup
import Mathlib.Data.List.Pairwise

/-!
# The identifiers of responses

A response is exported under its verb, the name of its path or webhook, and its status, with colons
between them (`responseIds_of_mem`). A verb has no colon, but names and statuses may have some, and
a webhook may have the name of a path. These are the only ways to one identifier for two responses
(`responseIds_exact`): where two texts with a colon in the middle are equal, they are divided at one
place, or one name goes on where the other status begins (`Text.append_cons_eq_iff`).
-/

namespace ApiFolio.Export

open OpenApi

/-- The identifiers of all responses of an export. -/
def Result.responseIds (x : Result) : List String :=
  x.apiItems.flatMap fun i => i.responses.map (·.id)

/-- The path items of a document, or those of its webhooks. -/
def itemsOf (doc : Document) : Bool → Dict PathItem
  | false => doc.paths
  | true => webhooks doc

/-- A document has a response under a status, in the operation with a verb of the path, or of the
webhook, of a name. -/
def HasResponse (doc : Document) (webhook : Bool) (name : String) (verb : Verb) (status : String) :
    Prop :=
  ∃ item op, (itemsOf doc webhook).get? name = some item ∧ item.operation? verb = some op ∧
    status ∈ op.responses.keys

/-- Verb, name and status with colons between them. -/
def responseId (method name status : String) : String := method ++ ":" ++ name ++ ":" ++ status

/-! ## Texts with a colon in the middle -/

theorem toList_append_colon (a b : String) :
    (a ++ ":" ++ b).toList = a.toList ++ ':' :: b.toList := by
  rw [String.toList_append, String.toList_append, List.append_assoc]
  rfl

theorem append_colon_eq_iff {p s q t : String} :
    p ++ ":" ++ s = q ++ ":" ++ t ↔
      p = q ∧ s = t ∨ (∃ text, q = p ++ ":" ++ text ∧ s = text ++ ":" ++ t) ∨
        ∃ text, p = q ++ ":" ++ text ∧ t = text ++ ":" ++ s := by
  have hcut {a b c d : String} :
      (∃ u, a.toList = b.toList ++ ':' :: u ∧ c.toList = u ++ ':' :: d.toList) ↔
        ∃ text, a = b ++ ":" ++ text ∧ c = text ++ ":" ++ d := by
    constructor
    · rintro ⟨u, ha, hc⟩
      refine ⟨String.ofList u, String.toList_inj.1 ?_, String.toList_inj.1 ?_⟩
      · rw [toList_append_colon, String.toList_ofList, ha]
      · rw [toList_append_colon, String.toList_ofList, hc]
    · rintro ⟨text, rfl, rfl⟩
      exact ⟨text.toList, toList_append_colon _ _, toList_append_colon _ _⟩
  rw [← String.toList_inj, toList_append_colon, toList_append_colon, Text.append_cons_eq_iff, hcut,
    hcut, String.toList_inj, String.toList_inj]

theorem colon_notMem_name (verb : Verb) : ':' ∉ verb.name.toList := by
  cases verb <;> decide

/-- An identifier tells the verb, and all that stands after it. -/
theorem responseId_eq_iff {v w : Verb} {p s q t : String} :
    responseId v.name p s = responseId w.name q t ↔ v = w ∧ p ++ ":" ++ s = q ++ ":" ++ t := by
  have hassoc (a b c : String) : responseId a b c = a ++ ":" ++ (b ++ ":" ++ c) := by
    simp only [responseId, String.append_assoc]
  have hcolon {a b c : String} (h : a = b ++ ":" ++ c) : ':' ∈ a.toList := by
    rw [h, toList_append_colon]
    exact List.mem_append_right _ List.mem_cons_self
  rw [hassoc, hassoc, append_colon_eq_iff]
  constructor
  · rintro (⟨hname, hrest⟩ | ⟨text, hw, -⟩ | ⟨text, hv, -⟩)
    · exact ⟨Verb.name_injective hname, hrest⟩
    · exact absurd (hcolon hw) (colon_notMem_name w)
    · exact absurd (hcolon hv) (colon_notMem_name v)
  · rintro ⟨rfl, hrest⟩
    exact .inl ⟨rfl, hrest⟩

/-! ## The responses of a document -/

section Document

variable {doc : Document} {i : ApiItem}

/-- The responses of an exported operation have the identifiers of its statuses. -/
theorem ids_apiItem (around : Surroundings) (name method : String) (item : PathItem)
    (op : Operation) (webhook : Bool) :
    (around.apiItem name method item op webhook).responses.map (·.id) =
      op.responses.keys.map (responseId method name) := by
  show (op.responses.entries.map _).map _ = (op.responses.entries.map _).map _
  rw [List.map_map, List.map_map]
  refine List.map_congr_left fun e _ => ?_
  obtain ⟨status, r⟩ := e
  cases r <;> rfl

theorem exists_of_mem_documentItems (h : i ∈ documentItems doc) :
    ∃ item verb op, (itemsOf doc i.webhook).get? i.path = some item ∧
      item.operation? verb = some op ∧ i.method = verb.name ∧
      i = (surroundings doc).apiItem i.path verb.name item op i.webhook := by
  rcases List.mem_append.1 h with h | h
  all_goals
    obtain ⟨e, he, h⟩ := List.mem_flatMap.1 h
    obtain ⟨⟨verb, op⟩, hop, rfl⟩ := List.mem_map.1 h
    exact ⟨e.2, verb, op, (Dict.mem_entries _).1 he, PathItem.mem_operations_iff.1 hop, rfl, rfl⟩

theorem apiItem_mem_documentItems {webhook : Bool} {name : String} {verb : Verb} {item : PathItem}
    {op : Operation} (hitem : (itemsOf doc webhook).get? name = some item)
    (hop : item.operation? verb = some op) :
    (surroundings doc).apiItem name verb.name item op webhook ∈ documentItems doc := by
  have hmem : (surroundings doc).apiItem name verb.name item op webhook ∈
      (surroundings doc).apiItems name item webhook :=
    List.mem_map.2 ⟨(verb, op), PathItem.mem_operations_iff.2 hop, rfl⟩
  cases webhook with
  | false =>
    exact List.mem_append_left _ (List.mem_flatMap.2 ⟨_, (Dict.mem_entries _).2 hitem, hmem⟩)
  | true =>
    exact List.mem_append_right _ (List.mem_flatMap.2 ⟨_, (Dict.mem_entries _).2 hitem, hmem⟩)

/-- An identifier in the export is that of a response of the document. -/
theorem hasResponse_of_mem_ids (hi : i ∈ documentItems doc) {id : String}
    (hid : id ∈ i.responses.map (·.id)) :
    ∃ verb status, i.method = verb.name ∧ id = responseId verb.name i.path status ∧
      HasResponse doc i.webhook i.path verb status := by
  obtain ⟨item, verb, op, hitem, hop, hmethod, heq⟩ := exists_of_mem_documentItems hi
  rw [heq, ids_apiItem] at hid
  obtain ⟨status, hstatus, rfl⟩ := List.mem_map.1 hid
  exact ⟨verb, status, hmethod, rfl, item, op, hitem, hop, hstatus⟩

/-- A response of the document has its identifier in the export. -/
theorem exists_mem_ids {webhook : Bool} {name : String} {verb : Verb} {status : String}
    (h : HasResponse doc webhook name verb status) :
    ∃ i ∈ documentItems doc, i.path = name ∧ i.webhook = webhook ∧
      responseId verb.name name status ∈ i.responses.map (·.id) := by
  obtain ⟨item, op, hitem, hop, hstatus⟩ := h
  refine ⟨_, apiItem_mem_documentItems hitem hop, rfl, rfl, ?_⟩
  rw [ids_apiItem]
  exact List.mem_map_of_mem hstatus

/-- The responses of one operation have different identifiers. -/
theorem nodup_ids_of_mem (hi : i ∈ documentItems doc) : (i.responses.map (·.id)).Nodup := by
  obtain ⟨item, verb, op, -, -, -, heq⟩ := exists_of_mem_documentItems hi
  rw [heq, ids_apiItem]
  have hkeys : op.responses.keys.Pairwise (· < ·) := List.pairwise_map.2 op.responses.sorted
  refine List.pairwise_map.2 (hkeys.imp fun {s t} hlt heq => ?_)
  obtain ⟨-, hrest⟩ := responseId_eq_iff.1 heq
  have hst : s = t := String.append_right_inj _ |>.1 hrest
  exact String.lt_irrefl _ (hst ▸ hlt)

theorem responseIds_perm (doc : Document) (version : String) :
    (convert doc version).responseIds.Perm
      ((documentItems doc).flatMap fun i => i.responses.map (·.id)) :=
  (apiItems_convert doc version).flatMap_right _

/-- An exported operation is one of the document, and the identifiers of its responses are made of
its verb, its name and the statuses, in the order of these. -/
theorem responseIds_of_mem {version : String} (hi : i ∈ (convert doc version).apiItems) :
    ∃ item verb op, (itemsOf doc i.webhook).get? i.path = some item ∧
      item.operation? verb = some op ∧ i.method = verb.name ∧
      i.responses.map (·.id) = op.responses.keys.map (responseId verb.name i.path) := by
  obtain ⟨item, verb, op, hitem, hop, hmethod, heq⟩ :=
    exists_of_mem_documentItems ((apiItems_convert doc version).mem_iff.1 hi)
  refine ⟨item, verb, op, hitem, hop, hmethod, ?_⟩
  rw [heq]
  exact ids_apiItem ..

end Document

theorem nodup_responseIds_iff (doc : Document) (version : String) :
    (convert doc version).responseIds.Nodup ↔
      (∀ name verb status, ¬(HasResponse doc false name verb status ∧
        HasResponse doc true name verb status)) ∧
      ∀ first second name text status verb,
        ¬(HasResponse doc first name verb (text ++ ":" ++ status) ∧
          HasResponse doc second (name ++ ":" ++ text) verb status) := by
  rw [(responseIds_perm doc version).nodup_iff, List.nodup_flatMap]
  constructor
  · rintro ⟨-, hdisjoint⟩
    have hsymm : Std.Symm (Function.onFun List.Disjoint
        fun i : ApiItem => i.responses.map (·.id)) := ⟨fun _ _ h => List.Disjoint.symm h⟩
    -- operations that share an identifier are one operation
    have hsame : ∀ {i j : ApiItem} {id : String}, i ∈ documentItems doc → j ∈ documentItems doc →
        id ∈ i.responses.map (·.id) → id ∈ j.responses.map (·.id) → i = j := by
      intro i j id hi hj hid hjd
      by_contra hne
      exact hdisjoint.forall hi hj hne hid hjd
    refine ⟨fun name verb status => ?_, fun first second name text status verb => ?_⟩
    · rintro ⟨hpath, hwebhook⟩
      obtain ⟨i, hi, -, hiw, hid⟩ := exists_mem_ids hpath
      obtain ⟨j, hj, -, hjw, hjd⟩ := exists_mem_ids hwebhook
      rw [hsame hi hj hid hjd, hjw] at hiw
      cases hiw
    · rintro ⟨hfirst, hsecond⟩
      obtain ⟨i, hi, hip, -, hid⟩ := exists_mem_ids hfirst
      obtain ⟨j, hj, hjp, -, hjd⟩ := exists_mem_ids hsecond
      rw [responseId_eq_iff.2 ⟨rfl, append_colon_eq_iff.2 (.inr (.inl ⟨text, rfl, rfl⟩))⟩] at hid
      rw [hsame hi hj hid hjd, hjp] at hip
      have hlength := congrArg String.length hip
      simp only [String.length_append] at hlength
      have hcolon : ":".length = 1 := rfl
      omega
  · rintro ⟨hshared, hdivided⟩
    refine ⟨fun i hi => nodup_ids_of_mem hi, ?_⟩
    refine (pairwise_documentItems doc).imp_of_mem fun {i j} hi hj hfirst id hid hjd => ?_
    obtain ⟨v, s, hv, rfl, his⟩ := hasResponse_of_mem_ids hi hid
    obtain ⟨w, t, hw, heq, hjt⟩ := hasResponse_of_mem_ids hj hjd
    obtain ⟨rfl, hrest⟩ := responseId_eq_iff.1 heq
    rcases append_colon_eq_iff.1 hrest with ⟨hpath, rfl⟩ | ⟨text, hpath, rfl⟩ | ⟨text, hpath, rfl⟩
    · obtain ⟨hiw, hjw⟩ := hfirst hpath (hv.trans hw.symm)
      rw [hiw] at his
      rw [hjw, ← hpath] at hjt
      exact hshared _ _ _ ⟨his, hjt⟩
    · rw [hpath] at hjt
      exact hdivided _ _ _ _ _ _ ⟨his, hjt⟩
    · rw [hpath] at his
      exact hdivided _ _ _ _ _ _ ⟨hjt, his⟩

/-- The identifiers of the responses of an exported operation are its verb, its name and the
statuses with colons between them. All those of an export are different exactly when no response of
a webhook has the name, the verb and the status of one of a path, and there are no two responses of
one verb where the name of the second is that of the first with a colon and a text after it, and the
status of the first is this text with a colon and the status of the second after it. -/
theorem responseIds_exact (doc : Document) (version : String) :
    (∀ i ∈ (convert doc version).apiItems,
      ∃ item verb op, (itemsOf doc i.webhook).get? i.path = some item ∧
        item.operation? verb = some op ∧ i.method = verb.name ∧
        i.responses.map (·.id) = op.responses.keys.map (responseId verb.name i.path)) ∧
    ((convert doc version).responseIds.Nodup ↔
      (∀ name verb status, ¬(HasResponse doc false name verb status ∧
        HasResponse doc true name verb status)) ∧
      ∀ first second name text status verb,
        ¬(HasResponse doc first name verb (text ++ ":" ++ status) ∧
          HasResponse doc second (name ++ ":" ++ text) verb status)) :=
  ⟨fun _ hi => responseIds_of_mem hi, nodup_responseIds_iff doc version⟩

/-- A path and a webhook of one name, and two paths that differ in what a status begins with. -/
def echoDocument : Json :=
  let operation (status : String) : Json :=
    .obj [("get", .obj [("responses", .obj [(status, .obj [("description", .str "ok")])])])]
  .obj [("info", .obj [("title", .str "Pets"), ("version", .str "1")]),
    ("openapi", .str "3.1.0"),
    ("paths", .obj [("/a", operation "b:200"), ("/a:b", operation "200"),
      ("/pets", operation "200")]),
    ("webhooks", .obj [("/pets", operation "200")])]

/-- Different responses may have one identifier: those of a path and a webhook of the same name, and
those of two paths, where a status has a colon. -/
theorem not_nodup_responseIds :
    ∃ loaded, Loaded.ofJson echoDocument = .ok loaded ∧
      (convert loaded.document loaded.declaredVersion).responseIds.Perm
        ["get:/a:b:200", "get:/a:b:200", "get:/pets:200", "get:/pets:200"] ∧
      ¬(convert loaded.document loaded.declaredVersion).responseIds.Nodup := by
  obtain ⟨loaded, hloaded, hids⟩ : ∃ loaded, Loaded.ofJson echoDocument = .ok loaded ∧
      ((documentItems loaded.document).flatMap fun i => i.responses.map (·.id)) =
        ["get:/a:b:200", "get:/a:b:200", "get:/pets:200", "get:/pets:200"] := ⟨_, rfl, rfl⟩
  have hperm := responseIds_perm loaded.document loaded.declaredVersion
  rw [hids] at hperm
  refine ⟨loaded, hloaded, hperm, ?_⟩
  rw [hperm.nodup_iff]
  decide

end ApiFolio.Export

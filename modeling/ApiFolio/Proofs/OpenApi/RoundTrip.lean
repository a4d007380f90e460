import ApiFolio.Proofs.OpenApi.Whole

/-!
# Documents that were read are read again as they are

Reading takes no null for an illustration, so what was read is in its settled form, and a document
that was read is read again from what it writes (`Document.ofJson?_toJson_of_read`): whatever the
form in which it was given, with positional records, pointers with members beside them, scalars in
the place of texts, paths that do not read or members that have no field.
-/

namespace ApiFolio.OpenApi

open Record

/-! ## What was read is settled -/

@[simp] theorem settledValue_value (members : List (String × Json)) (name : String) :
    settledValue (value members name) = value members name := by
  unfold value
  split
  · rfl
  · rfl
  · rename_i v hnull _
    cases v <;> first | rfl | exact absurd rfl hnull

theorem list_map_eq_self {α : Type} {f : α → α} {xs : List α} (h : ∀ x ∈ xs, f x = x) :
    xs.map f = xs := by
  rw [List.map_congr_left h, List.map_id']

theorem option_map_eq_self {α : Type} {f : α → α} {x : Option α} (h : ∀ y ∈ x, f y = y) :
    x.map f = x := by
  cases x with
  | none => rfl
  | some y => exact congrArg some (h y rfl)

theorem Referable.map_eq_self {α : Type} {read : Json → Option α} {f : α → α}
    (hread : ∀ v x, v.Ordered → read v = some x → f x = x) (v : Json) (r : Referable α)
    (ho : v.Ordered) (h : ofJson? read v = some r) : r.map f = r := by
  unfold ofJson? at h
  split at h
  · cases h
    rfl
  · obtain ⟨x, hx, rfl⟩ := Option.map_eq_some_iff.1 h
    exact congrArg item (hread v x ho hx)

theorem MediaType.settled_of_ofJson? (v : Json) (x : MediaType) (_ : v.Ordered)
    (h : ofJson? v = some x) : x.settled = x := by
  obtain ⟨ms, -, h⟩ := ofJson?_eq_some_iff.1 h
  unfold settled
  rw [h.sample, settledValue_value, ← h.sample]

theorem Content.settled_of_dict? {members : List (String × Json)} {name : String}
    {content : Content} (ho : ∀ m ∈ members, m.2.Ordered)
    (h : dict? members name MediaType.ofJson? = some content) :
    content.map MediaType.settled = content :=
  Dict.map_eq_self (dict?_all ho MediaType.settled_of_ofJson? h)

theorem Parameter.settled_of_ofJson? (v : Json) (x : Parameter) (ho : v.Ordered)
    (h : ofJson? v = some x) : x.settled = x := by
  obtain ⟨ms, hms, h⟩ := ofJson?_eq_some_iff.1 h
  unfold settled
  rw [h.sample, settledValue_value, ← h.sample,
    Content.settled_of_dict? (members?_all ho hms) h.content]

theorem RequestBody.settled_of_ofJson? (v : Json) (x : RequestBody) (ho : v.Ordered)
    (h : ofJson? v = some x) : x.settled = x := by
  obtain ⟨ms, hms, h⟩ := ofJson?_eq_some_iff.1 h
  unfold settled
  rw [Content.settled_of_dict? (members?_all ho hms) h.content]

theorem Response.settled_of_ofJson? (v : Json) (x : Response) (ho : v.Ordered)
    (h : ofJson? v = some x) : x.settled = x := by
  obtain ⟨ms, hms, h⟩ := ofJson?_eq_some_iff.1 h
  unfold settled
  rw [Content.settled_of_dict? (members?_all ho hms) h.content]

theorem Operation.settled_of_ofJson? (v : Json) (x : Operation) (ho : v.Ordered)
    (h : ofJson? v = some x) : x.settled = x := by
  obtain ⟨ms, hms, h⟩ := ofJson?_eq_some_iff.1 h
  have hmembers := members?_all ho hms
  unfold settled
  rw [list_map_eq_self (list?_all hmembers
      (Referable.map_eq_self Parameter.settled_of_ofJson?) h.parameters),
    option_map_eq_self (optional?_all hmembers
      (Referable.map_eq_self RequestBody.settled_of_ofJson?) h.requestBody),
    Dict.map_eq_self (dict?_all hmembers
      (Referable.map_eq_self Response.settled_of_ofJson?) h.responses)]

theorem PathItem.settled_of_ofJson? (v : Json) (x : PathItem) (ho : v.Ordered)
    (h : ofJson? v = some x) : x.settled = x := by
  obtain ⟨ms, hms, h⟩ := ofJson?_eq_some_iff.1 h
  have hmembers := members?_all ho hms
  have hop : ∀ {name y}, optional? ms name Operation.ofJson? = some y →
      y.map Operation.settled = y := fun hy =>
    option_map_eq_self (optional?_all hmembers Operation.settled_of_ofJson? hy)
  unfold settled
  rw [hop h.get, hop h.put, hop h.post, hop h.delete, hop h.options, hop h.head, hop h.patch,
    hop h.trace, list_map_eq_self (list?_all hmembers
      (Referable.map_eq_self Parameter.settled_of_ofJson?) h.parameters)]

theorem Components.settled_of_ofJson? (v : Json) (x : Components) (ho : v.Ordered)
    (h : ofJson? v = some x) : x.settled = x := by
  obtain ⟨ms, hms, h⟩ := ofJson?_eq_some_iff.1 h
  have hmembers := ho.members? hms
  unfold settled
  rw [Dict.map_eq_self (dict?_all hmembers
      (Referable.map_eq_self Response.settled_of_ofJson?) h.responses),
    Dict.map_eq_self (dict?_all hmembers
      (Referable.map_eq_self Parameter.settled_of_ofJson?) h.parameters),
    Dict.map_eq_self (dict?_all hmembers
      (Referable.map_eq_self RequestBody.settled_of_ofJson?) h.requestBodies)]

theorem Document.settled_of_ofJson? {v : Json} {x : Document} (ho : v.Ordered)
    (h : ofJson? v = some x) : x.settled = x := by
  obtain ⟨ms, hms, h⟩ := ofJson?_eq_some_iff.1 h
  have hmembers := ho.members? hms
  have hpaths : x.paths.map PathItem.settled = x.paths := Dict.map_eq_self fun e he =>
    (whole_of_readPaths? PathItem.settled_of_ofJson? hmembers h.paths e he).2
  unfold settled
  rw [hpaths, option_map_eq_self (optional?_all hmembers Components.settled_of_ofJson?
    h.components)]

/-! ## The round trip -/

/-- A document that was read of an ordered value is read again from what it writes. -/
theorem Document.ofJson?_toJson_of_read {v : Json} (ho : v.Ordered) {doc : Document}
    (h : ofJson? v = some doc) : ofJson? doc.toJson.canonical = some doc := by
  rw [Document.ofJson?_toJson (whole_of_ofJson? ho h), settled_of_ofJson? ho h]

/-- A document with a truth value for its version, a path that does not read and one with a
positional parameter, a pointer with a member beside it, nulls, and members that have no field. -/
def looseDocument : Json :=
  .obj [("components", .obj [("examples", .obj [("Rex", .null)]),
      ("responses", .obj [("Gone", .arr [.bool true])]),
      ("schemas", .obj [("Pet", .obj [("properties", .obj []), ("title", .null),
        ("xml", .null)])])]),
    ("info", .obj [("title", .str "Pets"), ("version", .bool true)]),
    ("paths", .obj [("/broken", .bool false),
      ("/pets", .obj [("get", .obj [
        ("parameters", .arr [.arr [.str "limit", .str "query", .null, .bool false, .null, .null,
          .null, .null, .null]]),
        ("responses", .obj [("410", .obj [("$ref", .str "#/components/responses/Gone"),
          ("description", .str "gone")])])])])]),
    ("x-rank", .arr [.null])]

theorem ofJson?_toJson_looseDocument :
    ∃ doc, Document.ofJson? looseDocument = some doc ∧ doc.paths.keys = ["/pets"] ∧
      Document.ofJson? doc.toJson.canonical = some doc := by
  obtain ⟨doc, hdoc, hkeys⟩ : ∃ doc, Document.ofJson? looseDocument = some doc ∧
      doc.paths.keys = ["/pets"] := ⟨_, rfl, rfl⟩
  have hordered : looseDocument.Ordered := Json.ordered_of_canonical_eq rfl
  exact ⟨doc, hdoc, hkeys, Document.ofJson?_toJson_of_read hordered hdoc⟩

end ApiFolio.OpenApi

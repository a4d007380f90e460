import ApiFolio.Proofs.Swagger.SharedPointers

/-!
# Where the entries of parameter lists go

The upgrade keeps every entry of a parameter list and takes none twice (`upgrade_keepsEntries`).
Those that are neither bodies nor form fields stay in their list, in order, and the others of a path
go into each of its operations. Of the bodies of an operation the last counts, and without a body
the form fields make one up, of several with one name the last (`bodyKept_requestBody`).
-/

namespace ApiFolio.Swagger

open OpenApi (Referable RequestBody MediaType Schema)

namespace Document

variable {doc : Document} {q : Referable Parameter} {ps : List (Referable Parameter)}

/-! ## Forms -/

/-- A schema has a property for each name of a field, made of the last field of this name, and
requires each name the last field of which is required. -/
structure FormSchema (fields : List Parameter) (schema : Schema) : Prop where
  object : schema = { Schema.ofType "object" with
    properties := schema.properties, required := schema.required }
  sorted : Entries.Sorted schema.properties
  names : ∀ name, name ∈ schema.properties.map (·.1) ↔ name ∈ fields.map (·.name)
  property : ∀ f, IsLastField f fields →
    Entries.get? f.name schema.properties = some f.property
  required : ∃ names : List String, names.Nodup ∧
    (∀ name, name ∈ names ↔ ∃ f, IsLastField f fields ∧ f.name = name ∧ f.required = some true) ∧
    schema.required = if names = [] then none else some (.arr (names.map .str))

theorem formSchema_of_last {last fields : List Parameter} (hnodup : (last.map (·.name)).Nodup)
    (hlast : ∀ f, f ∈ last ↔ IsLastField f fields) : FormSchema fields (formSchema last) := by
  have hkeys : ((last.map fun f => (f.name, f.property)).map (·.1)).Nodup := by
    rwa [List.map_map]
  have hmem (e : String × Schema) : e ∈ (formSchema last).properties ↔
      e ∈ last.map fun f => (f.name, f.property) := Entries.mem_sort_iff hkeys
  have hsorted : Entries.Sorted (formSchema last).properties := Entries.sorted_sort _
  refine ⟨rfl, hsorted, fun name => ?_, fun f hf => ?_, ?_⟩
  · constructor
    · intro h
      obtain ⟨e, he, rfl⟩ := List.mem_map.1 h
      obtain ⟨f, hf, rfl⟩ := List.mem_map.1 ((hmem e).1 he)
      exact List.mem_map_of_mem ((hlast f).1 hf).mem
    · intro h
      obtain ⟨f, hf, rfl⟩ := List.mem_map.1 h
      obtain ⟨g, hg, hname⟩ := exists_isLastField hf
      exact List.mem_map.2 ⟨(g.name, g.property),
        (hmem _).2 (List.mem_map.2 ⟨g, (hlast g).2 hg, rfl⟩), hname⟩
  · exact (Entries.mem_iff_get? hsorted).1
      ((hmem _).2 (List.mem_map.2 ⟨f, (hlast f).2 hf, rfl⟩))
  · refine ⟨(last.filter fun f => f.required = some true).map (·.name),
      hnodup.sublist (List.filter_sublist.map _), fun name => ?_, ?_⟩
    · constructor
      · intro h
        obtain ⟨f, hf, rfl⟩ := List.mem_map.1 h
        obtain ⟨hmem, hrequired⟩ := List.mem_filter.1 hf
        exact ⟨f, (hlast f).1 hmem, rfl, of_decide_eq_true hrequired⟩
      · rintro ⟨f, hf, rfl, hrequired⟩
        exact List.mem_map_of_mem
          (List.mem_filter.2 ⟨(hlast f).2 hf, decide_eq_true hrequired⟩)
    · simp only [formSchema, List.isEmpty_iff, List.map_eq_nil_iff, List.map_map,
        Function.comp_def]

/-- The fields of a form are files, or the media types name the form with files. -/
def NeedsMultipart (consumes : List String) (fields : List Parameter) : Prop :=
  multipartForm ∈ consumes ∨ ∃ f, IsLastField f fields ∧ f.type = some "file"

/-- What form fields become: a body with one media type, under which is the schema of the form. -/
def UpgradedForm (consumes : List String) (fields : List Parameter)
    (body : Option (Referable RequestBody)) : Prop :=
  ∃ b mime schema, body = some (.item b) ∧
    b.content.entries = [(mime, ({ schema := some schema } : MediaType))] ∧
    FormSchema fields schema ∧
    (NeedsMultipart consumes fields → mime = multipartForm) ∧
    (¬NeedsMultipart consumes fields → mime = urlencodedForm) ∧
    (b.required = some true ↔ ∃ f, IsLastField f fields ∧ f.required = some true)

theorem upgradedForm_of_last {consumes : List String} {last fields : List Parameter}
    (hnodup : (last.map (·.name)).Nodup) (hlast : ∀ f, f ∈ last ↔ IsLastField f fields) :
    UpgradedForm consumes fields (some (.item (formBody last consumes))) := by
  have hmultipart : (last.any Parameter.isFile || consumes.contains multipartForm) = true ↔
      NeedsMultipart consumes fields := by
    simp [NeedsMultipart, Parameter.isFile, hlast, or_comm]
  refine ⟨_, _, _, rfl, rfl, formSchema_of_last hnodup hlast, fun h => if_pos (hmultipart.2 h),
    fun h => if_neg fun h' => h (hmultipart.1 h'), ?_⟩
  simp [formBody, hlast]

/-! ## Bodies -/

/-- What a body becomes: a pointer stays a pointer, and a parameter becomes a body that has its
schema under each of the media types. -/
def UpgradedBody (consumes : List String) :
    Referable Parameter → Option (Referable RequestBody) → Prop
  | .ref pointer, body => body = some (.ref pointer)
  | .item p, body => ∃ b schema, body = some (.item b) ∧ p.schema = some schema ∧
      b.description = p.description ∧ b.required = p.required ∧
      ∀ mime, b.content.get? mime =
        if mime ∈ consumes then some ({ schema := some schema } : MediaType) else none

theorem upgradedBody_of_upgradeBody {consumes : List String} {p : Parameter} {b : RequestBody}
    (h : p.upgradeBody consumes = .ok b) : UpgradedBody consumes (.item p) (some (.item b)) := by
  unfold Parameter.upgradeBody at h
  split at h
  · cases h
  · rename_i schema hschema
    cases h
    refine ⟨_, schema, rfl, hschema, rfl, rfl, fun mime => ?_⟩
    show Entries.get? mime (Entries.sort (consumes.map fun m => (m, _))) = _
    rw [Entries.get?_sort, Entries.last?_map_const]

theorem not_upgradedBody_none {consumes : List String} : ¬UpgradedBody consumes q none := by
  cases q with
  | ref pointer => exact Option.some_ne_none (Referable.ref pointer) ∘ Eq.symm
  | item p => rintro ⟨b, schema, hb, -⟩; cases hb

theorem nextBody_of_not_isBody {consumes : List String} {body : Option (Referable RequestBody)}
    (h : ¬IsBody q) : doc.nextBody consumes body q = .ok body := by
  have hkind := doc.kindOf q
  unfold nextBody
  generalize doc.role q = role at hkind
  cases hkind with
  | bodyPointer pointer hbody => exact absurd hbody h
  | body p hbody => exact absurd hbody h
  | field => rfl
  | other => rfl

theorem upgradedBody_of_nextBody {consumes : List String}
    {body next : Option (Referable RequestBody)} (h : IsBody q)
    (hnext : doc.nextBody consumes body q = .ok next) : UpgradedBody consumes q next := by
  have hkind := doc.kindOf q
  unfold nextBody at hnext
  generalize doc.role q = role at hkind hnext
  cases hkind with
  | bodyPointer pointer =>
    cases hnext
    rfl
  | body p =>
    obtain ⟨b, hb, rfl⟩ := exists_of_map_eq_ok hnext
    exact upgradedBody_of_upgradeBody hb
  | field q f hf hbody => exact absurd h hbody
  | other q hother => exact absurd h hother.1

/-- The last body among the entries counts. -/
theorem upgradedBody_of_explicitBody {consumes : List String}
    {body : Option (Referable RequestBody)} (h : doc.explicitBody consumes ps = .ok body) :
    (∀ q, (ps.filter IsBody).getLast? = some q → UpgradedBody consumes q body) ∧
      (ps.filter IsBody = [] → body = none) := by
  rw [explicitBody_eq] at h
  induction ps using List.reverseRecOn generalizing body with
  | nil =>
    cases h
    exact ⟨fun q hq => (Option.some_ne_none q hq.symm).elim, fun _ => rfl⟩
  | append_singleton ps p ih =>
    rw [List.foldlM_append] at h
    obtain ⟨before, hbefore, h⟩ := exists_of_bind_eq_ok h
    rw [List.foldlM_cons] at h
    obtain ⟨next, hnext, h⟩ := exists_of_bind_eq_ok h
    cases h
    rw [List.filter_append]
    by_cases hp : IsBody p
    · rw [List.filter_cons_of_pos (by simpa using hp), List.filter_nil]
      refine ⟨fun q hq => ?_, fun hnil => ?_⟩
      · rw [List.getLast?_concat] at hq
        cases hq
        exact upgradedBody_of_nextBody hp hnext
      · simp at hnil
    · rw [List.filter_cons_of_neg (by simpa using hp), List.filter_nil, List.append_nil]
      rw [nextBody_of_not_isBody hp] at hnext
      cases hnext
      exact ih hbefore

variable (doc) in
/-- What the entries become as the body of a request: of several bodies the last counts, and the
form fields make one up where there is no other. -/
structure BodyKept (consumes : List String) (ps : List (Referable Parameter))
    (body : Option (Referable RequestBody)) : Prop where
  last : ∀ q, (ps.filter IsBody).getLast? = some q → UpgradedBody consumes q body
  form : ps.filter IsBody = [] → doc.fieldEntries ps ≠ [] →
    UpgradedForm consumes (doc.fieldEntries ps) body
  none : ps.filter IsBody = [] → doc.fieldEntries ps = [] → body = none

theorem bodyKept_requestBody {consumes : List String} {body : Option (Referable RequestBody)}
    (h : doc.requestBody consumes ps = .ok body) : doc.BodyKept consumes ps body := by
  obtain ⟨explicit, hexplicit, h⟩ := exists_of_bind_eq_ok h
  obtain ⟨hlast, hnone⟩ := upgradedBody_of_explicitBody hexplicit
  cases explicit with
  | some b =>
    cases h
    exact ⟨hlast, fun hnil => (Option.some_ne_none b (hnone hnil)).elim,
      fun hnil => (Option.some_ne_none b (hnone hnil)).elim⟩
  | none =>
    dsimp only at h
    refine ⟨fun q hq => absurd (hlast q hq) not_upgradedBody_none, fun _ hfields => ?_,
      fun _ hfields => ?_⟩
    · split at h
      · rename_i hnil
        exact absurd (formFields_eq_nil_iff.1 hnil) hfields
      · rename_i f fs hcons
        cases h
        rw [← hcons]
        exact upgradedForm_of_last (nodup_names_formFields ps) fun _ => mem_formFields_iff
    · rw [formFields_eq_nil_iff.2 hfields] at h
      cases h
      rfl

/-! ## Whole documents -/

/-- The entries that an operation is upgraded with: those of its path that are bodies or form
fields, then its own. -/
def foldedEntries (doc : Document) (item : PathItem) (op : Operation) :
    List (Referable Parameter) :=
  (item.parameters.filter fun q => ¬doc.IsOther q) ++ op.parameters

/-- What the upgrade keeps of an operation. -/
structure OperationKept (doc : Document) (item : PathItem) (op : Operation)
    (x : OpenApi.Operation) : Prop where
  parameters : x.parameters = doc.otherEntries op.parameters
  body : doc.BodyKept (mediaTypes op.consumes doc.consumes) (doc.foldedEntries item op)
    x.requestBody

/-- What the upgrade keeps of a path item. -/
structure PathItemKept (doc : Document) (item : PathItem) (u : OpenApi.PathItem) : Prop where
  parameters : u.parameters = doc.otherEntries item.parameters
  operations : ∀ verb, Option.Rel (doc.OperationKept item) (item.operation? verb)
    (u.operation? verb)
  trace : u.trace = none

/-- What the upgrade keeps of a document. Pointers to shared parameters are of the kind that these
are of. -/
structure EntriesKept (doc : Document) (out : OpenApi.Document) : Prop where
  pointers : ∀ pointer p, doc.NamesParameter pointer p →
    (IsBody (.ref pointer) ↔ p.location = "body") ∧
      doc.field? (.ref pointer) = if p.location = "formData" then some p else none
  paths : out.paths.keys = doc.paths.keys
  items : ∀ path item, doc.paths.get? path = some item →
    ∃ u, out.paths.get? path = some u ∧ doc.PathItemKept item u

theorem entriesOf_eq (item : PathItem) (op : Operation) :
    doc.entriesOf item op = doc.foldedEntries item op := by
  unfold entriesOf foldedEntries
  rw [List.filter_congr fun q _ => (isInherited_eq q).trans decide_not.symm]

/-- What an operation takes from its path stays no parameter. -/
theorem otherEntries_foldedEntries (item : PathItem) (op : Operation) :
    doc.otherEntries (doc.foldedEntries item op) = doc.otherEntries op.parameters := by
  unfold otherEntries foldedEntries
  rw [List.filter_append, List.filter_filter]
  simp

theorem operationKept {item : PathItem} {op : Operation} {x : OpenApi.Operation}
    (h : doc.upgradeOperation (item.parameters.filter doc.isInherited) op = .ok x) :
    doc.OperationKept item op x := by
  obtain ⟨body, hbody, rfl⟩ := upgradeOperation_eq_ok_iff.1 h
  rw [show _ ++ op.parameters = doc.foldedEntries item op from entriesOf_eq item op] at hbody
  refine ⟨?_, bodyKept_requestBody hbody⟩
  show doc.plainParameters (doc.entriesOf item op) = _
  rw [plainParameters_eq, entriesOf_eq, otherEntries_foldedEntries]

theorem pathItemKept {item : PathItem} {u : OpenApi.PathItem}
    (h : doc.upgradePathItem item = .ok u) : doc.PathItemKept item u := by
  obtain ⟨hops, hu⟩ := upgradePathItem_eq_ok_iff.1 h
  refine ⟨?_, fun verb => ?_, congrArg OpenApi.PathItem.trace hu⟩
  · rw [hu]
    exact plainParameters_eq item.parameters
  · have hverb := hops verb
    generalize u.operation? verb = x at hverb
    cases hop : item.operation? verb with
    | none =>
      rw [hop] at hverb
      cases hverb
      exact .none
    | some op =>
      rw [hop] at hverb
      obtain ⟨y, hy, rfl⟩ := exists_of_map_eq_ok hverb
      exact .some (operationKept hy)

/-- The upgrade keeps every entry of a parameter list and takes none twice. -/
theorem upgrade_keepsEntries {out : OpenApi.Document} (hout : doc.upgrade = .ok out) :
    doc.EntriesKept out := by
  refine ⟨fun pointer p => kind_of_namesParameter, ?_, fun path item hitem => ?_⟩
  · obtain ⟨paths, components, hpaths, -, rfl⟩ := upgrade_eq_ok_iff.1 hout
    have hkeys := keys_upgradeEntries hpaths
    show (Entries.sort paths).map (·.1) = _
    rw [Entries.sort_of_sorted (doc.paths.sorted.of_keys hkeys), hkeys]
    rfl
  · obtain ⟨u, hu, hget⟩ := get?_paths_upgrade hout hitem
    exact ⟨u, hget, pathItemKept hu⟩

/-- A path with a pointer to a shared field of a form and with a parameter, and an operation that
has the field as one of its own, a file, and a parameter. -/
def albumDocument : Document where
  parameters := Dict.ofList [("Caption", { name := "caption", location := "formData" })]
  paths := Dict.ofList [("/photos", {
    parameters := [.ref "#/components/parameters/Caption",
      .item { name := "lang", location := "query" }]
    post := some {
      parameters := [.item { name := "photo", location := "formData", type := some "file" },
        .item { name := "album", location := "header" },
        .item { name := "caption", location := "formData", required := some true }] } })]

theorem upgrade_keepsEntries_albumDocument :
    ∃ out u x, albumDocument.upgrade = .ok out ∧ out.paths.get? "/photos" = some u ∧
      u.parameters = [.item (Parameter.upgrade { name := "lang", location := "query" })] ∧
      u.operation? .post = some x ∧
      x.parameters = [.item (Parameter.upgrade { name := "album", location := "header" })] ∧
      ∃ b schema, x.requestBody = some (.item b) ∧
        b.content.entries = [("multipart/form-data", { schema := some schema })] ∧
        "caption" ∈ schema.properties.map (·.1) := by
  obtain ⟨out, hout⟩ : ∃ out, albumDocument.upgrade = .ok out := ⟨_, rfl⟩
  obtain ⟨-, -, hitems⟩ := upgrade_keepsEntries hout
  obtain ⟨u, hu, hparameters, hops, -⟩ := hitems "/photos" _ rfl
  have hpost := hops .post
  cases hx : u.operation? .post with
  | none =>
    rw [hx] at hpost
    cases hpost
  | some x =>
    rw [hx] at hpost
    cases hpost with
    | some hkept =>
      obtain ⟨b, mime, schema, hb, hcontent, hschema, hmime, -, -⟩ :=
        hkept.body.form rfl (List.cons_ne_nil _ _)
      rw [hmime (.inr ⟨{ name := "photo", location := "formData", type := some "file" }, rfl, rfl⟩)]
        at hcontent
      exact ⟨out, u, x, hout, hu, hparameters, hx, hkept.parameters, b, schema, hb, hcontent,
        (hschema.names "caption").2 List.mem_cons_self⟩

end Document

end ApiFolio.Swagger

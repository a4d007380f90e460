import ApiFolio.Proofs.Swagger.Kinds
import ApiFolio.Proofs.Swagger.Upgraded

/-!
# Which documents the upgrade refuses

A document is refused for one of its parts: a body without a schema, or a security scheme that
version 3 does not know. The parts that count stand in one list, in the order in which the upgrade
meets them (`Document.parts`), and the upgrade ends by the first of them that is to be refused
(`endsBy_upgrade`).
-/

namespace ApiFolio.Swagger

open OpenApi (Referable RequestBody)

/-! ## Computations that end by their first fault -/

/-- A computation ends by the first of the faults; it ends well if there is none. -/
def EndsBy {ε α : Type} : List ε → Except ε α → Prop
  | [], x => ∃ a, x = .ok a
  | e :: _, x => x = .error e

namespace EndsBy

variable {ε α β : Type} {es fs : List ε}

theorem ok (a : α) : EndsBy [] (.ok a : Except ε α) := ⟨a, rfl⟩

/-- The faults of the rest count where the first step has none. -/
theorem bind {x : Except ε α} {f : α → Except ε β} (hx : EndsBy es x)
    (hf : ∀ a, EndsBy fs (f a)) : EndsBy (es ++ fs) (x >>= f) := by
  cases es with
  | nil =>
    obtain ⟨a, rfl⟩ := hx
    exact hf a
  | cons e es =>
    have hx : x = .error e := hx
    rw [hx]
    rfl

theorem map {x : Except ε α} (hx : EndsBy es x) (f : α → β) : EndsBy es (x.map f) := by
  cases es with
  | nil =>
    obtain ⟨a, rfl⟩ := hx
    exact .ok (f a)
  | cons e es =>
    have hx : x = .error e := hx
    rw [hx]
    rfl

/-- A walk over a list meets the faults of its steps one after the other. -/
theorem foldlM {g : α → List ε} {f : β → α → Except ε β} (h : ∀ b a, EndsBy (g a) (f b a))
    (b : β) (as : List α) : EndsBy (as.flatMap g) (as.foldlM f b) := by
  induction as generalizing b with
  | nil => exact .ok b
  | cons a as ih =>
    rw [List.foldlM_cons, List.flatMap_cons]
    exact (h b a).bind ih

theorem upgradeEntries {f : String → α → Except UpgradeError β}
    {g : String × α → List UpgradeError} {entries : List (String × α)}
    (h : ∀ e ∈ entries, EndsBy (g e) (f e.1 e.2)) :
    EndsBy (entries.flatMap g) (Swagger.upgradeEntries f entries) := by
  induction entries with
  | nil => exact .ok []
  | cons e entries ih =>
    have hrest := ih fun d hd => h d (List.mem_cons_of_mem _ hd)
    rw [List.flatMap_cons, ← List.append_nil (entries.flatMap g)]
    exact (h e List.mem_cons_self).bind fun y => hrest.bind fun ys => .ok _

theorem exists_error_iff {x : Except ε α} (h : EndsBy es x) : (∃ e, x = .error e) ↔ es ≠ [] := by
  cases es with
  | nil =>
    obtain ⟨a, rfl⟩ := h
    simp
  | cons e es => exact iff_of_true ⟨e, h⟩ (List.cons_ne_nil e es)

theorem eq_error_iff {x : Except ε α} (h : EndsBy es x) {e : ε} :
    x = .error e ↔ es.head? = some e := by
  cases es with
  | nil =>
    obtain ⟨a, rfl⟩ := h
    simp
  | cons d es =>
    have h : x = .error d := h
    simp [h]

end EndsBy

/-! ## Parts that are refused -/

/-- A parameter is a body without a schema. -/
def Parameter.LacksSchema (p : Parameter) : Prop := p.location = "body" ∧ p.schema = none

instance : DecidablePred Parameter.LacksSchema := fun p =>
  decidable_of_iff (p.location = "body" ∧ p.schema.isNone) (by simp [Parameter.LacksSchema])

/-- A security scheme is of no known type, or of the type of OAuth with no known flow. -/
def SecurityScheme.IsUnknown (s : SecurityScheme) : Prop :=
  s.type ∉ ["basic", "apiKey", "oauth2"] ∨
    s.type = "oauth2" ∧
      ∀ flow ∈ ["implicit", "password", "application", "accessCode"], s.flow ≠ some flow

instance : DecidablePred SecurityScheme.IsUnknown := fun s => by
  unfold SecurityScheme.IsUnknown
  infer_instance

/-- A part of a document that the upgrade may refuse. -/
inductive Part where
  /-- A parameter that stands where it is used, or at the top of the document. -/
  | parameter (p : Parameter)
  /-- The security scheme of this name. -/
  | scheme (name : String) (s : SecurityScheme)

namespace Part

/-- A part is one that the upgrade refuses. -/
def IsRefused : Part → Prop
  | parameter p => p.LacksSchema
  | scheme _ s => s.IsUnknown

instance : DecidablePred IsRefused
  | parameter p => inferInstanceAs (Decidable p.LacksSchema)
  | scheme _ s => inferInstanceAs (Decidable s.IsUnknown)

/-- What is said of a part that is refused. -/
def refusal : Part → UpgradeError
  | parameter p => .bodyWithoutSchema p.name
  | scheme name s =>
    if s.type = "oauth2" then .unknownFlow name s.flow else .unknownScheme name s.type

end Part

/-- What is said of the parts of a list that are refused. -/
def refusals (parts : List Part) : List UpgradeError :=
  (parts.filter fun x => x.IsRefused).map Part.refusal

@[simp]
theorem refusals_append (xs ys : List Part) : refusals (xs ++ ys) = refusals xs ++ refusals ys := by
  simp [refusals]

@[simp]
theorem refusals_flatMap {α : Type} (xs : List α) (f : α → List Part) :
    refusals (xs.flatMap f) = xs.flatMap fun x => refusals (f x) := by
  simp [refusals, List.filter_flatMap, List.map_flatMap]

theorem refusals_map {α : Type} (xs : List α) (f : α → Part) :
    refusals (xs.map f) = xs.flatMap fun x => refusals [f x] := by
  rw [List.map_eq_flatMap, refusals_flatMap]

theorem refusals_singleton_of_not {x : Part} (h : ¬x.IsRefused) : refusals [x] = [] := by
  simp [refusals, h]

theorem refusals_singleton {x : Part} (h : x.IsRefused) : refusals [x] = [x.refusal] := by
  simp [refusals, h]

/-- An entry of a parameter list as a part, unless it is a pointer. -/
def inlinePart : Referable Parameter → List Part
  | .ref _ => []
  | .item p => [.parameter p]

/-- The entries with which the operations of a path are upgraded, operation by operation. -/
def PathItem.parts (item : PathItem) : List Part :=
  item.operations.flatMap fun op => (item.parameters ++ op.parameters).flatMap inlinePart

/-- The parts of a document that the upgrade may refuse: those of the paths by key, then the shared
parameters and the security schemes by name. -/
def Document.parts (doc : Document) : List Part :=
  (doc.paths.entries.flatMap fun e => e.2.parts)
    ++ (doc.parameters.entries.map fun e => .parameter e.2)
    ++ doc.securityDefinitions.entries.map fun e => .scheme e.1 e.2

/-! ## What the steps of the upgrade end by -/

theorem endsBy_upgradeBody {p : Parameter} (h : p.location = "body") (consumes : List String) :
    EndsBy (refusals [.parameter p]) (p.upgradeBody consumes) := by
  unfold Parameter.upgradeBody
  cases hschema : p.schema with
  | none =>
    rw [refusals_singleton (x := .parameter p) ⟨h, hschema⟩]
    rfl
  | some schema =>
    have hnot : ¬(Part.parameter p).IsRefused := fun hlacks => by
      cases hschema.symm.trans hlacks.2
    rw [refusals_singleton_of_not hnot]
    exact .ok _

/-- Of a scheme of OAuth only the flow matters. -/
theorem endsBy_upgradeScheme_of_oauth2 (name : String) {s : SecurityScheme}
    (htype : s.type = "oauth2") : EndsBy (refusals [.scheme name s]) (s.upgrade name) := by
  have hunknown : s.IsUnknown ↔ ∀ flow ∈ ["implicit", "password", "application", "accessCode"],
      s.flow ≠ some flow := by
    simp [SecurityScheme.IsUnknown, htype]
  unfold SecurityScheme.upgrade
  rw [if_neg (by simp [htype]), if_neg (by simp [htype]), if_pos htype]
  by_cases h : s.IsUnknown
  · rw [refusals_singleton (x := .scheme name s) h, Part.refusal, if_pos htype]
    have hflow := hunknown.1 h
    dsimp only
    split
    · rename_i flows hflows
      split at hflows
      case h_5 => cases hflows
      all_goals
        rename_i hs
        exact absurd hs (hflow _ (by decide))
    · rfl
  · rw [refusals_singleton_of_not (x := .scheme name s) h]
    rw [hunknown] at h
    push Not at h
    obtain ⟨flow, hmem, hs⟩ := h
    simp only [List.mem_cons, List.not_mem_nil, or_false] at hmem
    rcases hmem with rfl | rfl | rfl | rfl <;> exact ⟨_, by rw [hs]; rfl⟩

theorem endsBy_upgradeScheme (name : String) (s : SecurityScheme) :
    EndsBy (refusals [.scheme name s]) (s.upgrade name) := by
  by_cases hoauth : s.type = "oauth2"
  · exact endsBy_upgradeScheme_of_oauth2 name hoauth
  have hunknown : s.IsUnknown ↔ s.type ≠ "basic" ∧ s.type ≠ "apiKey" := by
    simp [SecurityScheme.IsUnknown, hoauth]
  unfold refusals SecurityScheme.upgrade
  by_cases hbasic : s.type = "basic"
  · simp [Part.IsRefused, hunknown, hbasic, EndsBy]
  by_cases hkey : s.type = "apiKey"
  · simp [Part.IsRefused, hunknown, hkey, EndsBy]
  · simp [Part.IsRefused, hunknown, Part.refusal, hbasic, hkey, hoauth, EndsBy]

theorem refusals_inlinePart_of_not_isBody {q : Referable Parameter} (h : ¬IsBody q) :
    refusals (inlinePart q) = [] := by
  cases q with
  | ref pointer => rfl
  | item p => exact refusals_singleton_of_not fun hlacks : p.LacksSchema => h hlacks.1

namespace Document

variable {doc : Document}

/-- An entry of a parameter list makes the upgrade fail only if it is a body without a schema. -/
theorem endsBy_nextBody (consumes : List String) (body : Option (Referable RequestBody))
    (q : Referable Parameter) :
    EndsBy (refusals (inlinePart q)) (doc.nextBody consumes body q) := by
  have hkind := doc.kindOf q
  unfold nextBody
  generalize doc.role q = role at hkind
  cases hkind with
  | bodyPointer pointer => exact .ok _
  | body p hbody => exact (endsBy_upgradeBody hbody consumes).map _
  | field q f hf hbody =>
    rw [refusals_inlinePart_of_not_isBody hbody]
    exact .ok _
  | other q hother =>
    rw [refusals_inlinePart_of_not_isBody hother.1]
    exact .ok _

theorem endsBy_requestBody (consumes : List String) (ps : List (Referable Parameter)) :
    EndsBy (refusals (ps.flatMap inlinePart)) (doc.requestBody consumes ps) := by
  rw [refusals_flatMap, ← List.append_nil (ps.flatMap _)]
  refine .bind (doc.explicitBody_eq consumes ps ▸ .foldlM (endsBy_nextBody consumes) none ps) ?_
  intro body
  cases body with
  | some body => exact .ok _
  | none =>
    dsimp only
    split <;> exact .ok _

/-- The entries of a path that do not go into its operations are no bodies. -/
theorem refusals_filter_isInherited (ps : List (Referable Parameter)) :
    refusals ((ps.filter doc.isInherited).flatMap inlinePart) =
      refusals (ps.flatMap inlinePart) := by
  induction ps with
  | nil => rfl
  | cons q ps ih =>
    rw [List.flatMap_cons, refusals_append, ← ih]
    by_cases hother : doc.IsOther q
    · rw [List.filter_cons_of_neg (by simp [isInherited_eq, hother]),
        refusals_inlinePart_of_not_isBody hother.1, List.nil_append]
    · rw [List.filter_cons_of_pos (by simp [isInherited_eq, hother]), List.flatMap_cons,
        refusals_append]

theorem endsBy_upgradeOperation? (doc : Document) (ps : List (Referable Parameter))
    (op : Option Operation) :
    EndsBy (refusals (op.toList.flatMap fun o => (ps ++ o.parameters).flatMap inlinePart))
      (doc.upgradeOperation? (ps.filter doc.isInherited) op) := by
  cases op with
  | none => exact .ok none
  | some op =>
    have hparts : refusals ((ps ++ op.parameters).flatMap inlinePart) =
        refusals ((ps.filter doc.isInherited ++ op.parameters).flatMap inlinePart) ++ [] := by
      rw [List.flatMap_append, List.flatMap_append, refusals_append, refusals_append,
        refusals_filter_isInherited, List.append_nil]
    rw [Option.toList_some, List.flatMap_singleton, hparts]
    exact .map (.bind (endsBy_requestBody _ _) fun body => .ok _) some

theorem endsBy_upgradePathItem (item : PathItem) :
    EndsBy (refusals item.parts) (doc.upgradePathItem item) := by
  have hop := endsBy_upgradeOperation? doc item.parameters
  have hbind := (hop item.get).bind fun get => (hop item.put).bind fun put =>
    (hop item.post).bind fun post => (hop item.delete).bind fun delete =>
    (hop item.options).bind fun options => (hop item.head).bind fun head =>
    (hop item.patch).bind fun patch => EndsBy.ok ({
      get, put, post, delete, options, head, patch,
      parameters := doc.plainParameters item.parameters } : OpenApi.PathItem)
  unfold PathItem.parts PathItem.operations
  rw [List.filterMap_eq_flatMap_toList, List.flatMap_assoc, refusals_flatMap]
  exact hbind

/-- Of the shared parameters only the bodies are upgraded in a way that may fail. -/
theorem refusals_bodyParameters (doc : Document) :
    (doc.bodyParameters.flatMap fun e => refusals [.parameter e.2]) =
      refusals (doc.parameters.entries.map fun e => .parameter e.2) := by
  unfold bodyParameters
  rw [refusals_map]
  induction doc.parameters.entries with
  | nil => rfl
  | cons e rest ih =>
    rw [List.flatMap_cons, ← ih]
    by_cases hbody : e.2.location = "body"
    · rw [List.filter_cons_of_pos (by simpa using hbody), List.flatMap_cons]
    · rw [List.filter_cons_of_neg (by simpa using hbody),
        refusals_singleton_of_not (x := .parameter e.2) fun hlacks => hbody hlacks.1,
        List.nil_append]

theorem endsBy_components (doc : Document) :
    EndsBy (refusals (doc.parameters.entries.map fun e => .parameter e.2)
      ++ refusals (doc.securityDefinitions.entries.map fun e => .scheme e.1 e.2))
      doc.components := by
  have hbodies : EndsBy (doc.bodyParameters.flatMap fun e => refusals [.parameter e.2])
      (upgradeEntries (fun _ p => p.upgradeBody (mediaTypes [] doc.consumes))
        doc.bodyParameters) := by
    refine .upgradeEntries fun e he => endsBy_upgradeBody ?_ _
    exact of_decide_eq_true (List.mem_filter.1 he).2
  have hschemes : EndsBy (doc.securityDefinitions.entries.flatMap fun e =>
      refusals [.scheme e.1 e.2])
      (upgradeEntries SecurityScheme.upgrade doc.securityDefinitions.entries) :=
    .upgradeEntries fun e _ => endsBy_upgradeScheme e.1 e.2
  rw [refusals_bodyParameters] at hbodies
  rw [refusals_map doc.securityDefinitions.entries,
    ← List.append_nil (doc.securityDefinitions.entries.flatMap _)]
  exact hbodies.bind fun bodies => hschemes.bind fun schemes => .ok _

/-- The upgrade ends by the first part that is refused. -/
theorem endsBy_upgrade (doc : Document) : EndsBy (refusals doc.parts) doc.upgrade := by
  have hpaths : EndsBy (doc.paths.entries.flatMap fun e => refusals e.2.parts)
      (upgradeEntries (fun _ item => doc.upgradePathItem item) doc.paths.entries) :=
    .upgradeEntries fun e _ => endsBy_upgradePathItem e.2
  have hupgrade := hpaths.bind fun paths => (endsBy_components doc).bind fun components =>
    EndsBy.ok ({
      openapi := upgradedVersion, info := doc.info, servers := doc.servers,
      paths := Dict.ofList paths, components := some components, security := doc.security,
      tags := doc.tags, externalDocs := doc.externalDocs,
      extensions := doc.upgradedExtensions } : OpenApi.Document)
  rw [List.append_nil, ← refusals_flatMap, ← refusals_append, ← refusals_append,
    ← List.append_assoc] at hupgrade
  exact hupgrade

/-! ## Documents that are refused -/

/-- A document has a part that is refused: a body without a schema in an operation, one in a path
that has operations, one among the shared parameters, or an unknown security scheme. -/
def HasRefusedPart (doc : Document) : Prop :=
  (∃ path item verb op p, doc.paths.get? path = some item ∧ item.operation? verb = some op ∧
    .item p ∈ op.parameters ∧ p.LacksSchema) ∨
  (∃ path item verb op p, doc.paths.get? path = some item ∧ item.operation? verb = some op ∧
    .item p ∈ item.parameters ∧ p.LacksSchema) ∨
  (∃ name p, doc.parameters.get? name = some p ∧ p.LacksSchema) ∨
  ∃ name s, doc.securityDefinitions.get? name = some s ∧ s.IsUnknown

theorem mem_flatMap_inlinePart {ps : List (Referable Parameter)} {x : Part} :
    x ∈ ps.flatMap inlinePart ↔ ∃ p, .item p ∈ ps ∧ x = .parameter p := by
  rw [List.mem_flatMap]
  constructor
  · rintro ⟨q, hq, hx⟩
    cases q with
    | ref pointer => cases hx
    | item p => exact ⟨p, hq, List.mem_singleton.1 hx⟩
  · rintro ⟨p, hp, rfl⟩
    exact ⟨.item p, hp, List.mem_singleton_self _⟩

theorem PathItem.mem_parts_iff {item : PathItem} {x : Part} :
    x ∈ item.parts ↔ ∃ verb op p, item.operation? verb = some op ∧
      (.item p ∈ item.parameters ∨ .item p ∈ op.parameters) ∧ x = .parameter p := by
  constructor
  · intro h
    obtain ⟨op, hop, hx⟩ := List.mem_flatMap.1 h
    obtain ⟨verb, hverb⟩ := PathItem.mem_operations_iff.1 hop
    obtain ⟨p, hp, rfl⟩ := mem_flatMap_inlinePart.1 hx
    exact ⟨verb, op, p, hverb, List.mem_append.1 hp, rfl⟩
  · rintro ⟨verb, op, p, hop, hp, rfl⟩
    exact List.mem_flatMap.2 ⟨op, PathItem.mem_operations_iff.2 ⟨verb, hop⟩,
      mem_flatMap_inlinePart.2 ⟨p, List.mem_append.2 hp, rfl⟩⟩

theorem hasRefusedPart_iff {doc : Document} :
    doc.HasRefusedPart ↔ ∃ x ∈ doc.parts, x.IsRefused := by
  have hmem (x : Part) : x ∈ doc.parts ↔
      (∃ path item, doc.paths.get? path = some item ∧ x ∈ item.parts) ∨
      (∃ name p, doc.parameters.get? name = some p ∧ x = .parameter p) ∨
      ∃ name s, doc.securityDefinitions.get? name = some s ∧ x = .scheme name s := by
    unfold parts
    simp [Dict.mem_entries, eq_comm]
  constructor
  · rintro (⟨path, item, verb, op, p, hitem, hop, hp, hlacks⟩ |
      ⟨path, item, verb, op, p, hitem, hop, hp, hlacks⟩ | ⟨name, p, hp, hlacks⟩ |
      ⟨name, s, hs, hunknown⟩)
    · exact ⟨.parameter p, (hmem _).2 (.inl ⟨path, item, hitem,
        PathItem.mem_parts_iff.2 ⟨verb, op, p, hop, .inr hp, rfl⟩⟩), hlacks⟩
    · exact ⟨.parameter p, (hmem _).2 (.inl ⟨path, item, hitem,
        PathItem.mem_parts_iff.2 ⟨verb, op, p, hop, .inl hp, rfl⟩⟩), hlacks⟩
    · exact ⟨.parameter p, (hmem _).2 (.inr (.inl ⟨name, p, hp, rfl⟩)), hlacks⟩
    · exact ⟨.scheme name s, (hmem _).2 (.inr (.inr ⟨name, s, hs, rfl⟩)), hunknown⟩
  · rintro ⟨x, hx, hrefused⟩
    rcases (hmem x).1 hx with ⟨path, item, hitem, hx⟩ | ⟨name, p, hp, rfl⟩ | ⟨name, s, hs, rfl⟩
    · obtain ⟨verb, op, p, hop, hp | hp, rfl⟩ := PathItem.mem_parts_iff.1 hx
      · exact .inr (.inl ⟨path, item, verb, op, p, hitem, hop, hp, hrefused⟩)
      · exact .inl ⟨path, item, verb, op, p, hitem, hop, hp, hrefused⟩
    · exact .inr (.inr (.inl ⟨name, p, hp, hrefused⟩))
    · exact .inr (.inr (.inr ⟨name, s, hs, hrefused⟩))

/-- The upgrade refuses a document that it can read if and only if the document has a part that is
to be refused, and what it says is said of the first such part. -/
theorem upgrade_refuses_iff {raw : Json} {doc : Document} (h : readMoved? raw = some doc) :
    ((∃ e, Swagger.upgrade raw = .error e) ↔ doc.HasRefusedPart) ∧
      ∀ e, Swagger.upgrade raw = .error e ↔
        ∃ x, doc.parts.find? (fun x => x.IsRefused) = some x ∧ e = x.refusal := by
  have hends := endsBy_upgrade doc
  have hupgrade : Swagger.upgrade raw = doc.upgrade := by
    unfold Swagger.upgrade
    rw [h]
  rw [hupgrade, hends.exists_error_iff, hasRefusedPart_iff]
  refine ⟨?_, fun e => ?_⟩
  · simp [refusals]
  · rw [hends.eq_error_iff, refusals, List.head?_map, List.head?_filter, Option.map_eq_some_iff]
    simp only [eq_comm]

/-- A path with a body whose schema is null, which both of its operations have anew, beside a shared
body without a schema and a scheme with a flow of version 3. -/
def draftDocument : Json :=
  .obj [
    ("parameters", .obj [("Note", .obj [("in", .str "body"), ("name", .str "note")])]),
    ("paths", .obj [("/notes", .obj [
      ("parameters", .arr [
        .obj [("in", .str "query"), ("name", .str "lang")],
        .obj [("in", .str "body"), ("name", .str "draft"), ("schema", .null)]]),
      ("post", .obj [("parameters", .arr [
        .obj [("in", .str "body"), ("name", .str "text"), ("schema", .obj [])]])]),
      ("put", .obj [("parameters", .arr [.obj [("in", .str "body"), ("name", .str "text")]])])])]),
    ("securityDefinitions", .obj [("login", .obj [
      ("flow", .str "authorizationCode"), ("type", .str "oauth2")])]),
    ("swagger", .str "2.0")]

theorem upgrade_refuses_iff_draftDocument :
    ∃ doc, readMoved? draftDocument = some doc ∧ doc.HasRefusedPart ∧
      refusals doc.parts = [
        .bodyWithoutSchema "draft", .bodyWithoutSchema "text", .bodyWithoutSchema "draft",
        .bodyWithoutSchema "note", .unknownFlow "login" (some "authorizationCode")] ∧
      Swagger.upgrade draftDocument = .error (.bodyWithoutSchema "draft") := by
  obtain ⟨doc, hdoc⟩ : ∃ doc, readMoved? draftDocument = some doc := ⟨_, rfl⟩
  obtain ⟨hrefused, herror⟩ := upgrade_refuses_iff hdoc
  have hfound : Swagger.upgrade draftDocument = .error (.bodyWithoutSchema "draft") := by
    refine (herror _).2 ?_
    cases hdoc
    exact ⟨_, rfl, rfl⟩
  refine ⟨doc, hdoc, hrefused.1 ⟨_, hfound⟩, ?_, hfound⟩
  cases hdoc
  rfl

end Document

end ApiFolio.Swagger

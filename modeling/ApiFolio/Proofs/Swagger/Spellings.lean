import ApiFolio.Proofs.Export.MediaTypes
import ApiFolio.Proofs.Export.OperationsAt
import ApiFolio.Proofs.Swagger.Loading
import ApiFolio.Proofs.Swagger.Replacement

/-!
# Two spellings of a shared part

A parameter or a response may be shared and pointed at, or written where it is used. The export does
not tell the two spellings of a parameter that is no body apart (`convert_parameterReplaced`). A
shared body or response has the media types of the document, but a copy of it those of the
operation, so the media type may differ between the two spellings (`mediaType_replaced`).
-/

namespace ApiFolio

open Swagger
open OpenApi (Verb)

variable {raw raw' entry copy : Json} {loaded : Loaded} {name path : String}

/-- A document with copies in the place of pointers is loaded if the document with the pointers
is. -/
theorem Loaded.ofJson_replaced {R : Json → Json → Prop} {K : Swagger.Parameter → Prop}
    {L : Swagger.Response → Prop} {doc doc' : Swagger.Document}
    (hloaded : Loaded.ofJson raw = .ok loaded) (hdialect : loaded.dialect = .swagger2)
    (h : PathReplaced path R raw raw') (hdoc : readMoved? raw = some doc)
    (hdoc' : readMoved? raw' = some doc') (hcopied : doc.CopiedDocument K L doc') :
    ∃ again, Loaded.ofJson raw' = .ok again ∧ again.dialect = .swagger2 ∧
      again.declaredVersion = loaded.declaredVersion ∧ doc.upgrade = .ok loaded.document ∧
      doc'.upgrade = .ok again.document := by
  obtain ⟨hversion, hupgrade⟩ := Loaded.swagger2_of_ofJson hloaded hdialect
  obtain ⟨read, hread, hout⟩ := upgrade_eq_ok_iff.1 hupgrade
  rw [hdoc] at hread
  cases hread
  obtain ⟨out', hout', -, -⟩ := Document.upgrade_copied hcopied hout
  have hversion' : swaggerVersion? raw' = some loaded.declaredVersion := by
    unfold swaggerVersion? at hversion ⊢
    rw [Record.get?_replaced h (by decide), hversion]
  obtain ⟨again, hagain, hdialect', rfl, hdeclared⟩ :=
    Loaded.ofJson_of_upgrade hversion' (upgrade_eq_ok_iff.2 ⟨doc', hdoc', hout'⟩)
  exact ⟨again, hagain, hdialect', hdeclared, hout, hout'⟩

/-! ## Parameters that are no bodies -/

/-- A copy of a shared parameter that is no body, in the place of a pointer to it, leaves the
export as it is: the document loads again, and everything in its export is the same. -/
theorem convert_parameterReplaced (ho : raw.Ordered) (hloaded : Loaded.ofJson raw = .ok loaded)
    (hdialect : loaded.dialect = .swagger2) (hname : name ≠ "")
    (hcopy : sharedPart? "parameters" name raw = some copy) (href : copy.get? "$ref" = none)
    (hin : copy.get? "in" ≠ some (.str "body"))
    (hentry : entry.get? "$ref" = some (.str (parameterPointer name)))
    (h : PathReplaced path (PathParameterReplaced entry copy) raw raw' ∨
      ∃ verb, OperationReplaced path verb (ParameterReplaced entry copy) raw raw') :
    ∃ again, Loaded.ofJson raw' = .ok again ∧ again.dialect = .swagger2 ∧
      Export.convert again.document again.declaredVersion =
        Export.convert loaded.document loaded.declaredVersion := by
  obtain ⟨-, hupgrade⟩ := Loaded.swagger2_of_ofJson hloaded hdialect
  obtain ⟨doc, hdoc, -⟩ := upgrade_eq_ok_iff.1 hupgrade
  obtain ⟨doc', p, hdoc', hlocation, hcopied⟩ :=
    readMoved?_parameterReplaced ho hdoc hname hcopy href hentry h
  have hK : ∀ q, q = p → q.location ≠ "body" := by
    rintro q rfl hbody
    exact hin (hlocation.1 hbody)
  have hpath : ∃ R, PathReplaced path R raw raw' := by
    rcases h with h | ⟨verb, h⟩
    · exact ⟨_, h⟩
    · exact ⟨_, h⟩
  obtain ⟨R, hpath⟩ := hpath
  obtain ⟨again, hagain, hdialect', hdeclared, hout, hout'⟩ :=
    Loaded.ofJson_replaced hloaded hdialect hpath hdoc hdoc' hcopied
  refine ⟨again, hagain, hdialect', ?_⟩
  rw [hdeclared, Document.convert_copied hK hcopied hout hout']

/-- A shared form field, under a name that is escaped in pointers. -/
def photoParameter : Json :=
  .obj [("in", .str "formData"), ("name", .str "photo"), ("type", .str "file")]

/-- A document that uses the shared form field, in this spelling, for every operation of a path. -/
def photoDocument (entry : Json) : Json :=
  .obj [("info", .obj [("title", .str "Pets"), ("version", .str "1")]),
    ("parameters", .obj [("a/b", photoParameter)]),
    ("paths", .obj [("/pets", .obj [
      ("parameters", .arr [entry]),
      ("post", .obj [("responses", .obj [("204", .obj [("description", .str "ok")])])])])]),
    ("swagger", .str "2.0")]

theorem convert_parameterReplaced_photoDocument :
    ∃ loaded again,
      Loaded.ofJson (photoDocument (.obj [("$ref", .str "#/parameters/a~1b")])) = .ok loaded ∧
      Loaded.ofJson (photoDocument photoParameter) = .ok again ∧
      Export.convert again.document again.declaredVersion =
        Export.convert loaded.document loaded.declaredVersion := by
  obtain ⟨loaded, hloaded, hdialect⟩ : ∃ loaded,
      Loaded.ofJson (photoDocument (.obj [("$ref", .str "#/parameters/a~1b")])) = .ok loaded ∧
        loaded.dialect = .swagger2 := ⟨_, rfl, rfl⟩
  have hin : photoParameter.get? "in" ≠ some (.str "body") := by
    show some (Json.str "formData") ≠ _
    simp
  have hentry : Json.get? "$ref" (.obj [("$ref", .str "#/parameters/a~1b")]) =
      some (.str (parameterPointer "a/b")) := rfl
  have hreplaced : PathReplaced "/pets"
      (PathParameterReplaced (.obj [("$ref", .str "#/parameters/a~1b")]) photoParameter)
      (photoDocument (.obj [("$ref", .str "#/parameters/a~1b")]))
      (photoDocument photoParameter) :=
    ⟨[("info", _), ("parameters", _)], _, _, [("swagger", _)], rfl, rfl, [], _, _, [], rfl, rfl,
      .inl ⟨[], _, _, [("post", _)], rfl, rfl, [], _, _, [], rfl, rfl, rfl, rfl⟩⟩
  obtain ⟨again, hagain, -, hconvert⟩ := convert_parameterReplaced
    (Json.ordered_of_canonical_eq rfl) hloaded hdialect (by decide) rfl rfl hin hentry
    (.inl hreplaced)
  exact ⟨loaded, again, hloaded, hagain, hconvert⟩

/-! ## Bodies and responses -/

/-- The exports of one operation of a document with pointers and of one with copies. -/
theorem operationsAt_copied {K : Swagger.Parameter → Prop} {L : Swagger.Response → Prop}
    {doc doc' : Swagger.Document} (hcopied : doc.CopiedDocument K L doc')
    {out out' : OpenApi.Document} (hout : doc.upgrade = .ok out) (hout' : doc'.upgrade = .ok out')
    {item : Swagger.PathItem} (hitem : doc.paths.get? path = some item) {verb : Verb}
    {op : Swagger.Operation} (hop : item.operation? verb = some op) (version version' : String) :
    ∃ a b, (Export.convert out version).operationsAt path verb.name = [a] ∧
      (Export.convert out' version').operationsAt path verb.name = [b] ∧
      Option.Rel (Document.BodyChanged (mediaTypes [] doc.consumes)
        (mediaTypes op.consumes doc.consumes)) a.requestBody b.requestBody ∧
      List.Forall₂ (Document.ResponseChanged (mediaTypes [] doc.produces)
        (mediaTypes op.produces doc.produces)) a.responses b.responses := by
  obtain ⟨u, v, x, y, hu, hx, hv, hy, hxy⟩ :=
    Document.operation_copied hcopied hout hout' hitem hop
  obtain ⟨upgraded, hupgraded, hrest, -⟩ := Document.upgrade_copied hcopied hout
  rw [hout'] at hupgraded
  cases hupgraded
  have haround : Export.surroundings out' = Export.surroundings out := by
    rw [hrest]
    rfl
  obtain ⟨paths, components, -, hc, hfields⟩ := Document.upgrade_eq_ok_iff.1 hout
  have hcomponents : (Export.surroundings out).components = some components := by
    rw [hfields]
    rfl
  have hbody := Document.requestBody?_copied hc hcomponents (Document.target?_surroundings hout)
    hxy.requestBody
  have hresponses : List.Forall₂ (Document.ResponseChanged (mediaTypes [] doc.produces)
      (mediaTypes op.produces doc.produces))
      (x.responses.entries.map fun e =>
        (Export.surroundings out).responseItem path verb.name e.1 e.2)
      (y.responses.entries.map fun e =>
        (Export.surroundings out).responseItem path verb.name e.1 e.2) := by
    refine List.forall₂_map_left_iff.2 (List.forall₂_map_right_iff.2 (hxy.responses.imp ?_))
    rintro ⟨status, r⟩ ⟨_, s⟩ ⟨rfl, hrs⟩
    exact Document.responseItem_copied hc hcomponents hrs path verb.name status
  refine ⟨_, _, Export.operationsAt_convert hu hx version,
    Export.operationsAt_convert hv hy version', ?_, ?_⟩
  · rw [haround]
    exact hbody
  · rw [haround]
    exact hresponses

/-- A copy of a shared body or response in the place of a pointer to it changes no more than a media
type: the document loads again, the body of the request is required as before, and a media type that
changes was the smallest of those of the document and becomes the smallest of those of the
operation. So nothing changes where the two are the same, as they are for an operation that has no
media types of its own. -/
theorem mediaType_replaced (ho : raw.Ordered) (hloaded : Loaded.ofJson raw = .ok loaded)
    (hdialect : loaded.dialect = .swagger2) {doc : Swagger.Document}
    (hdoc : readMoved? raw = some doc) {item : Swagger.PathItem}
    (hitem : doc.paths.get? path = some item) {verb : Verb} {op : Swagger.Operation}
    (hop : item.operation? verb = some op) (hname : name ≠ "")
    (href : copy.get? "$ref" = none) :
    (∀ entry raw', sharedPart? "parameters" name raw = some copy →
      entry.get? "$ref" = some (.str (parameterPointer name)) →
      OperationReplaced path verb (ParameterReplaced entry copy) raw raw' →
      ∃ again a b, Loaded.ofJson raw' = .ok again ∧
        (Export.convert loaded.document loaded.declaredVersion).operationsAt path verb.name = [a] ∧
        (Export.convert again.document again.declaredVersion).operationsAt path verb.name = [b] ∧
        Option.Rel (Document.BodyChanged (mediaTypes [] doc.consumes)
          (mediaTypes op.consumes doc.consumes)) a.requestBody b.requestBody) ∧
    ∀ entry raw' status, sharedPart? "responses" name raw = some copy →
      entry.get? "$ref" = some (.str (responsePointer name)) →
      OperationReplaced path verb (ResponseReplaced status entry copy) raw raw' →
      ∃ again a b, Loaded.ofJson raw' = .ok again ∧
        (Export.convert loaded.document loaded.declaredVersion).operationsAt path verb.name = [a] ∧
        (Export.convert again.document again.declaredVersion).operationsAt path verb.name = [b] ∧
        List.Forall₂ (Document.ResponseChanged (mediaTypes [] doc.produces)
          (mediaTypes op.produces doc.produces)) a.responses b.responses := by
  constructor
  · intro entry raw' hcopy hentry h
    obtain ⟨doc', p, hdoc', -, hcopied⟩ :=
      readMoved?_parameterReplaced ho hdoc hname hcopy href hentry (.inr ⟨verb, h⟩)
    obtain ⟨again, hagain, -, -, hout, hout'⟩ :=
      Loaded.ofJson_replaced hloaded hdialect h hdoc hdoc' hcopied
    obtain ⟨a, b, ha, hb, hbody, -⟩ :=
      operationsAt_copied hcopied hout hout' hitem hop loaded.declaredVersion again.declaredVersion
    exact ⟨again, a, b, hagain, ha, hb, hbody⟩
  · intro entry raw' status hcopy hentry h
    obtain ⟨doc', hdoc', hcopied⟩ :=
      readMoved?_responseReplaced ho hdoc hname hcopy href hentry h
    obtain ⟨again, hagain, -, -, hout, hout'⟩ :=
      Loaded.ofJson_replaced hloaded hdialect h hdoc hdoc' hcopied
    obtain ⟨a, b, ha, hb, -, hresponses⟩ :=
      operationsAt_copied hcopied hout hout' hitem hop loaded.declaredVersion again.declaredVersion
    exact ⟨again, a, b, hagain, ha, hb, hresponses⟩

/-- A shared body. -/
def orderParameter : Json :=
  .obj [("in", .str "body"), ("name", .str "order"), ("required", .bool true),
    ("schema", .obj [("type", .str "object")])]

/-- A document in which an operation with a media type of its own takes the shared body, in this
spelling. -/
def orderDocument (entry : Json) : Json :=
  .obj [("info", .obj [("title", .str "Orders"), ("version", .str "1")]),
    ("parameters", .obj [("Order", orderParameter)]),
    ("paths", .obj [("/orders", .obj [("post", .obj [
      ("consumes", .arr [.str "application/xml"]),
      ("parameters", .arr [entry]),
      ("responses", .obj [("201", .obj [("description", .str "ok")])])])])]),
    ("swagger", .str "2.0")]

/-- A pointer to the shared body. -/
def orderPointer : Json := .obj [("$ref", .str "#/parameters/Order")]

theorem orderDocument_replaced :
    OperationReplaced "/orders" .post (ParameterReplaced orderPointer orderParameter)
      (orderDocument orderPointer) (orderDocument orderParameter) :=
  ⟨[("info", _), ("parameters", _)], _, _, [("swagger", _)], rfl, rfl, [], _, _, [], rfl, rfl,
    .inl ⟨[], _, _, [], rfl, rfl, .inl ⟨[("consumes", _)], _, _, [("responses", _)], rfl, rfl,
      [], _, _, [], rfl, rfl, rfl, rfl⟩⟩⟩

/-- A shared response with a body. -/
def receiptResponse : Json :=
  .obj [("description", .str "ok"), ("schema", .obj [("type", .str "object")])]

/-- A document in which an operation with a media type of its own gives the shared response, in this
spelling. -/
def receiptDocument (entry : Json) : Json :=
  .obj [("info", .obj [("title", .str "Orders"), ("version", .str "1")]),
    ("paths", .obj [("/receipts", .obj [("get", .obj [
      ("produces", .arr [.str "application/xml"]),
      ("responses", .obj [("200", entry)])])])]),
    ("responses", .obj [("Receipt", receiptResponse)]),
    ("swagger", .str "2.0")]

/-- A pointer to the shared response. -/
def receiptPointer : Json := .obj [("$ref", .str "#/responses/Receipt")]

theorem receiptDocument_replaced :
    OperationReplaced "/receipts" .get (ResponseReplaced "200" receiptPointer receiptResponse)
      (receiptDocument receiptPointer) (receiptDocument receiptResponse) :=
  ⟨[("info", _)], _, _, [("responses", _), ("swagger", _)], rfl, rfl, [], _, _, [], rfl, rfl,
    .inl ⟨[], _, _, [], rfl, rfl, .inl ⟨[("produces", _)], _, _, [], rfl, rfl,
      [], _, _, [], rfl, rfl, rfl, rfl⟩⟩⟩

theorem mediaType_replaced_orderDocument :
    (∃ loaded again a b, Loaded.ofJson (orderDocument orderPointer) = .ok loaded ∧
      Loaded.ofJson (orderDocument orderParameter) = .ok again ∧
      (Export.convert loaded.document loaded.declaredVersion).operationsAt "/orders" "post" = [a] ∧
      (Export.convert again.document again.declaredVersion).operationsAt "/orders" "post" = [b] ∧
      Option.Rel (Document.BodyChanged ["application/json"] ["application/xml"])
        a.requestBody b.requestBody) ∧
    ∃ loaded again a b, Loaded.ofJson (receiptDocument receiptPointer) = .ok loaded ∧
      Loaded.ofJson (receiptDocument receiptResponse) = .ok again ∧
      (Export.convert loaded.document loaded.declaredVersion).operationsAt "/receipts" "get" = [a] ∧
      (Export.convert again.document again.declaredVersion).operationsAt "/receipts" "get" = [b] ∧
      List.Forall₂ (Document.ResponseChanged ["application/json"] ["application/xml"])
        a.responses b.responses := by
  constructor
  · obtain ⟨loaded, doc, item, op, hloaded, hdialect, hdoc, hitem, hop, hconsumes, hown⟩ :
        ∃ loaded doc item op, Loaded.ofJson (orderDocument orderPointer) = .ok loaded ∧
          loaded.dialect = .swagger2 ∧ readMoved? (orderDocument orderPointer) = some doc ∧
          doc.paths.get? "/orders" = some item ∧ item.operation? .post = some op ∧
          doc.consumes = [] ∧ op.consumes = ["application/xml"] :=
      ⟨_, _, _, _, rfl, rfl, rfl, rfl, rfl, rfl, rfl⟩
    have hboth := mediaType_replaced (Json.ordered_of_canonical_eq rfl) hloaded hdialect hdoc hitem
      hop (show "Order" ≠ "" by decide) (show orderParameter.get? "$ref" = none from rfl)
    obtain ⟨again, a, b, hagain, ha, hb, hbody⟩ :=
      hboth.1 orderPointer (orderDocument orderParameter) rfl rfl orderDocument_replaced
    rw [hconsumes, hown] at hbody
    exact ⟨loaded, again, a, b, hloaded, hagain, ha, hb, hbody⟩
  · obtain ⟨loaded, doc, item, op, hloaded, hdialect, hdoc, hitem, hop, hproduces, hown⟩ :
        ∃ loaded doc item op, Loaded.ofJson (receiptDocument receiptPointer) = .ok loaded ∧
          loaded.dialect = .swagger2 ∧ readMoved? (receiptDocument receiptPointer) = some doc ∧
          doc.paths.get? "/receipts" = some item ∧ item.operation? .get = some op ∧
          doc.produces = [] ∧ op.produces = ["application/xml"] :=
      ⟨_, _, _, _, rfl, rfl, rfl, rfl, rfl, rfl, rfl⟩
    have hboth := mediaType_replaced (Json.ordered_of_canonical_eq rfl) hloaded hdialect hdoc hitem
      hop (show "Receipt" ≠ "" by decide) (show receiptResponse.get? "$ref" = none from rfl)
    obtain ⟨again, a, b, hagain, ha, hb, hresponses⟩ :=
      hboth.2 receiptPointer (receiptDocument receiptResponse) "200" rfl rfl
        receiptDocument_replaced
    rw [hproduces, hown] at hresponses
    exact ⟨loaded, again, a, b, hloaded, hagain, ha, hb, hresponses⟩

/-- An operation with a media type of its own is exported under this one with a copy of a shared
body, and under the one of the document with a pointer to it. -/
theorem not_mediaType_kept :
    ¬ ∀ (raw raw' entry copy : Json) (loaded again : Loaded) (name path : String) (verb : Verb)
      (a b : Export.ApiItem), raw.Ordered → Loaded.ofJson raw = .ok loaded →
      loaded.dialect = .swagger2 → Loaded.ofJson raw' = .ok again → name ≠ "" →
      sharedPart? "parameters" name raw = some copy → copy.get? "in" = some (.str "body") →
      copy.get? "$ref" = none → entry.get? "$ref" = some (.str (parameterPointer name)) →
      OperationReplaced path verb (ParameterReplaced entry copy) raw raw' →
      (Export.convert loaded.document loaded.declaredVersion).operationsAt path verb.name = [a] →
      (Export.convert again.document again.declaredVersion).operationsAt path verb.name = [b] →
      a.requestBody.map (·.contentType) = b.requestBody.map (·.contentType) := by
  intro hkept
  have hexport : ∀ entry type,
      (∃ loaded u x, Loaded.ofJson (orderDocument entry) = .ok loaded ∧
        loaded.dialect = .swagger2 ∧ loaded.document.paths.get? "/orders" = some u ∧
        u.operation? .post = some x ∧
        (x.requestBody.bind (Export.surroundings loaded.document).requestBody?).map
          (·.contentType) = some type) →
      ∃ loaded a, Loaded.ofJson (orderDocument entry) = .ok loaded ∧ loaded.dialect = .swagger2 ∧
        (Export.convert loaded.document loaded.declaredVersion).operationsAt "/orders"
          Verb.post.name = [a] ∧ a.requestBody.map (·.contentType) = some type := by
    rintro entry type ⟨loaded, u, x, hloaded, hdialect, hu, hx, htype⟩
    exact ⟨loaded, _, hloaded, hdialect, Export.operationsAt_convert hu hx _, htype⟩
  obtain ⟨loaded, a, hloaded, hdialect, ha, hatype⟩ :=
    hexport orderPointer "application/json" ⟨_, _, _, rfl, rfl, rfl, rfl, rfl⟩
  obtain ⟨again, b, hagain, -, hb, hbtype⟩ :=
    hexport orderParameter "application/xml" ⟨_, _, _, rfl, rfl, rfl, rfl, rfl⟩
  have hsame := hkept (orderDocument orderPointer) (orderDocument orderParameter) orderPointer
    orderParameter loaded again "Order" "/orders" .post a b (Json.ordered_of_canonical_eq rfl)
    hloaded hdialect hagain (by decide) rfl rfl rfl rfl orderDocument_replaced ha hb
  rw [hatype, hbtype] at hsame
  exact absurd (Option.some.inj hsame) (by decide)

end ApiFolio

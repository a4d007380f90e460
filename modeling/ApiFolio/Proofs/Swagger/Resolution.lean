import ApiFolio.Proofs.Swagger.Loading
import ApiFolio.Proofs.Swagger.SharedParts
import ApiFolio.Proofs.Swagger.SharedPointers

/-!
# Pointers lead to the same parts after the upgrade

Where a pointer goes is decided on the raw document, where its target stands is decided on the typed
one, and whether it is unresolved is decided on the upgraded one. All three agree
(`upgrade_resolves`): a pointer to a shared part becomes one to the upgrade of this part, and no
issue tells of it. Pointers to shared form fields go into the bodies of operations.
-/

namespace ApiFolio.Swagger

open OpenApi (Referable Schema Pointer.unescapeText)
open Document (Unreported)

/-! ## Pointers of the raw document -/

/-- The pointer to a definition becomes, in every schema, one to the schema that was read of the
definition. -/
def ResolvesDefinition (raw : Json) (out : OpenApi.Document) (token : String) : Prop :=
  ∀ source, sharedPart? "definitions" (Pointer.unescapeText token) raw = some source →
    ∃ pointer components schema, out.components = some components ∧
      (∀ v s, v.Ordered → v.get? "$ref" = some (.str ("#/definitions/" ++ token)) →
        Schema.ofJson? (movePointers (bodyParameterNames raw) v) = some s →
        s.ref = some pointer) ∧
      Schema.ofJson? (movePointers (bodyParameterNames raw) source) = some schema ∧
      OpenApi.Pointer.name? pointer "schemas" = some (Pointer.unescapeText token) ∧
      components.schemas.get? (Pointer.unescapeText token) = some schema ∧
      Unreported out pointer

/-- The pointer to a shared response becomes, in every operation, one to the upgrade of what was
read of the response. -/
def ResolvesResponse (raw : Json) (doc : Document) (out : OpenApi.Document) (token : String) :
    Prop :=
  ∀ source, sharedPart? "responses" (Pointer.unescapeText token) raw = some source →
    ∃ pointer components r, out.components = some components ∧
      (∀ entry, entry.get? "$ref" = some (.str ("#/responses/" ++ token)) →
        Referable.ofJson? Response.ofJson? (movePointers (bodyParameterNames raw) entry) =
          some (.ref pointer)) ∧
      Response.ofJson? (movePointers (bodyParameterNames raw) source) = some r ∧
      components.response? pointer = some (r.upgrade (mediaTypes [] doc.produces)) ∧
      doc.EveryUpgrade out (fun _ _ => True) (fun _ op x => ∀ status,
        op.responses.get? status = some (.ref pointer) →
        x.responses.get? status = some (.ref pointer)) ∧
      Unreported out pointer

/-- The pointer to a shared parameter becomes, in every list of parameters, one to the upgrade of
what was read of the parameter, or goes with it into a form. -/
def ResolvesParameter (raw : Json) (doc : Document) (out : OpenApi.Document) (token : String) :
    Prop :=
  ∀ source, sharedPart? "parameters" (Pointer.unescapeText token) raw = some source →
    ∃ pointer p,
      (∀ entry, entry.get? "$ref" = some (.str ("#/parameters/" ++ token)) →
        Referable.ofJson? Parameter.ofJson? (movePointers (bodyParameterNames raw) entry) =
          some (.ref pointer)) ∧
      Parameter.ofJson? (movePointers (bodyParameterNames raw) source) = some p ∧
      (p.location = "body" → doc.BecomesBody out pointer p) ∧
      (p.location = "formData" → doc.FoldsAway out pointer p) ∧
      (p.location ≠ "body" → p.location ≠ "formData" → doc.StaysParameter out pointer p)

theorem ref_of_movePointers {bodies : List String} {v : Json} {pointer : String} {s : Schema}
    (ho : v.Ordered) (href : v.get? "$ref" = some (.str pointer))
    (h : Schema.ofJson? (movePointers bodies v) = some s) :
    s.ref = some (movePointer bodies pointer) := by
  cases v with
  | obj members =>
    have hsorted : Entries.Sorted (movePointersMembers bodies members) :=
      (ordered_movePointers bodies ho).1
    have hread := OpenApi.Schema.readFieldAt_of_ofMembers? hsorted h .ref
    have hget : Entries.get? "$ref" members = some (.str pointer) := href
    rw [get?_movePointersMembers, show OpenApi.Schema.Keyword.ref.name = "$ref" from rfl, hget]
      at hread
    exact (Option.some.inj hread).symm
  | _ => cases href

theorem ofJson?_movePointers_ref {α : Type} (read : Json → Option α) {bodies : List String}
    {entry : Json} {pointer : String} (hentry : entry.get? "$ref" = some (.str pointer)) :
    Referable.ofJson? read (movePointers bodies entry) =
      some (.ref (movePointer bodies pointer)) := by
  unfold Referable.ofJson?
  rw [pointerOf?_movePointers]
  unfold Referable.pointerOf?
  rw [hentry]
  rfl

section

variable {raw : Json} {doc : Document} {out : OpenApi.Document} {token : String}
variable (ho : raw.Ordered) (hdoc : readMoved? raw = some doc) (hout : doc.upgrade = .ok out)
variable (htoken : token ≠ "") (hslash : '/' ∉ token.toList)

include ho hdoc hout htoken hslash

theorem resolvesDefinition : ResolvesDefinition raw out token := by
  intro source hsource
  obtain ⟨components, hsome, hcomponents⟩ := Document.exists_components hout
  obtain ⟨ms, hms, hread⟩ := Document.ofJson?_eq_some_iff.1 hdoc
  obtain ⟨schema, hschema, hget⟩ :=
    exists_sharedPart (fun _ => rfl) ho hms hread.definitions hsource
  have hname := OpenApi.Pointer.name?_areaRoot_append "schemas" htoken hslash
  have hschemas : components.schemas.get? (Pointer.unescapeText token) = some schema := by
    obtain ⟨bodies, schemes, -, -, rfl⟩ := Document.components_eq_ok_iff.1 hcomponents
    exact hget
  refine ⟨_, components, schema, hsome, fun v s hv href hs => ?_, hschema, hname, hschemas,
    Validation.not_unresolved hsome (Validation.leadsToEntry_of_schema hname hschemas)⟩
  rw [ref_of_movePointers hv href hs, movePointer_definitions]

theorem resolvesResponse : ResolvesResponse raw doc out token := by
  intro source hsource
  obtain ⟨components, hsome, hcomponents⟩ := Document.exists_components hout
  obtain ⟨r, hr, hnames⟩ := exists_namesResponse htoken hslash ho hdoc hsource
  have hlook := Document.response?_components hcomponents hnames
  refine ⟨_, components, r, hsome, fun entry hentry => ofJson?_movePointers_ref _ hentry, hr, hlook,
    Document.everyUpgrade hout (fun _ _ _ => trivial) ?_,
    Validation.not_unresolved hsome (Validation.leadsToEntry_of_response? hlook)⟩
  intro item op x hx status hstatus
  obtain ⟨body, -, rfl⟩ := Document.upgradeOperation_eq_ok_iff.1 hx
  rw [Dict.get?_map, hstatus]
  rfl

theorem resolvesParameter : ResolvesParameter raw doc out token := by
  intro source hsource
  obtain ⟨p, hp, -, hnames⟩ := exists_namesParameter htoken hslash ho hdoc hsource
  exact ⟨_, p, fun entry hentry => ofJson?_movePointers_ref _ hentry, hp,
    Document.becomesBody hout hnames, Document.foldsAway hout hnames,
    Document.staysParameter hout hnames⟩

omit hdoc hout

/-- Every pointer to a shared part of a document that is upgraded leads to the upgrade of this part,
and no issue tells of it. -/
theorem upgrade_resolves (hupgrade : upgrade raw = .ok out) :
    ∃ doc, readMoved? raw = some doc ∧ ResolvesDefinition raw out token ∧
      ResolvesResponse raw doc out token ∧ ResolvesParameter raw doc out token := by
  obtain ⟨doc, hdoc, hout⟩ := upgrade_eq_ok_iff.1 hupgrade
  exact ⟨doc, hdoc, resolvesDefinition ho hdoc hout htoken hslash,
    resolvesResponse ho hdoc hout htoken hslash, resolvesParameter ho hdoc hout htoken hslash⟩

end

/-- A document with a pointer to a definition whose name has a slash, and with pointers to a
response and to shared parameters of each kind. -/
def toolDocument : Json :=
  .obj [("definitions", .obj [("a/b", .obj [("type", .str "object")])]),
    ("info", .obj [("title", .str "Tools"), ("version", .str "1")]),
    ("parameters", .obj [
      ("File", .obj [("in", .str "formData"), ("name", .str "file"), ("type", .str "file")]),
      ("Limit", .obj [("in", .str "query"), ("name", .str "limit"), ("type", .str "integer")]),
      ("Tool", .obj [("in", .str "body"), ("name", .str "tool"),
        ("schema", .obj [("$ref", .str "#/definitions/a~1b")])])]),
    ("paths", .obj [("/tools", .obj [
      ("post", .obj [("parameters", .arr [.obj [("$ref", .str "#/parameters/Tool")]]),
        ("responses", .obj [("200", .obj [("$ref", .str "#/responses/Done")])])]),
      ("put", .obj [("parameters", .arr [.obj [("$ref", .str "#/parameters/File")],
        .obj [("$ref", .str "#/parameters/Limit")]])])])]),
    ("responses", .obj [("Done", .obj [("description", .str "done")])]),
    ("swagger", .str "2.0")]

theorem upgrade_resolves_toolDocument :
    ∃ out doc, upgrade toolDocument = .ok out ∧ readMoved? toolDocument = some doc ∧
      (∃ components schema, out.components = some components ∧
        components.schemas.get? "a/b" = some schema ∧
        Unreported out "#/components/schemas/a~1b") ∧
      (∃ components r, out.components = some components ∧
        components.response? "#/components/responses/Done" = some r ∧
        Unreported out "#/components/responses/Done") ∧
      (∃ p, doc.BecomesBody out "#/components/requestBodies/Tool" p) ∧
      (∃ p, doc.FoldsAway out "#/components/parameters/File" p) ∧
      ∃ p, doc.StaysParameter out "#/components/parameters/Limit" p := by
  have ho : toolDocument.Ordered := Json.ordered_of_canonical_eq rfl
  obtain ⟨out, hout⟩ : ∃ out, upgrade toolDocument = .ok out := ⟨_, rfl⟩
  obtain ⟨doc, hdoc, hdefinition, -, -⟩ :=
    upgrade_resolves ho (show "a~1b" ≠ "" by decide) (by decide) hout
  have htoken : ∀ token ∈ ["Done", "File", "Limit", "Tool"],
      ResolvesResponse toolDocument doc out token ∧
        ResolvesParameter toolDocument doc out token := by
    intro token hmem
    have hall : ∀ t ∈ ["Done", "File", "Limit", "Tool"], t ≠ "" ∧ '/' ∉ t.toList := by decide
    obtain ⟨hempty, hslash⟩ := hall token hmem
    obtain ⟨doc', hdoc', -, hresponse, hparameter⟩ := upgrade_resolves ho hempty hslash hout
    rw [hdoc] at hdoc'
    cases hdoc'
    exact ⟨hresponse, hparameter⟩
  refine ⟨out, doc, hout, hdoc, ?_, ?_, ?_, ?_, ?_⟩
  · obtain ⟨pointer, components, schema, hsome, href, -, -, hget, hunreported⟩ := hdefinition _ rfl
    have hpointer := href (.obj [("$ref", .str "#/definitions/a~1b")]) _
      (Json.ordered_of_canonical_eq rfl) rfl rfl
    cases hpointer
    exact ⟨components, schema, hsome, hget, hunreported⟩
  · obtain ⟨pointer, components, r, hsome, href, -, hlook, -, hunreported⟩ :=
      (htoken "Done" (by decide)).1 _ rfl
    have hpointer := href (.obj [("$ref", .str "#/responses/Done")]) rfl
    cases hpointer
    exact ⟨components, _, hsome, hlook, hunreported⟩
  · obtain ⟨pointer, p, href, hp, hbody, -, -⟩ := (htoken "Tool" (by decide)).2 _ rfl
    have hpointer := href (.obj [("$ref", .str "#/parameters/Tool")]) rfl
    cases hpointer
    cases hp
    exact ⟨_, hbody rfl⟩
  · obtain ⟨pointer, p, href, hp, -, hform, -⟩ := (htoken "File" (by decide)).2 _ rfl
    have hpointer := href (.obj [("$ref", .str "#/parameters/File")]) rfl
    cases hpointer
    cases hp
    exact ⟨_, hform rfl⟩
  · obtain ⟨pointer, p, href, hp, -, -, hother⟩ := (htoken "Limit" (by decide)).2 _ rfl
    have hpointer := href (.obj [("$ref", .str "#/parameters/Limit")]) rfl
    cases hpointer
    cases hp
    exact ⟨_, hother (by decide) (by decide)⟩

end ApiFolio.Swagger

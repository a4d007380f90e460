import ApiFolio.Proofs.Export.Settled
import ApiFolio.Proofs.Swagger.Loading
import ApiFolio.Proofs.Swagger.Whole

/-!
# A document of version 2 exports like its version 3

The upgrade of a document can be written and loaded again, as a document of version 3, and what is
loaded is the upgrade in its settled form (`Swagger.whole_of_upgrade`, `Loaded.ofJson_toJson`). So
both export alike but for the version they declare and for null examples
(`convert_reloaded_upgrade`).
-/

namespace ApiFolio

open OpenApi (OrderedTable)

namespace Swagger

/-- The names of the members that only documents of version 3 have. -/
def newNames : List String := ["openapi", "servers", "components"]

variable {raw : Json} {doc : Document} {out : OpenApi.Document}

/-- No extension of what was read has a name that the raw document does not have. -/
theorem extension_of_readMoved? (ho : raw.Ordered) (hdoc : readMoved? raw = some doc)
    {e : String × Json} (he : e ∈ doc.extensions.entries) : (raw.get? e.1).isSome := by
  obtain ⟨ms, hms, hread⟩ := Document.ofJson?_eq_some_iff.1 hdoc
  rw [hread.extensions] at he
  have hmem := (Record.mem_unknown he).1
  cases raw with
  | obj members =>
    cases hms
    have hsorted := (ordered_movePointers (bodyParameterNames (.obj members)) ho).1
    have hget := Entries.get?_of_mem hsorted hmem
    rw [get?_movePointersMembers] at hget
    obtain ⟨v, hv, -⟩ := Option.map_eq_some_iff.1 hget
    show (Entries.get? e.1 members).isSome
    rw [hv]
    rfl
  | _ => cases hms

/-- What the upgrade of an ordered document holds can be written and read again. -/
theorem whole_of_upgrade (ho : raw.Ordered) (hnew : ∀ name ∈ newNames, raw.get? name = none)
    (hout : upgrade raw = .ok out) : out.Whole ∧ out.extensions.get? "swagger" = none := by
  obtain ⟨doc, hdoc, hout⟩ := upgrade_eq_ok_iff.1 hout
  have hwhole := Document.whole_of_ofJson? (ordered_movePointers _ ho) hdoc
  refine ⟨hwhole.upgrade hout fun e he hmem => ?_, ?_⟩
  · have hsome := extension_of_readMoved? ho hdoc he
    rw [hnew e.1 hmem] at hsome
    cases hsome
  · obtain ⟨paths, components, -, -, rfl⟩ := Document.upgrade_eq_ok_iff.1 hout
    refine Option.eq_none_iff_forall_not_mem.2 fun v hv => ?_
    rcases Document.Whole.mem_upgradedExtensions ((Dict.mem_entries _).2 hv) with he | ⟨hname, -⟩
    · have hknown := hwhole.unnamed _ he
      cases hknown
    · exact absurd hname (by simp)

end Swagger

/-- A document of version 3 that is written and loaded again is loaded in its settled form. -/
theorem Loaded.ofJson_toJson {doc : OpenApi.Document} (h : doc.Whole)
    (hs : doc.extensions.get? "swagger" = none) :
    ∃ again, Loaded.ofJson doc.toJson.canonical = .ok again ∧ again.document = doc.settled ∧
      again.dialect = .openApi3 ∧ again.declaredVersion = doc.openapi := by
  have hversion : swaggerVersion? doc.toJson.canonical = none := by
    have hget : doc.toJson.canonical.get? "swagger" = none := by
      rw [OpenApi.Document.toJson_eq, Record.canonical_obj]
      show Entries.get? "swagger" (Record.written _) = none
      rw [Record.get?_written, Entries.last?_append, OpenApi.Document.last?_named doc rfl,
        Entries.last?_of_sorted doc.extensions.sorted, Option.or_none]
      exact congrArg (Option.map Json.canonical) hs
    unfold swaggerVersion?
    rw [hget]
    rfl
  obtain ⟨again, hagain, hdialect, hdocument, hdeclared⟩ :=
    Loaded.ofJson_of_read hversion (OpenApi.Document.ofJson?_toJson h)
  exact ⟨again, hagain, hdocument, hdialect, hdeclared⟩

theorem Swagger.openapi_of_upgrade {raw : Json} {out : OpenApi.Document}
    (h : Swagger.upgrade raw = .ok out) : out.openapi = Swagger.upgradedVersion := by
  obtain ⟨doc, -, h⟩ := Swagger.upgrade_eq_ok_iff.1 h
  obtain ⟨paths, components, -, -, rfl⟩ := Swagger.Document.upgrade_eq_ok_iff.1 h
  rfl

/-- A document of version 2 exports like the document of version 3 that its upgrade writes: the
latter loads as such, and the exports differ in nothing but the version of the format and null
examples of parameters, which it does not have. -/
theorem convert_reloaded_upgrade {raw : Json} {loaded : Loaded} (ho : raw.Ordered)
    (hloaded : Loaded.ofJson raw = .ok loaded) (hdialect : loaded.dialect = .swagger2)
    (hnew : ∀ name ∈ Swagger.newNames, raw.get? name = none) :
    ∃ again, Loaded.ofJson loaded.document.toJson.canonical = .ok again ∧
      again.dialect = .openApi3 ∧
      Export.convert again.document again.declaredVersion =
        { (Export.convert loaded.document loaded.declaredVersion).settled with
          contentVersion := Swagger.upgradedVersion } := by
  obtain ⟨-, hupgrade⟩ := Loaded.swagger2_of_ofJson hloaded hdialect
  obtain ⟨hwhole, hswagger⟩ := Swagger.whole_of_upgrade ho hnew hupgrade
  obtain ⟨again, hagain, hdocument, hopenApi, hversion⟩ := Loaded.ofJson_toJson hwhole hswagger
  refine ⟨again, hagain, hopenApi, ?_⟩
  rw [hdocument, hversion, Swagger.openapi_of_upgrade hupgrade,
    Export.convert_settled hwhole.ordered]
  rfl

/-- A document of version 2 with a parameter, a form and a null for an example. -/
def petDocument : Json :=
  .obj [("basePath", .str "/v2"),
    ("definitions", .obj [("Pet", .obj [("type", .str "object")])]),
    ("info", .obj [("title", .str "Pets"), ("version", .str "1")]),
    ("paths", .obj [("/pets", .obj [("post", .obj [
      ("parameters", .arr [
        .obj [("in", .str "query"), ("name", .str "limit"), ("type", .str "integer"),
          ("x-example", .null)],
        .obj [("in", .str "formData"), ("name", .str "photo"), ("type", .str "file")]]),
      ("responses", .obj [("200", .obj [("description", .str "ok"),
        ("schema", .obj [("$ref", .str "#/definitions/Pet")])])]),
      ("tags", .arr [.str "pet"])])])]),
    ("swagger", .str "2.0")]

theorem convert_reloaded_upgrade_petDocument :
    ∃ loaded again, Loaded.ofJson petDocument = .ok loaded ∧
      Loaded.ofJson loaded.document.toJson.canonical = .ok again ∧
      Export.convert again.document again.declaredVersion =
        { (Export.convert loaded.document loaded.declaredVersion).settled with
          contentVersion := Swagger.upgradedVersion } := by
  have hordered : petDocument.Ordered := Json.ordered_of_canonical_eq rfl
  have hnew : ∀ name ∈ Swagger.newNames, petDocument.get? name = none := by
    intro name hname
    simp only [Swagger.newNames, List.mem_cons, List.not_mem_nil, or_false] at hname
    rcases hname with rfl | rfl | rfl <;> rfl
  obtain ⟨loaded, hloaded, hdialect⟩ :
      ∃ loaded, Loaded.ofJson petDocument = .ok loaded ∧ loaded.dialect = .swagger2 :=
    ⟨_, rfl, rfl⟩
  obtain ⟨again, hagain, -, hconvert⟩ :=
    convert_reloaded_upgrade hordered hloaded hdialect hnew
  exact ⟨loaded, again, hloaded, hagain, hconvert⟩

end ApiFolio

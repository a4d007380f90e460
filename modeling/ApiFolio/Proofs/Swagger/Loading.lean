import ApiFolio.Source

/-!
# Loading documents of either version

A raw document is loaded as one of version 2 if it says that it is of this version and its upgrade
ends well; what is loaded is the upgrade. A document of version 3 is loaded as it is read. There is
no other way to be loaded (`Loaded.ofJson_cases`).
-/

namespace ApiFolio

theorem Swagger.upgrade_eq_ok_iff {raw : Json} {out : OpenApi.Document} :
    upgrade raw = .ok out ↔ ∃ doc, readMoved? raw = some doc ∧ doc.upgrade = .ok out := by
  unfold upgrade
  cases readMoved? raw with
  | none => simp
  | some doc => simp

namespace Loaded

variable {raw : Json} {loaded : Loaded}

theorem ofJson_cases (h : ofJson raw = .ok loaded) :
    (∃ version document, swaggerVersion? raw = some version ∧
      Swagger.upgrade raw = .ok document ∧
      loaded = ⟨document, .swagger2, version,
        Validation.raw raw ++ Validation.document document⟩) ∨
    (∃ document, swaggerVersion? raw = none ∧ OpenApi.Document.ofJson? raw = some document ∧
      loaded = ⟨document, .openApi3, document.openapi,
        Validation.raw raw ++ Validation.document document⟩) := by
  unfold ofJson at h
  split at h
  · split at h
    · rename_i version hversion
      split at h
      · rename_i document hupgrade
        cases h
        exact .inl ⟨version, document, hversion, hupgrade, rfl⟩
      · cases h
    · rename_i hversion
      split at h
      · rename_i document hread
        cases h
        exact .inr ⟨document, hversion, hread, rfl⟩
      · cases h
  · cases h

theorem swagger2_of_ofJson (h : ofJson raw = .ok loaded) (hdialect : loaded.dialect = .swagger2) :
    swaggerVersion? raw = some loaded.declaredVersion ∧
      Swagger.upgrade raw = .ok loaded.document := by
  obtain ⟨version, document, hversion, hupgrade, rfl⟩ | ⟨document, -, -, rfl⟩ := ofJson_cases h
  · exact ⟨hversion, hupgrade⟩
  · cases hdialect

theorem openApi3_of_ofJson (h : ofJson raw = .ok loaded) (hdialect : loaded.dialect = .openApi3) :
    OpenApi.Document.ofJson? raw = some loaded.document := by
  obtain ⟨version, document, -, -, rfl⟩ | ⟨document, -, hread, rfl⟩ := ofJson_cases h
  · cases hdialect
  · exact hread

theorem version_of_openApi3 (h : ofJson raw = .ok loaded) (hdialect : loaded.dialect = .openApi3) :
    swaggerVersion? raw = none ∧ loaded.declaredVersion = loaded.document.openapi := by
  obtain ⟨version, document, -, -, rfl⟩ | ⟨document, hversion, -, rfl⟩ := ofJson_cases h
  · cases hdialect
  · exact ⟨hversion, rfl⟩

/-- The issues of a document are those of its raw form and those of what was read. -/
theorem issues_of_ofJson (h : ofJson raw = .ok loaded) :
    loaded.issues = Validation.raw raw ++ Validation.document loaded.document := by
  obtain ⟨version, document, -, -, rfl⟩ | ⟨document, -, -, rfl⟩ := ofJson_cases h
  · rfl
  · rfl

theorem ofJson_of_upgrade {version : String} {document : OpenApi.Document}
    (hversion : swaggerVersion? raw = some version)
    (hupgrade : Swagger.upgrade raw = .ok document) :
    ∃ loaded, ofJson raw = .ok loaded ∧ loaded.dialect = .swagger2 ∧
      loaded.document = document ∧ loaded.declaredVersion = version := by
  cases raw with
  | obj members =>
    refine ⟨{
      document, dialect := .swagger2, declaredVersion := version,
      issues := Validation.raw (.obj members) ++ Validation.document document },
      ?_, rfl, rfl, rfl⟩
    simp only [ofJson, hversion, hupgrade]
  | _ => cases hversion

theorem ofJson_of_read {document : OpenApi.Document} (hversion : swaggerVersion? raw = none)
    (hread : OpenApi.Document.ofJson? raw = some document) :
    ∃ loaded, ofJson raw = .ok loaded ∧ loaded.dialect = .openApi3 ∧
      loaded.document = document ∧ loaded.declaredVersion = document.openapi := by
  cases raw with
  | obj members =>
    refine ⟨{
      document, dialect := .openApi3, declaredVersion := document.openapi,
      issues := Validation.raw (.obj members) ++ Validation.document document },
      ?_, rfl, rfl, rfl⟩
    simp only [ofJson, hversion, hread]
  | _ => cases hread

end Loaded

end ApiFolio

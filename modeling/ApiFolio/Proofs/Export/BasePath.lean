import ApiFolio.Export.Conversion
import ApiFolio.Proofs.OpenApi.ReadFrom
import ApiFolio.Proofs.Record.Read
import ApiFolio.Proofs.Swagger.Loading
import ApiFolio.Proofs.Swagger.Pointers
import ApiFolio.Proofs.Swagger.ReadFrom
import ApiFolio.Proofs.Swagger.Upgraded

/-!
# The base path of an export

A base path may be given by two extensions and, in version 2, by a member of its own, which the
upgrade makes the first of the extensions where that is absent. What was read has the extensions of
the raw document (`get?_extensions`), so the first of these members that is present counts, and
gives the base path if it is a string that is not empty (`basePath_convert`).
-/

namespace ApiFolio

open Export (nonEmpty? basePath?)

/-- The members at the top of a document that may give its base path, in the order in which they
count. -/
def Dialect.basePathMembers : Dialect → List String
  | swagger2 => ["x-basePath", "x-base-path", "basePath"]
  | openApi3 => ["x-basePath", "x-base-path"]

/-- The base path that a value gives: a string that is not empty. -/
def givenPath? (v : Json) : Option String := v.text?.bind nonEmpty?

/-- A document of version 2 has a base path of its own beside the second of the extensions, and does
not have the first. -/
def HasRivalPaths (dialect : Dialect) (raw : Json) : Prop :=
  dialect = .swagger2 ∧ raw.get? "x-basePath" = none ∧ (raw.get? "x-base-path").isSome ∧
    ((raw.get? "basePath").bind givenPath?).isSome

/-! ## Extensions -/

theorem OpenApi.Document.get?_extensions {raw : Json} {doc : OpenApi.Document} (ho : raw.Ordered)
    (h : ofJson? raw = some doc) {name : String} (hname : Entries.get? name layout = none) :
    doc.extensions.get? name = raw.get? name := by
  obtain ⟨ms, hms, hread⟩ := ofJson?_eq_some_iff.1 h
  cases raw with
  | obj members =>
    cases hms
    rw [hread.extensions, Record.get?_unknown ho.1, hname]
    rfl
  | _ => cases hms

namespace Swagger

variable {raw : Json} {doc : Document}

theorem Document.get?_extensions (ho : raw.Ordered) (h : readMoved? raw = some doc) {name : String}
    (hname : Entries.get? name layout = none) :
    doc.extensions.get? name =
      (raw.get? name).map (moveMember (bodyParameterNames raw) name) := by
  obtain ⟨ms, hms, hread⟩ := ofJson?_eq_some_iff.1 h
  cases raw with
  | obj members =>
    cases hms
    rw [hread.extensions, Record.get?_unknown (ordered_movePointers _ ho).1, hname,
      get?_movePointersMembers]
    rfl
  | _ => cases hms

theorem givenPath?_moveMember (bodies : List String) {name : String} (hname : name ≠ "$ref")
    (v : Json) : givenPath? (moveMember bodies name v) = givenPath? v := by
  cases v with
  | str s => rw [moveMember, if_neg hname]
  | _ => rfl

/-- A text that was read from a member is one that the member gives, or there is none. -/
theorem bind_givenPath?_of_optionalString? {ms : List (String × Json)} {name : String}
    {text : Option String} (h : Record.optionalString? ms name = some text) :
    (Entries.get? name ms).bind givenPath? = text.bind nonEmpty? := by
  unfold Record.optionalString? Record.optional? at h
  split at h
  · rename_i hnone
    cases h
    rw [hnone]
    rfl
  · rename_i hnull
    cases h
    rw [hnull]
    rfl
  · rename_i v _ hv
    obtain ⟨s, hs, rfl⟩ := Option.map_eq_some_iff.1 h
    rw [hv, Option.bind_some, givenPath?, hs]

theorem Document.bind_basePath (h : readMoved? raw = some doc) :
    doc.basePath.bind nonEmpty? = (raw.get? "basePath").bind givenPath? := by
  obtain ⟨ms, hms, hread⟩ := ofJson?_eq_some_iff.1 h
  cases raw with
  | obj members =>
    cases hms
    rw [← bind_givenPath?_of_optionalString? hread.basePath, get?_movePointersMembers,
      Option.bind_map]
    exact congrArg _ (funext (givenPath?_moveMember _ (by decide)))
  | _ => cases hms

theorem Document.get?_upgradedExtensions (doc : Document) (name : String) :
    doc.upgradedExtensions.get? name =
      (doc.extensions.get? name).or
        (if "x-basePath" = name then (doc.basePath.bind nonEmpty?).map .str else none) := by
  have hfilter : (doc.basePath.filter fun p => !p.isEmpty) = doc.basePath.bind nonEmpty? := by
    cases doc.basePath with
    | none => rfl
    | some path =>
      unfold nonEmpty?
      rw [Option.filter_some, Option.bind_some]
      cases path.isEmpty <;> rfl
  unfold upgradedExtensions
  rw [hfilter]
  cases doc.basePath.bind nonEmpty? with
  | none => simp
  | some path => exact Dict.get?_insertIfNew _ _ _ _

end Swagger

/-! ## The export -/

/-- The first of the extensions that is present counts. -/
theorem Export.basePath?_eq (doc : OpenApi.Document) :
    basePath? doc =
      ((doc.extensions.get? "x-basePath").or (doc.extensions.get? "x-base-path")).bind
        givenPath? := by
  unfold basePath? firstExtension? basePathKeys
  cases hfirst : doc.extensions.get? "x-basePath" with
  | none => cases hsecond : doc.extensions.get? "x-base-path" <;> simp [hfirst, hsecond, givenPath?]
  | some v => simp [hfirst, givenPath?]

variable {raw : Json} {loaded : Loaded}

theorem basePath_openApi3 (ho : raw.Ordered) {doc : OpenApi.Document}
    (h : OpenApi.Document.ofJson? raw = some doc) :
    basePath? doc =
      ((raw.get? "x-basePath").or (raw.get? "x-base-path")).bind givenPath? := by
  rw [Export.basePath?_eq, OpenApi.Document.get?_extensions ho h (by decide),
    OpenApi.Document.get?_extensions ho h (by decide)]

theorem givenPath?_str {v : Json} {path : String} (h : givenPath? v = some path) :
    givenPath? (.str path) = some path := by
  obtain ⟨s, -, hs⟩ := Option.bind_eq_some_iff.1 h
  have hpath : s = path := by
    unfold nonEmpty? at hs
    split at hs
    · cases hs
    · exact Option.some.inj hs
  rw [← hpath] at hs ⊢
  exact hs

/-- In version 2 the base path of the document stands behind the first extension. -/
theorem basePath_swagger2 (ho : raw.Ordered) {out : OpenApi.Document}
    (h : Swagger.upgrade raw = .ok out) :
    basePath? out = match raw.get? "x-basePath" with
      | some v => givenPath? v
      | none =>
        ((raw.get? "basePath").bind givenPath?).or ((raw.get? "x-base-path").bind givenPath?) := by
  obtain ⟨doc, hdoc, hout⟩ := Swagger.upgrade_eq_ok_iff.1 h
  obtain ⟨paths, components, -, -, rfl⟩ := Swagger.Document.upgrade_eq_ok_iff.1 hout
  have hextension (name : String) := Swagger.Document.get?_upgradedExtensions doc name
  rw [Export.basePath?_eq]
  dsimp only
  rw [hextension, hextension, Swagger.Document.bind_basePath hdoc,
    Swagger.Document.get?_extensions ho hdoc (by decide),
    Swagger.Document.get?_extensions ho hdoc (by decide)]
  have hmoved {name : String} (hname : name ≠ "$ref") :=
    Swagger.givenPath?_moveMember (Swagger.bodyParameterNames raw) hname
  cases hfirst : raw.get? "x-basePath" with
  | some v => exact hmoved (by decide) v
  | none =>
    cases hown : (raw.get? "basePath").bind givenPath? with
    | some path =>
      obtain ⟨v, -, hv⟩ := Option.bind_eq_some_iff.1 hown
      exact givenPath?_str hv
    | none =>
      cases hsecond : raw.get? "x-base-path" with
      | none => rfl
      | some v => exact hmoved (by decide) v

/-- The first of the members for base paths that is present counts, and gives the base path if it is
a string that is not empty. -/
theorem basePath_convert (ho : raw.Ordered) (h : Loaded.ofJson raw = .ok loaded)
    (hrival : ¬HasRivalPaths loaded.dialect raw) :
    (Export.convert loaded.document loaded.declaredVersion).basePath =
      (loaded.dialect.basePathMembers.findSome? fun name => raw.get? name).bind givenPath? := by
  show basePath? loaded.document = _
  cases hdialect : loaded.dialect with
  | openApi3 =>
    rw [basePath_openApi3 ho (Loaded.openApi3_of_ofJson h hdialect)]
    cases hfirst : raw.get? "x-basePath" <;> cases hsecond : raw.get? "x-base-path" <;>
      simp [Dialect.basePathMembers, hfirst, hsecond]
  | swagger2 =>
    rw [basePath_swagger2 ho (Loaded.swagger2_of_ofJson h hdialect).2]
    cases hfirst : raw.get? "x-basePath" with
    | some v => simp [Dialect.basePathMembers, hfirst]
    | none =>
      cases hsecond : raw.get? "x-base-path" with
      | none =>
        cases hown : raw.get? "basePath" <;>
          simp [Dialect.basePathMembers, hfirst, hsecond, hown]
      | some v =>
        have hown : (raw.get? "basePath").bind givenPath? = none := by
          refine Option.not_isSome_iff_eq_none.1 fun hsome => hrival ?_
          exact ⟨hdialect, hfirst, Option.isSome_iff_exists.2 ⟨v, hsecond⟩, hsome⟩
        simp [Dialect.basePathMembers, hfirst, hsecond, hown]

/-- A document of version 2 with a base path of its own and with both extensions. -/
def shopDocument : Json :=
  .obj [("basePath", .str "/shop"), ("paths", .obj []), ("swagger", .str "2.0"),
    ("x-base-path", .str "/old"), ("x-basePath", .str "/api")]

theorem basePath_convert_shopDocument :
    shopDocument.Ordered ∧ ∃ loaded, Loaded.ofJson shopDocument = .ok loaded ∧
      ¬HasRivalPaths loaded.dialect shopDocument ∧
      (Export.convert loaded.document loaded.declaredVersion).basePath = some "/api" := by
  have ho : shopDocument.Ordered := Json.ordered_of_canonical_eq rfl
  have hrival (dialect : Dialect) : ¬HasRivalPaths dialect shopDocument :=
    fun h => Option.some_ne_none _ h.2.1
  obtain ⟨loaded, hloaded, hdialect⟩ : ∃ loaded, Loaded.ofJson shopDocument = .ok loaded ∧
      loaded.dialect = .swagger2 := ⟨_, rfl, rfl⟩
  refine ⟨ho, loaded, hloaded, hrival _, ?_⟩
  rw [basePath_convert ho hloaded (hrival _), hdialect]
  rfl

/-- The first of the members that gives a base path does not count if one before it is present. -/
theorem not_basePath_firstGiven :
    ¬∀ (raw : Json) (loaded : Loaded), raw.Ordered → Loaded.ofJson raw = .ok loaded →
      (Export.convert loaded.document loaded.declaredVersion).basePath =
        loaded.dialect.basePathMembers.findSome? fun name => (raw.get? name).bind givenPath? := by
  intro h
  have hshop := h (.obj [("openapi", .str "3.0.0"), ("x-base-path", .str "/shop"),
    ("x-basePath", .str "")]) _ (Json.ordered_of_canonical_eq rfl) rfl
  exact absurd hshop (by decide)

end ApiFolio

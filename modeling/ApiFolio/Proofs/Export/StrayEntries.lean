import ApiFolio.Proofs.Swagger.Loading
import ApiFolio.Proofs.Swagger.StrayEntries
import Mathlib.Logic.Relation

/-!
# Bad entries stay by themselves

Adding to a document an entry that says nothing, among its paths or its webhooks, leaves what is
loaded as it is, up to the extensions it comes with (`StrayAdded.loads`). So a document with any
number of such entries has the same issues and the same export (`convert_of_strayAdded`).
-/

namespace ApiFolio

open OpenApi (looseMembers)
open Json (MemberAdded MemberReplaced)
open Export (SameExtensions StrayEntry)

/-- Adding one entry that says nothing to a document of a dialect. -/
inductive StrayAdded : Dialect → Json → Json → Prop where
  | swagger2 {name key : String} {value raw raw' : Json} :
    StrayEntry Swagger.PathItem.ofJson? name key value →
    MemberReplaced name (MemberAdded key value) raw raw' → StrayAdded .swagger2 raw raw'
  | openApi3 {name key : String} {value raw raw' : Json} :
    StrayEntry OpenApi.PathItem.ofJson? name key value →
    MemberReplaced name (MemberAdded key value) raw raw' → StrayAdded .openApi3 raw raw'

/-- Loaded documents of which one has other extensions that say the same. -/
structure Loaded.Alike (a b : Loaded) : Prop where
  dialect : b.dialect = a.dialect
  declaredVersion : b.declaredVersion = a.declaredVersion
  issues : b.issues = a.issues
  document : ∃ extensions, b.document = { a.document with extensions } ∧
    SameExtensions a.document.extensions extensions

variable {raw raw' : Json} {loaded : Loaded}

theorem Loaded.Alike.convert {a b : Loaded} (h : Alike a b) :
    Export.convert b.document b.declaredVersion = Export.convert a.document a.declaredVersion := by
  obtain ⟨extensions, hdocument, hsame⟩ := h.document
  rw [h.declaredVersion, hdocument, Export.convert_of_sameExtensions hsame]

/-! ## One entry -/

section Step

variable {name key : String} {value : Json} {R : Json → Json → Prop}

theorem get?_loose (hname : name ∈ looseMembers) (h : MemberReplaced name R raw raw')
    {key : String} (hkey : key ∉ looseMembers) : raw'.get? key = raw.get? key :=
  Record.get?_replaced h fun heq => hkey (heq ▸ hname)

theorem swaggerVersion?_loose (hname : name ∈ looseMembers) (h : MemberReplaced name R raw raw') :
    swaggerVersion? raw' = swaggerVersion? raw := by
  unfold swaggerVersion?
  rw [get?_loose hname h (by decide)]

theorem raw_loose (hname : name ∈ looseMembers) (h : MemberReplaced name R raw raw') :
    Validation.raw raw' = Validation.raw raw := by
  unfold Validation.raw
  simp only [get?_loose hname h (show "openapi" ∉ looseMembers by decide),
    get?_loose hname h (show "swagger" ∉ looseMembers by decide),
    get?_loose hname h (show "info" ∉ looseMembers by decide),
    get?_loose hname h (show "servers" ∉ looseMembers by decide)]

theorem OpenApi.Document.ofJson?_added {doc : OpenApi.Document}
    (hstray : StrayEntry OpenApi.PathItem.ofJson? name key value)
    (h : MemberReplaced name (MemberAdded key value) raw raw')
    (hdoc : OpenApi.Document.ofJson? raw = some doc) :
    ∃ extensions, OpenApi.Document.ofJson? raw' = some { doc with extensions } ∧
      SameExtensions doc.extensions extensions := by
  obtain ⟨before, v, w, after, rfl, rfl, hadded⟩ := h
  refine ⟨_, ofJson?_replaced hstray.mem_looseMembers (hstray.readPaths? hadded) hdoc, ?_⟩
  obtain ⟨ms, hms, hx⟩ := ofJson?_eq_some_iff.1 hdoc
  cases hms
  rw [hx.extensions]
  exact hstray.sameExtensions rfl hadded before after

/-- The checks do not look at the extensions of a document. -/
theorem Loaded.alike_of_sameExtensions {again : Loaded} {extensions : Dict Json}
    (hloaded : ofJson raw = .ok loaded) (hagain : ofJson raw' = .ok again)
    (hraw : Validation.raw raw' = Validation.raw raw) (hdialect : again.dialect = loaded.dialect)
    (hversion : again.declaredVersion = loaded.declaredVersion)
    (hdocument : again.document = { loaded.document with extensions })
    (hsame : SameExtensions loaded.document.extensions extensions) : loaded.Alike again where
  dialect := hdialect
  declaredVersion := hversion
  issues := by
    rw [issues_of_ofJson hagain, issues_of_ofJson hloaded, hraw, hdocument]
    rfl
  document := ⟨extensions, hdocument, hsame⟩

/-- A document loads with one more entry that says nothing, and differs in extensions at most. -/
theorem StrayAdded.loads (h : StrayAdded loaded.dialect raw raw')
    (hloaded : Loaded.ofJson raw = .ok loaded) :
    ∃ again, Loaded.ofJson raw' = .ok again ∧ loaded.Alike again := by
  generalize hdialect : loaded.dialect = dialect at h
  cases h with
  | swagger2 hstray h =>
    have hname := hstray.mem_looseMembers
    obtain ⟨hversion, hupgrade⟩ := Loaded.swagger2_of_ofJson hloaded hdialect
    obtain ⟨doc, hdoc, hout⟩ := Swagger.upgrade_eq_ok_iff.1 hupgrade
    obtain ⟨extensions, hdoc', hread⟩ := Swagger.readMoved?_added hstray h hdoc
    obtain ⟨upgraded, hout', hsame⟩ := Swagger.Document.upgrade_of_sameExtensions hread hout
    obtain ⟨again, hagain, hdialect', hdocument, hdeclared⟩ := Loaded.ofJson_of_upgrade
      ((swaggerVersion?_loose hname h).trans hversion)
      (Swagger.upgrade_eq_ok_iff.2 ⟨_, hdoc', hout'⟩)
    exact ⟨again, hagain, Loaded.alike_of_sameExtensions hloaded hagain (raw_loose hname h)
      (hdialect'.trans hdialect.symm) hdeclared hdocument hsame⟩
  | openApi3 hstray h =>
    have hname := hstray.mem_looseMembers
    obtain ⟨hversion, hdeclared⟩ := Loaded.version_of_openApi3 hloaded hdialect
    obtain ⟨extensions, hdoc', hsame⟩ := OpenApi.Document.ofJson?_added hstray h
      (Loaded.openApi3_of_ofJson hloaded hdialect)
    obtain ⟨again, hagain, hdialect', hdocument, hdeclared'⟩ := Loaded.ofJson_of_read
      ((swaggerVersion?_loose hname h).trans hversion) hdoc'
    exact ⟨again, hagain, Loaded.alike_of_sameExtensions hloaded hagain (raw_loose hname h)
      (hdialect'.trans hdialect.symm) (hdeclared'.trans hdeclared.symm) hdocument hsame⟩

end Step

/-! ## Any number of entries -/

/-- A document with entries that say nothing loads with the same issues and the same export. -/
theorem convert_of_strayAdded (hloaded : Loaded.ofJson raw = .ok loaded)
    (h : Relation.ReflTransGen (StrayAdded loaded.dialect) raw raw') :
    ∃ again, Loaded.ofJson raw' = .ok again ∧ again.issues = loaded.issues ∧
      Export.convert again.document again.declaredVersion =
        Export.convert loaded.document loaded.declaredVersion := by
  suffices hrun : ∃ again, Loaded.ofJson raw' = .ok again ∧ again.dialect = loaded.dialect ∧
      again.issues = loaded.issues ∧ Export.convert again.document again.declaredVersion =
        Export.convert loaded.document loaded.declaredVersion by
    obtain ⟨again, hagain, -, hissues, hexport⟩ := hrun
    exact ⟨again, hagain, hissues, hexport⟩
  induction h with
  | refl => exact ⟨loaded, hloaded, rfl, rfl, rfl⟩
  | tail _ hstep ih =>
    obtain ⟨mid, hmid, hdialect, hissues, hexport⟩ := ih
    rw [← hdialect] at hstep
    obtain ⟨again, hagain, halike⟩ := hstep.loads hmid
    exact ⟨again, hagain, halike.dialect.trans hdialect, halike.issues.trans hissues,
      halike.convert.trans hexport⟩

/-- A document of version 2 with some paths and some webhooks. -/
def kennelDocument (paths webhooks : List (String × Json)) : Json :=
  .obj [("paths", .obj (("/dogs", .obj [("get", .obj [("summary", .str "All dogs")])]) :: paths)),
    ("swagger", .str "2.0"),
    ("x-webhooks", .obj (("barked", .obj [("post", .obj [])]) :: webhooks))]

theorem convert_of_strayAdded_kennelDocument :
    ∃ loaded again, Loaded.ofJson (kennelDocument [] []) = .ok loaded ∧
      Loaded.ofJson (kennelDocument [("/cats", .obj [("get", .num (.int 9))]), ("x-cats", .null)]
        [("meowed", .obj [("post", .bool true)])]) = .ok again ∧
      again.issues = loaded.issues ∧
      Export.convert again.document again.declaredVersion =
        Export.convert loaded.document loaded.declaredVersion := by
  have hextension : StrayAdded .swagger2 (kennelDocument [] [])
      (kennelDocument [("x-cats", .null)] []) :=
    .swagger2 (.inl ⟨rfl, .inl (by decide)⟩) ⟨[], _, _, _, rfl, rfl, [_], [], rfl, rfl, by decide⟩
  have hpath : StrayAdded .swagger2 (kennelDocument [("x-cats", .null)] [])
      (kennelDocument [("/cats", .obj [("get", .num (.int 9))]), ("x-cats", .null)] []) :=
    .swagger2 (.inl ⟨rfl, .inr rfl⟩) ⟨[], _, _, _, rfl, rfl, [_], [_], rfl, rfl, by decide⟩
  have hwebhook : StrayAdded .swagger2
      (kennelDocument [("/cats", .obj [("get", .num (.int 9))]), ("x-cats", .null)] [])
      (kennelDocument [("/cats", .obj [("get", .num (.int 9))]), ("x-cats", .null)]
        [("meowed", .obj [("post", .bool true)])]) :=
    .swagger2 (.inr ⟨by decide, rfl⟩) ⟨[_, _], _, _, [], rfl, rfl, [_], [], rfl, rfl, by decide⟩
  obtain ⟨loaded, hloaded, hdialect⟩ : ∃ loaded, Loaded.ofJson (kennelDocument [] []) = .ok loaded ∧
      loaded.dialect = .swagger2 := ⟨_, rfl, rfl⟩
  rw [← hdialect] at hextension hpath hwebhook
  obtain ⟨again, hagain, hissues, hexport⟩ := convert_of_strayAdded hloaded
    (((Relation.ReflTransGen.refl.tail hextension).tail hpath).tail hwebhook)
  exact ⟨loaded, again, hloaded, hagain, hissues, hexport⟩

end ApiFolio

import ApiFolio.Proofs.Export.BasePath
import ApiFolio.Proofs.Record.Written

/-!
# What an export carries beside its own fields

The metadata of a document and its extensions are put into one table, the metadata first. What a
look-up in it answers is told key by key (`extra_convert`): a metadatum has the value that the
document gives it, and an extension that no other field is made of has its own (`due?`). Only an
extension with the name of a member of the title block stands in the place of that member. The other
metadata are members of the document itself, and their names are no extension's
(`Loaded.get?_extensions_eq_none`).
-/

namespace ApiFolio

open OpenApi

namespace Export

/-! ## Metadata -/

/-- What a document says about itself that has no field of its own in an export. -/
inductive Metadatum where
  | version
  | summary
  | termsOfService
  | contact
  | license
  | externalDocs
  | tags
  | security
deriving DecidableEq

namespace Metadatum

/-- The key of a metadatum in an export. -/
def name : Metadatum → String
  | version => "version"
  | summary => "summary"
  | termsOfService => "termsOfService"
  | contact => "contact"
  | license => "license"
  | externalDocs => "externalDocs"
  | tags => "tags"
  | security => "security"

/-- The metadatum of a key. -/
def ofName? : String → Option Metadatum
  | "version" => some version
  | "summary" => some summary
  | "termsOfService" => some termsOfService
  | "contact" => some contact
  | "license" => some license
  | "externalDocs" => some externalDocs
  | "tags" => some tags
  | "security" => some security
  | _ => none

/-- The value of a metadatum in a document. An empty version counts as none, and so does an empty
list. -/
def value? (doc : Document) : Metadatum → Option Json
  | version => if doc.info.version.isEmpty then none else some (.str doc.info.version)
  | summary => doc.info.summary.map .str
  | termsOfService => doc.info.termsOfService.map .str
  | contact => doc.info.contact.map fun x => x.toJson.canonical
  | license => doc.info.license.map fun x => x.toJson.canonical
  | externalDocs => doc.externalDocs.map fun x => x.toJson.canonical
  | tags =>
    if doc.tags.isEmpty then none else some (.arr (doc.tags.map fun x => x.toJson.canonical))
  | security =>
    if doc.security.isEmpty then none
    else some (.arr (doc.security.map fun x => (SecurityRequirement.toJson x).canonical))

theorem ofName?_name (m : Metadatum) : ofName? m.name = some m := by
  cases m <;> rfl

theorem name_of_ofName? {key : String} {m : Metadatum} (h : ofName? key = some m) :
    m.name = key := by
  unfold ofName? at h
  split at h <;> cases h <;> rfl

theorem ofName?_eq_some_iff (key : String) (m : Metadatum) :
    ofName? key = some m ↔ m.name = key := by
  refine ⟨name_of_ofName?, ?_⟩
  rintro rfl
  exact ofName?_name m

/-- The metadata in the order in which they are written. -/
def all : List Metadatum :=
  [version, summary, termsOfService, contact, license, externalDocs, tags, security]

theorem mem_all (m : Metadatum) : m ∈ all := by
  cases m <;> decide

end Metadatum

/-- What is written is one member for each metadatum that has a value. -/
theorem metadata_eq (doc : Document) :
    metadata doc = Metadatum.all.flatMap fun m => Record.putOption m.name id (m.value? doc) := by
  have hversion : (nonEmpty? doc.info.version).map Json.str = Metadatum.version.value? doc := by
    unfold nonEmpty? Metadatum.value?
    split <;> rfl
  unfold metadata
  rw [Record.putOption_eq "version", Record.putOption_eq "summary",
    Record.putOption_eq "termsOfService", Record.putOption_eq "contact",
    Record.putOption_eq "license", Record.putOption_eq "externalDocs", Record.putList_eq,
    Record.putList_eq, Record.listMember?_eq, Record.listMember?_eq, hversion]
  simp only [Metadatum.all, List.flatMap_cons, List.flatMap_nil, List.append_assoc,
    List.append_nil]
  rfl

theorem last?_metadata (doc : Document) (key : String) :
    Entries.last? key (metadata doc) = (Metadatum.ofName? key).bind (Metadatum.value? doc) := by
  rw [metadata_eq, Record.last?_flatMap_putOption Metadatum.ofName?_eq_some_iff]
  simp only [Metadatum.mem_all, if_true]

/-! ## Look-ups in the table -/

/-- The keys of the extensions that other fields of an export are made of. -/
def consumedKeys : List String := webhookKeys ++ basePathKeys

theorem ofName?_of_mem_consumedKeys : ∀ key ∈ consumedKeys, Metadatum.ofName? key = none := by
  decide

theorem get?_extra (doc : Document) (key : String) :
    (extra doc).get? key =
      if key ∈ consumedKeys then none
      else (doc.extensions.get? key).or ((Metadatum.ofName? key).bind (Metadatum.value? doc)) := by
  have hfilter (k : String) :
      (!(webhookKeys.contains k || basePathKeys.contains k)) = decide (k ∉ consumedKeys) := by
    simp [consumedKeys]
  show Entries.get? key (Entries.sort _) = _
  rw [Entries.get?_sort, Entries.last?_append,
    Entries.last?_of_sorted (Entries.sorted_filter _ doc.extensions.sorted),
    Entries.get?_filter fun k => !(webhookKeys.contains k || basePathKeys.contains k),
    last?_metadata, hfilter]
  by_cases h : key ∈ consumedKeys
  · rw [ofName?_of_mem_consumedKeys key h]
    simp [h]
  · simp [h, Dict.get?]

end Export

/-! ## Names that no extension has -/

theorem OpenApi.Document.get?_extensions_eq_none {raw : Json} {doc : OpenApi.Document}
    (h : ofJson? raw = some doc) {name : String} (hname : Entries.get? name layout ≠ none) :
    doc.extensions.get? name = none := by
  obtain ⟨ms, -, hread⟩ := ofJson?_eq_some_iff.1 h
  rw [hread.extensions, Record.get?_unknown_eq_none hname]

theorem Swagger.get?_extensions_eq_none {raw : Json} {out : OpenApi.Document}
    (h : upgrade raw = .ok out) {name : String}
    (hname : Entries.get? name Swagger.Document.layout ≠ none) :
    out.extensions.get? name = none := by
  obtain ⟨doc, hdoc, hout⟩ := upgrade_eq_ok_iff.1 h
  obtain ⟨paths, components, -, -, rfl⟩ := Document.upgrade_eq_ok_iff.1 hout
  obtain ⟨ms, -, hread⟩ := Document.ofJson?_eq_some_iff.1 hdoc
  have hpath : "x-basePath" ≠ name := by
    rintro rfl
    exact hname rfl
  show doc.upgradedExtensions.get? name = none
  rw [Document.get?_upgradedExtensions, hread.extensions, Record.get?_unknown_eq_none hname,
    if_neg hpath, Option.or_none]

/-- A member that both versions of the format know is no extension. -/
theorem Loaded.get?_extensions_eq_none {raw : Json} {loaded : Loaded}
    (h : Loaded.ofJson raw = .ok loaded) {name : String}
    (hopenApi3 : Entries.get? name OpenApi.Document.layout ≠ none)
    (hswagger2 : Entries.get? name Swagger.Document.layout ≠ none) :
    loaded.document.extensions.get? name = none := by
  obtain ⟨version, document, -, hupgrade, rfl⟩ | ⟨document, -, hread, rfl⟩ := ofJson_cases h
  · exact Swagger.get?_extensions_eq_none hupgrade hswagger2
  · exact OpenApi.Document.get?_extensions_eq_none hread hopenApi3

/-! ## The export -/

namespace Export

/-- What an export should carry under a key: the metadatum of this name, or else the extension that
no other field of the export is made of. -/
def due? (doc : Document) (key : String) : Option Json :=
  match Metadatum.ofName? key with
  | some m => m.value? doc
  | none => if key ∈ consumedKeys then none else doc.extensions.get? key

/-- The metadata that are members of the title block. -/
def titleNames : List String := ["version", "summary", "termsOfService", "contact", "license"]

theorem ofName?_of_mem_titleNames : ∀ key ∈ titleNames, Metadatum.ofName? key ≠ none := by
  decide

variable {raw : Json} {loaded : Loaded}

theorem get?_extensions_of_not_mem_titleNames (h : Loaded.ofJson raw = .ok loaded) {m : Metadatum}
    (hm : m.name ∉ titleNames) : loaded.document.extensions.get? m.name = none := by
  cases m with
  | externalDocs | tags | security =>
    exact Loaded.get?_extensions_eq_none h (by decide) (by decide)
  | _ => exact absurd hm (by decide)

/-- Of an extension and a member of the title block with one name the extension is carried. Under
every other key an export carries what it should. -/
theorem extra_convert (h : Loaded.ofJson raw = .ok loaded) (key : String) :
    (convert loaded.document loaded.declaredVersion).extra.get? key =
      if key ∈ titleNames then
        (loaded.document.extensions.get? key).or (due? loaded.document key)
      else due? loaded.document key := by
  show (extra loaded.document).get? key = _
  rw [get?_extra]
  unfold due?
  cases hkey : Metadatum.ofName? key with
  | none =>
    have htitle : key ∉ titleNames := fun hmem => ofName?_of_mem_titleNames key hmem hkey
    rw [if_neg htitle, Option.bind_none, Option.or_none]
  | some m =>
    have hname := Metadatum.name_of_ofName? hkey
    have hconsumed : key ∉ consumedKeys := by
      intro hmem
      rw [ofName?_of_mem_consumedKeys key hmem] at hkey
      cases hkey
    rw [if_neg hconsumed, Option.bind_some]
    split
    · rfl
    · rename_i hm
      rw [← hname] at hm ⊢
      rw [get?_extensions_of_not_mem_titleNames h hm, Option.none_or]

/-- A document with an extension of its own, and with one that has the name of a member of its title
block. -/
def twiceVersioned : Json :=
  .obj [("info", .obj [("title", .str "Pets"), ("version", .str "1")]), ("openapi", .str "3.0.0"),
    ("paths", .obj []), ("version", .str "9"), ("x-team", .str "Pets")]

theorem extra_convert_twiceVersioned :
    ∃ loaded, Loaded.ofJson twiceVersioned = .ok loaded ∧
      (convert loaded.document loaded.declaredVersion).extra.get? "version" = some (.str "9") ∧
      (convert loaded.document loaded.declaredVersion).extra.get? "x-team" =
        some (.str "Pets") := by
  obtain ⟨loaded, hloaded, hversion, hteam⟩ : ∃ loaded,
      Loaded.ofJson twiceVersioned = .ok loaded ∧
      loaded.document.extensions.get? "version" = some (.str "9") ∧
      loaded.document.extensions.get? "x-team" = some (.str "Pets") := ⟨_, rfl, rfl, rfl⟩
  refine ⟨loaded, hloaded, ?_, ?_⟩
  · rw [extra_convert hloaded, hversion]
    rfl
  · rw [extra_convert hloaded]
    exact hteam

/-- What the title block says is lost where an extension has the name of its member. -/
theorem not_extra_carriesAll :
    ¬∀ (raw : Json) (loaded : Loaded), Loaded.ofJson raw = .ok loaded → ∀ key,
      (convert loaded.document loaded.declaredVersion).extra.get? key =
        due? loaded.document key := by
  intro h
  have hversion : some (Json.str "9") = some (.str "1") :=
    h (.obj [("info", .obj [("title", .str "Pets"), ("version", .str "1")]),
      ("openapi", .str "3.0.0"), ("paths", .obj []), ("version", .str "9")]) _ rfl "version"
  exact absurd (Json.str.inj (Option.some.inj hversion)) (by decide)

end Export

end ApiFolio

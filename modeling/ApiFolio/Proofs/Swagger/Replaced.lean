import ApiFolio.Proofs.Record.Replaced
import ApiFolio.Proofs.Swagger.Pointers
import ApiFolio.Proofs.Swagger.ReadFrom
import ApiFolio.Proofs.Swagger.Upgraded

/-!
# Documents of version 2 that differ in one place

What is read of two raw documents that differ inside one operation or in the parameters of one
path differs in nothing else: documents in their path items, path items in operations and
parameters, operations in parameters and responses.
-/

namespace ApiFolio.Swagger

open OpenApi (Referable Verb readPaths?)
open Json (ItemReplaced MemberReplaced)
open Record (Follows FieldReplaced)

variable {R : Json → Json → Prop} {v w : Json} {name : String}
variable {P : List (Referable Parameter) → List (Referable Parameter) → Prop}
variable {S : Dict (Referable Response) → Dict (Referable Response) → Prop}

/-! ## Operations -/

/-- Operations that differ in nothing but their parameters and responses, which are related. -/
structure Operation.Alike (P : List (Referable Parameter) → List (Referable Parameter) → Prop)
    (S : Dict (Referable Response) → Dict (Referable Response) → Prop) (x y : Operation) :
    Prop where
  rest : y = { x with parameters := y.parameters, responses := y.responses }
  parameters : P x.parameters y.parameters
  responses : S x.responses y.responses

theorem Operation.Alike.refl (hP : ∀ ps, P ps ps) (hS : ∀ rs, S rs rs) (x : Operation) :
    Alike P S x x := ⟨rfl, hP _, hS _⟩

theorem Operation.follows (hname : name = "parameters" ∨ name = "responses")
    (hparameters : name = "parameters" → ∀ x y, R x y →
      Follows (Record.readList? (Referable.ofJson? Parameter.ofJson?)) P x y)
    (hresponses : name = "responses" → ∀ x y, R x y →
      Follows (Record.readDict? (Referable.ofJson? Response.ofJson?)) S x y)
    (hP : ∀ ps, P ps ps) (hS : ∀ rs, S rs rs) (h : FieldReplaced layout name R v w) :
    Follows ofJson? (Alike P S) v w := by
  intro x hx
  obtain ⟨ms, hms, hx⟩ := ofJson?_eq_some_iff.1 hx
  obtain ⟨ns, hns, hreplaced⟩ := Record.members?_replaced h hms
  have hne {key : String} (hkey : key ≠ "parameters" ∧ key ≠ "responses") : key ≠ name := by
    rcases hname with rfl | rfl
    · exact hkey.1
    · exact hkey.2
  obtain ⟨parameters, hps, hpsRel⟩ := Record.withDefault?_replaced hreplaced
    (fun hkey => hparameters hkey.symm) hP hx.parameters
  obtain ⟨responses, hrs, hrsRel⟩ := Record.withDefault?_replaced hreplaced
    (fun hkey => hresponses hkey.symm) hS hx.responses
  refine ⟨{ x with parameters, responses }, ofJson?_eq_some_iff.2 ⟨ns, hns, ?_⟩,
    ⟨rfl, hpsRel, hrsRel⟩⟩
  exact {
    tags := hreplaced.withDefault? (hne (by decide)) hx.tags
    summary := hreplaced.optional? (hne (by decide)) hx.summary
    description := hreplaced.optional? (hne (by decide)) hx.description
    externalDocs := hreplaced.optional? (hne (by decide)) hx.externalDocs
    operationId := hreplaced.optional? (hne (by decide)) hx.operationId
    consumes := hreplaced.withDefault? (hne (by decide)) hx.consumes
    produces := hreplaced.withDefault? (hne (by decide)) hx.produces
    parameters := hps
    responses := hrs
    deprecated := hreplaced.optional? (hne (by decide)) hx.deprecated
    security := hreplaced.withDefault? (hne (by decide)) hx.security }

/-! ## Path items -/

/-- Path items with related operations and parameters. -/
structure PathItem.Alike (A : Operation → Operation → Prop)
    (P : List (Referable Parameter) → List (Referable Parameter) → Prop) (x y : PathItem) :
    Prop where
  operations : ∀ verb, Option.Rel A (x.operation? verb) (y.operation? verb)
  parameters : P x.parameters y.parameters

variable {A : Operation → Operation → Prop}

theorem PathItem.Alike.refl (hA : ∀ op, A op op) (hP : ∀ ps, P ps ps) (x : PathItem) :
    Alike A P x x where
  operations verb := by
    cases x.operation? verb with
    | none => exact .none
    | some op => exact .some (hA op)
  parameters := hP _

theorem PathItem.follows
    (hoperation : name ≠ "parameters" → ∀ x y, R x y →
      x ≠ .null ∧ y ≠ .null ∧ Follows Operation.ofJson? A x y)
    (hparameters : name = "parameters" → ∀ x y, R x y →
      Follows (Record.readList? (Referable.ofJson? Parameter.ofJson?)) P x y)
    (hA : ∀ op, A op op) (hP : ∀ ps, P ps ps) (h : FieldReplaced layout name R v w) :
    Follows ofJson? (Alike A P) v w := by
  intro x hx
  obtain ⟨ms, hms, hx⟩ := ofJson?_eq_some_iff.1 hx
  obtain ⟨ns, hns, hreplaced⟩ := Record.members?_replaced h hms
  have hop : ∀ {key} {op : Option Operation}, key ≠ "parameters" →
      Record.optional? ms key Operation.ofJson? = some op →
      ∃ op', Record.optional? ns key Operation.ofJson? = some op' ∧ Option.Rel A op op' :=
    fun hkey hop => Record.optional?_replaced hreplaced
      (fun heq => hoperation (heq ▸ hkey)) hA hop
  obtain ⟨get, hget, hgetRel⟩ := hop (by decide) hx.get
  obtain ⟨put, hput, hputRel⟩ := hop (by decide) hx.put
  obtain ⟨post, hpost, hpostRel⟩ := hop (by decide) hx.post
  obtain ⟨delete, hdelete, hdeleteRel⟩ := hop (by decide) hx.delete
  obtain ⟨options, hoptions, hoptionsRel⟩ := hop (by decide) hx.options
  obtain ⟨head, hhead, hheadRel⟩ := hop (by decide) hx.head
  obtain ⟨patch, hpatch, hpatchRel⟩ := hop (by decide) hx.patch
  obtain ⟨parameters, hps, hpsRel⟩ := Record.withDefault?_replaced hreplaced
    (fun hkey => hparameters hkey.symm) hP hx.parameters
  refine ⟨{ get, put, post, delete, options, head, patch, parameters },
    ofJson?_eq_some_iff.2 ⟨ns, hns, ⟨hget, hput, hpost, hdelete, hoptions, hhead, hpatch, hps⟩⟩,
    fun verb => ?_, hpsRel⟩
  cases verb with
  | get => exact hgetRel
  | put => exact hputRel
  | post => exact hpostRel
  | delete => exact hdeleteRel
  | options => exact hoptionsRel
  | head => exact hheadRel
  | patch => exact hpatchRel
  | trace => exact .none

/-! ## Documents -/

variable {B : PathItem → PathItem → Prop}

/-- Path items that do not read are passed over, so none may read on one side only. -/
theorem readPaths?_replaced (hread : ∀ x y, R x y →
      Option.Rel B (PathItem.ofJson? x) (PathItem.ofJson? y))
    (hB : ∀ item, B item item) (h : MemberReplaced name R v w) :
    Follows (readPaths? PathItem.ofJson?) (Dict.Related B) v w := by
  obtain ⟨before, x, y, after, rfl, rfl, hR⟩ := h
  intro paths hpaths
  cases hpaths
  refine ⟨_, rfl, ?_⟩
  have hsort := (Entries.Related.replaced (A := fun x y => x = y ∨ R x y) (fun _ => .inl rfl)
    before after name (.inr hR)).sort
  refine hsort.filterMapValues fun key x y hxy => ?_
  split
  · exact .none
  · rcases hxy with rfl | hR
    · cases PathItem.ofJson? x with
      | none => exact .none
      | some item => exact .some (hB item)
    · exact hread x y hR

/-- Documents that differ in nothing but their path items, which are related. -/
structure Document.Alike (B : PathItem → PathItem → Prop) (x y : Document) : Prop where
  rest : y = { x with paths := y.paths }
  paths : Dict.Related B x.paths y.paths

theorem unknown_replaced {layout : Layout} (hname : (Entries.get? name layout).isSome)
    (before after : List (String × Json)) (x y : Json) :
    Record.unknown layout (before ++ (name, x) :: after) =
      Record.unknown layout (before ++ (name, y) :: after) := by
  have hnone : (Entries.get? name layout).isNone = false := by
    rw [Option.isNone_eq_false_iff]
    exact hname
  unfold Record.unknown
  rw [List.filter_append, List.filter_append, List.filter_cons, List.filter_cons, hnone]
  rfl

theorem Document.follows
    (hread : ∀ x y, R x y → Follows (readPaths? PathItem.ofJson?) (Dict.Related B) x y)
    (hB : ∀ item, B item item) (h : MemberReplaced "paths" R v w) :
    Follows ofJson? (Alike B) v w := by
  obtain ⟨before, x, y, after, rfl, rfl, hR⟩ := h
  intro doc hdoc
  obtain ⟨ms, hms, hx⟩ := ofJson?_eq_some_iff.1 hdoc
  cases hms
  have hreplaced : Record.MembersReplaced "paths" R _ _ := .member hR before after
  obtain ⟨paths, hpaths, hrel⟩ := Record.withDefault?_replaced hreplaced (fun _ => hread)
    (fun paths => Entries.Related.refl hB paths.entries) hx.paths
  refine ⟨{ doc with paths }, ofJson?_eq_some_iff.2 ⟨_, rfl, ?_⟩, rfl, hrel⟩
  exact {
    info := hreplaced.withDefault? (by decide) hx.info
    host := hreplaced.optional? (by decide) hx.host
    basePath := hreplaced.optional? (by decide) hx.basePath
    schemes := hreplaced.withDefault? (by decide) hx.schemes
    consumes := hreplaced.withDefault? (by decide) hx.consumes
    produces := hreplaced.withDefault? (by decide) hx.produces
    paths := hpaths
    definitions := hreplaced.withDefault? (by decide) hx.definitions
    parameters := hreplaced.withDefault? (by decide) hx.parameters
    responses := hreplaced.withDefault? (by decide) hx.responses
    securityDefinitions := hreplaced.withDefault? (by decide) hx.securityDefinitions
    security := hreplaced.withDefault? (by decide) hx.security
    tags := hreplaced.withDefault? (by decide) hx.tags
    externalDocs := hreplaced.optional? (by decide) hx.externalDocs
    swagger := by
      show doc.swagger = _
      rw [hx.swagger]
      unfold Record.scalarText
      rw [hreplaced.other "swagger" (by decide)]
    extensions := by
      show doc.extensions = _
      rw [hx.extensions]
      exact unknown_replaced rfl before after x y }

end ApiFolio.Swagger

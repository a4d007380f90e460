import ApiFolio.Proofs.OpenApi.Positions
import ApiFolio.Proofs.Validation.Places

/-!
# Which unresolved references are told

An operation refers to components at its sites: by its parameters, its body and its responses, and
in the schemas of those that are no references themselves. The pointers that are told as unresolved
at the place of an operation are the dangling ones of its sites, each as often as it stands there
(`told_operation`), and those at the place of a component schema are the dangling ones of its
positions. No other unresolved reference is told (`unresolved_exact`).
-/

namespace ApiFolio

open OpenApi

/-! ## The references of an operation -/

/-- The pointer at a position of the schema under a media type. -/
def OpenApi.Content.reference? (content : Content) (mediaType : String)
    (position : List Schema.Branch) : Option String :=
  ((content.get? mediaType).bind (·.schema)).bind fun s => s.reference? position

/-- The pointers of the schemas of a content are those at the positions under its media types. -/
theorem OpenApi.Content.lists_pointers (content : Content) :
    Lists Set.univ (fun p : String × List Schema.Branch => content.reference? p.1 p.2)
      (content.schemas.flatMap Schema.pointers) :=
  (content.lists_values.filterMap MediaType.schema).bind fun s _ => s.lists_pointers

namespace Validation

/-- Where an operation may refer to a component. -/
inductive Site where
  /-- A parameter of the path or of the operation, by its index among those of both. -/
  | parameter (n : Nat)
  /-- The body of the request. -/
  | body
  /-- A response, by its status. -/
  | response (status : String)
  /-- A position in the schema of a parameter. -/
  | inParameter (n : Nat) (position : List Schema.Branch)
  /-- A position in the schema of the body under a media type. -/
  | inBody (mediaType : String) (position : List Schema.Branch)
  /-- A position in the schema of a response under a media type. -/
  | inResponse (status mediaType : String) (position : List Schema.Branch)

/-- The pointer that an operation of a path has at a site. -/
def reference? (item : PathItem) (op : Operation) : Site → Option String
  | .parameter n => ((item.parameters ++ op.parameters)[n]?).bind (·.pointer?)
  | .body => op.requestBody.bind (·.pointer?)
  | .response status => (op.responses.get? status).bind (·.pointer?)
  | .inParameter n position =>
    (((item.parameters ++ op.parameters)[n]?).bind fun p => p.item?.bind (·.schema)).bind
      fun s => s.reference? position
  | .inBody mediaType position =>
    (op.requestBody.bind (·.item?)).bind fun b => b.content.reference? mediaType position
  | .inResponse status mediaType position =>
    ((op.responses.get? status).bind (·.item?)).bind fun r =>
      r.content.reference? mediaType position

section Sites

variable (x : Located)

theorem lists_inParameter :
    Lists (Set.range fun p : Nat × List Schema.Branch => Site.inParameter p.1 p.2)
      (reference? x.item x.operation)
      ((x.parameters.filterMap fun p => p.item?.bind (·.schema)).flatMap Schema.pointers) := by
  refine .image (fun p q h => ?_) (((lists_getElem? x.parameters).filterMap
    fun p => p.item?.bind (·.schema)).bind fun s _ => s.lists_pointers)
  obtain ⟨hn, hposition⟩ := Site.inParameter.inj h
  exact Prod.ext hn hposition

theorem lists_inBody :
    Lists (Set.range fun p : String × List Schema.Branch => Site.inBody p.1 p.2)
      (reference? x.item x.operation)
      (((x.operation.requestBody.bind Referable.item?).map fun b =>
        b.content.schemas).getD [] |>.flatMap Schema.pointers) := by
  refine .image (fun p q h => ?_) ?_
  · obtain ⟨hmediaType, hposition⟩ := Site.inBody.inj h
    exact Prod.ext hmediaType hposition
  · show Lists Set.univ (fun p : String × List Schema.Branch =>
      (x.operation.requestBody.bind Referable.item?).bind fun b =>
        b.content.reference? p.1 p.2) _
    cases x.operation.requestBody.bind Referable.item? with
    | none => exact .nil
    | some b => exact b.content.lists_pointers

theorem lists_inResponse :
    Lists (Set.range fun p : String × String × List Schema.Branch =>
        Site.inResponse p.1 p.2.1 p.2.2)
      (reference? x.item x.operation)
      ((x.operation.responses.values.flatMap fun r =>
        (r.item?.map fun y => y.content.schemas).getD []).flatMap Schema.pointers) := by
  have hlist : (x.operation.responses.values.flatMap fun r =>
      (r.item?.map fun y => y.content.schemas).getD []).flatMap Schema.pointers =
      (x.operation.responses.values.filterMap Referable.item?).flatMap fun r =>
        r.content.schemas.flatMap Schema.pointers := by
    rw [List.flatMap_assoc, List.filterMap_eq_flatMap_toList, List.flatMap_assoc]
    refine List.flatMap_congr fun r _ => ?_
    cases r <;> simp [Referable.item?]
  rw [hlist]
  refine .image (fun p q h => ?_) (((Dict.lists_values x.operation.responses).filterMap
    Referable.item?).bind fun r _ => Content.lists_pointers r.content)
  obtain ⟨hstatus, hmediaType, hposition⟩ := Site.inResponse.inj h
  exact Prod.ext hstatus (Prod.ext hmediaType hposition)

/-- The pointers of an operation are those at its sites, one for each that has one. -/
theorem lists_pointers : Lists Set.univ (reference? x.item x.operation) x.pointers := by
  have hparameter : Lists (Set.range Site.parameter) (reference? x.item x.operation)
      (x.parameters.filterMap Referable.pointer?) :=
    .image (fun _ _ => Site.parameter.inj) ((lists_getElem? _).filterMap Referable.pointer?)
  have hbody : Lists {.body} (reference? x.item x.operation)
      (x.operation.requestBody.bind Referable.pointer?).toList := .single
  have hresponse : Lists (Set.range Site.response) (reference? x.item x.operation)
      (x.operation.responses.values.filterMap Referable.pointer?) :=
    .image (fun _ _ => Site.response.inj) ((Dict.lists_values _).filterMap Referable.pointer?)
  -- the sites in the order in which the check meets their pointers
  have hall := (((((hparameter.append (by simp) hbody).append (by simp) hresponse).append
    (by rintro _ ⟨p, rfl⟩; simp) (lists_inParameter x)).append
    (by rintro _ ⟨p, rfl⟩; simp) (lists_inBody x)).append
    (by rintro _ ⟨p, rfl⟩; simp) (lists_inResponse x)).of_forall fun site => by
      cases site <;> simp
  unfold Located.pointers outerPointers outerSchemas
  simpa only [List.flatMap_append, List.append_assoc] using hall

end Sites

/-! ## Dangling pointers -/

/-- A pointer goes into the components and there are none, or it names no entry of the area that it
goes into. -/
def Dangling (components : Option Components) (pointer : String) : Prop :=
  (∃ rest, pointer = "#/components/" ++ rest) ∧
    (components = none ∨ ∃ c area name, components = some c ∧
      Pointer.name? pointer (Area.name area) = some name ∧ area.contains c name = false)

theorem leadsToEntry_eq_false_iff {c : Components} {pointer : String} :
    leadsToEntry c pointer = false ↔
      ∃ area name, Pointer.name? pointer (Area.name area) = some name ∧
        area.contains c name = false := by
  constructor
  · intro h
    by_contra hnone
    have hall (area : Area) : Pointer.name? pointer area.name = none := by
      cases hname : Pointer.name? pointer area.name with
      | none => rfl
      | some name =>
        rw [leadsToEntry_eq area hname] at h
        exact absurd ⟨area, name, hname, h⟩ hnone
    have hschemas := hall .schemas
    have hresponses := hall .responses
    have hparameters := hall .parameters
    have hrequestBodies := hall .requestBodies
    have hsecuritySchemes := hall .securitySchemes
    unfold leadsToEntry at h
    simp_all [Area.name]
  · rintro ⟨area, name, hname, hcontains⟩
    rw [leadsToEntry_eq area hname, hcontains]

theorem isDangling_iff {components : Option Components} {pointer : String} :
    isDangling components pointer = true ↔ Dangling components pointer := by
  unfold isDangling Dangling
  rw [Bool.and_eq_true, Text.startsWith_iff_exists]
  refine and_congr Iff.rfl ?_
  cases components with
  | none => simp
  | some c => simp [leadsToEntry_eq_false_iff]

/-! ## What is told at a place -/

/-- The pointers that are told as unresolved references at a place. -/
def told (doc : Document) (location : String) : List String :=
  (document doc).filterMap fun issue =>
    if issue.location = location then Text.dropBeginning? "unresolved reference " issue.message
    else none

/-- Unresolved references are told of the pointers of the document that are dangling. -/
theorem told_eq (doc : Document) (location : String) :
    told doc location =
      ((locatedPointers doc).filterMap fun lp => if lp.1 = location then some lp.2 else none).filter
        fun pointer => isDangling doc.components pointer := by
  unfold told
  -- the other checks begin in other ways, so they add nothing to the list, whatever their number
  have hbefore : (issuesBeforePointers doc).filterMap (fun issue =>
      if issue.location = location then Text.dropBeginning? "unresolved reference " issue.message
      else none) = [] := by
    refine List.filterMap_eq_nil_iff.2 fun issue hissue => ?_
    split
    · cases hdrop : Text.dropBeginning? "unresolved reference " issue.message with
      | none => rfl
      | some rest =>
        refine absurd ?_ (not_startsWith_unresolved hissue)
        rw [Text.dropBeginning?_eq_some_iff.1 hdrop]
        exact Text.startsWith_append _ _
    · rfl
  rw [document_eq_append, List.filterMap_append, hbefore, List.nil_append]
  unfold pointers
  rw [List.filterMap_filterMap, List.filter_filterMap]
  refine List.filterMap_congr fun lp _ => ?_
  by_cases hdangling : isDangling doc.components lp.2 <;> by_cases hplace : lp.1 = location <;>
    simp [hdangling, hplace, Option.filter]

/-- The pointers that stand at one place when those of several members of a list stand at different
places. -/
theorem filterMap_flatMap_of_unique {α : Type} {members : List α} {place : α → String}
    {pointersOf : α → List String} (hnodup : (members.map place).Nodup) {x : α}
    (hx : x ∈ members) :
    (members.flatMap fun y => (pointersOf y).map fun p => (place y, p)).filterMap
        (fun lp => if lp.1 = place x then some lp.2 else none) = pointersOf x := by
  have hplace {y : α} : ((pointersOf y).map fun p => (place y, p)).filterMap
      (fun lp => if lp.1 = place x then some lp.2 else none) =
      if place y = place x then pointersOf y else [] := by
    rw [List.filterMap_map]
    by_cases h : place y = place x <;> simp [h]
  rw [List.filterMap_flatMap]
  simp only [hplace]
  rw [flatMap_eq_of_unique hnodup.of_map hx, if_pos rfl]
  intro y hy hne
  exact if_neg fun heq => hne (List.inj_on_of_nodup_map hnodup hy hx heq)

/-- The pointers that stand at a place that is none of those of the members of a list. -/
theorem filterMap_flatMap_of_forall_ne {α : Type} {members : List α} {place : α → String}
    {pointersOf : α → List String} {location : String}
    (h : ∀ y ∈ members, place y ≠ location) :
    (members.flatMap fun y => (pointersOf y).map fun p => (place y, p)).filterMap
        (fun lp => if lp.1 = location then some lp.2 else none) = [] := by
  refine List.filterMap_eq_nil_iff.2 fun lp hlp => ?_
  obtain ⟨y, hy, hlp⟩ := List.mem_flatMap.1 hlp
  obtain ⟨p, -, rfl⟩ := List.mem_map.1 hlp
  exact if_neg (h y hy)

variable {doc : Document}

theorem told_operation {x : Located} (hx : x ∈ documentOperations doc) :
    told doc x.location = x.pointers.filter fun pointer => isDangling doc.components pointer := by
  rw [told_eq]
  unfold locatedPointers
  rw [List.filterMap_append, filterMap_flatMap_of_unique (nodup_locations doc) hx]
  cases doc.components with
  | none => rw [List.filterMap_nil, List.append_nil]
  | some c =>
    rw [filterMap_flatMap_of_forall_ne fun e _ heq => location_ne_schemaPlace hx e.1 heq.symm,
      List.append_nil]

theorem told_schema {c : Components} (hc : doc.components = some c) {name : String} {s : Schema}
    (hs : c.schemas.get? name = some s) :
    told doc (schemaPlace name) =
      s.pointers.filter fun pointer => isDangling doc.components pointer := by
  have hnodup : (c.schemas.entries.map fun e => schemaPlace e.1).Nodup := by
    refine List.pairwise_map.2 (c.schemas.sorted.imp fun {e f} hlt heq => ?_)
    rw [schemaPlace_injective heq] at hlt
    exact String.lt_irrefl _ hlt
  rw [told_eq]
  unfold locatedPointers
  rw [List.filterMap_append, hc,
    filterMap_flatMap_of_forall_ne fun x hx => location_ne_schemaPlace hx name, List.nil_append]
  exact congrArg _ (filterMap_flatMap_of_unique hnodup ((Dict.mem_entries _).2 hs))

/-- The unresolved references that are told at the place of an operation of a path are the dangling
ones at its sites, and those at the place of a component schema are the dangling ones at its
positions, each told as often as it stands there. No unresolved reference is told elsewhere. -/
theorem unresolved_exact (doc : Document) :
    (∀ path item verb op, doc.paths.get? path = some item → item.operation? verb = some op →
      ∀ pointer, ((told doc ("paths." ++ path ++ "." ++ verb.name)).count pointer : ℕ∞) =
        {site | reference? item op site = some pointer ∧
          Dangling doc.components pointer}.encard) ∧
      (∀ c name s, doc.components = some c → c.schemas.get? name = some s →
        ∀ pointer, ((told doc ("components.schemas." ++ name)).count pointer : ℕ∞) =
          {position | s.reference? position = some pointer ∧
            Dangling doc.components pointer}.encard) ∧
      ∀ issue ∈ document doc, (∃ rest, issue.message = "unresolved reference " ++ rest) →
        (∃ path item verb op, doc.paths.get? path = some item ∧ item.operation? verb = some op ∧
          issue.location = "paths." ++ path ++ "." ++ verb.name) ∨
        ∃ c name s, doc.components = some c ∧ c.schemas.get? name = some s ∧
          issue.location = "components.schemas." ++ name := by
  refine ⟨fun path item verb op hitem hop pointer => ?_, fun c name s hc hs pointer => ?_,
    fun issue hissue ⟨pointer, hmessage⟩ => ?_⟩
  · have hcount := (lists_pointers (placeOf path item verb op)).count_filter_eq_encard
      (fun p => isDangling doc.components p) pointer
    rw [← told_operation (placeOf_mem_documentOperations hitem hop)] at hcount
    simp only [← isDangling_iff]
    exact hcount
  · have hcount := s.lists_pointers.count_filter_eq_encard
      (fun p => isDangling doc.components p) pointer
    rw [← told_schema hc hs] at hcount
    simp only [← isDangling_iff]
    exact hcount
  · obtain ⟨hmem, -⟩ := exists_pointer_of_unresolved hissue hmessage
    rcases List.mem_append.1 hmem with hmem | hmem
    · obtain ⟨x, hx, hmem⟩ := List.mem_flatMap.1 hmem
      obtain ⟨path, item, verb, op, hitem, hop, rfl⟩ := mem_documentOperations_iff.1 hx
      obtain ⟨p, -, heq⟩ := List.mem_map.1 hmem
      exact .inl ⟨path, item, verb, op, hitem, hop, (Prod.mk.inj heq).1.symm⟩
    · cases hc : doc.components with
      | none =>
        rw [hc] at hmem
        cases hmem
      | some c =>
        rw [hc] at hmem
        obtain ⟨e, he, hmem⟩ := List.mem_flatMap.1 hmem
        obtain ⟨p, -, heq⟩ := List.mem_map.1 hmem
        exact .inr ⟨c, e.1, e.2, rfl, (Dict.mem_entries _).1 he, (Prod.mk.inj heq).1.symm⟩

def goneOperation : Operation where
  requestBody := some (.ref "#/components/requestBodies/Pet")
  responses := Dict.ofList [("200", .item {
    content := Dict.ofList [("application/json", {
      schema := some {
        additional := some (.obj [("$ref", .str "#/components/schemas/Gone")],
          some (.pointingTo "#/components/schemas/Gone")) } })] })]

def gonePath : PathItem where
  get := some goneOperation
  parameters := [.item { name := "pets", location := "query", schema := some {
    items := some (.pointingTo "#/components/schemas/Gone") } }]

/-- An operation with a pointer to a body that there is, and with one to a missing schema at two
sites: in the items of a parameter of its path and in the additional properties of a response. -/
def goneDocument : Document where
  openapi := "3.0.0"
  info := { title := "Pets", version := "1" }
  paths := Dict.ofList [("/pets", gonePath)]
  components := some { requestBodies := Dict.ofList [("Pet", .item {})] }

theorem unresolved_exact_goneDocument :
    goneDocument.paths.get? "/pets" = some gonePath ∧
      gonePath.operation? .get = some goneOperation ∧
      {site | reference? gonePath goneOperation site = some "#/components/schemas/Gone" ∧
        Dangling goneDocument.components "#/components/schemas/Gone"}.encard = 2 := by
  have htold : told goneDocument "paths./pets.get" =
      ["#/components/schemas/Gone", "#/components/schemas/Gone"] := by rfl
  have hcount := (unresolved_exact goneDocument).1 "/pets" gonePath .get goneOperation rfl rfl
    "#/components/schemas/Gone"
  refine ⟨rfl, rfl, hcount.symm.trans ?_⟩
  show ((told goneDocument "paths./pets.get").count "#/components/schemas/Gone" : ℕ∞) = 2
  rw [htold]
  rfl

end Validation

end ApiFolio

import ApiFolio.OpenApi.Document
import ApiFolio.Proofs.OpenApi.SchemaReread

/-!
# Documents are read again as they are

A document that holds nothing but ordered values is read again from what it writes, in its settled
form (`Document.ofJson?_toJson`): a null given as an illustration is written as null, which is read
as no illustration. Nothing else changes.
-/

namespace ApiFolio.OpenApi

open Record

/-! ## The settled form -/

/-- The same object with a function applied to it; a pointer stays. -/
def Referable.map {α : Type} (f : α → α) : Referable α → Referable α
  | .ref pointer => .ref pointer
  | .item x => .item (f x)

/-- A representation without a null for illustration. -/
def MediaType.settled (x : MediaType) : MediaType := { x with sample := settledValue x.sample }

/-- A body without nulls for illustration. -/
def RequestBody.settled (x : RequestBody) : RequestBody :=
  { x with content := x.content.map MediaType.settled }

/-- A parameter without nulls for illustration. -/
def Parameter.settled (x : Parameter) : Parameter :=
  { x with sample := settledValue x.sample, content := x.content.map MediaType.settled }

/-- A response without nulls for illustration. -/
def Response.settled (x : Response) : Response :=
  { x with content := x.content.map MediaType.settled }

/-- An operation without nulls for illustration. -/
def Operation.settled (x : Operation) : Operation :=
  { x with
    parameters := x.parameters.map (Referable.map Parameter.settled)
    requestBody := x.requestBody.map (Referable.map RequestBody.settled)
    responses := x.responses.map (Referable.map Response.settled) }

/-- A path item without nulls for illustration. -/
def PathItem.settled (x : PathItem) : PathItem :=
  { x with
    get := x.get.map Operation.settled
    put := x.put.map Operation.settled
    post := x.post.map Operation.settled
    delete := x.delete.map Operation.settled
    options := x.options.map Operation.settled
    head := x.head.map Operation.settled
    patch := x.patch.map Operation.settled
    trace := x.trace.map Operation.settled
    parameters := x.parameters.map (Referable.map Parameter.settled) }

/-- Components without nulls for illustration. -/
def Components.settled (x : Components) : Components :=
  { x with
    responses := x.responses.map (Referable.map Response.settled)
    parameters := x.parameters.map (Referable.map Parameter.settled)
    requestBodies := x.requestBodies.map (Referable.map RequestBody.settled) }

/-- A document without nulls for illustration. -/
def Document.settled (x : Document) : Document :=
  { x with
    paths := x.paths.map PathItem.settled
    components := x.components.map Components.settled }

/-! ## What is written whole -/

/-- The values of the table are ordered. -/
def OrderedTable (table : Dict Json) : Prop := ∀ e ∈ table.entries, e.2.Ordered

/-- What stands here, if it is no pointer, has a property. -/
def Referable.Holds {α : Type} (P : α → Prop) : Referable α → Prop
  | .ref _ => True
  | .item x => P x

/-- A representation that is read again. -/
structure MediaType.Whole (x : MediaType) : Prop where
  schema : ∀ s ∈ x.schema, s.Rereads
  sample : ∀ v ∈ x.sample, v.Ordered
  samples : OrderedTable x.samples

/-- Representations that are read again. -/
def Content.Whole (x : Content) : Prop := ∀ e ∈ x.entries, e.2.Whole

/-- A parameter that is read again. -/
structure Parameter.Whole (x : Parameter) : Prop where
  schema : ∀ s ∈ x.schema, s.Rereads
  sample : ∀ v ∈ x.sample, v.Ordered
  content : Content.Whole x.content

/-- A response that is read again. -/
structure Response.Whole (x : Response) : Prop where
  headers : OrderedTable x.headers
  content : Content.Whole x.content
  links : OrderedTable x.links

/-- A server that is read again. -/
def Server.Whole (x : Server) : Prop :=
  ∀ e ∈ x.slots.entries, ∀ vs ∈ e.2.choices, ∀ v ∈ vs, v.Ordered

/-- An operation that is read again. -/
structure Operation.Whole (x : Operation) : Prop where
  parameters : ∀ p ∈ x.parameters, p.Holds Parameter.Whole
  requestBody : ∀ b ∈ x.requestBody, b.Holds fun body => Content.Whole body.content
  responses : ∀ e ∈ x.responses.entries, e.2.Holds Response.Whole
  servers : ∀ s ∈ x.servers, s.Whole

/-- A path item that is read again. -/
structure PathItem.Whole (x : PathItem) : Prop where
  operations : ∀ verb, ∀ op ∈ x.operation? verb, op.Whole
  servers : ∀ s ∈ x.servers, s.Whole
  parameters : ∀ p ∈ x.parameters, p.Holds Parameter.Whole

/-- Components that are read again. -/
structure Components.Whole (x : Components) : Prop where
  schemas : ∀ e ∈ x.schemas.entries, e.2.Rereads
  responses : ∀ e ∈ x.responses.entries, e.2.Holds Response.Whole
  parameters : ∀ e ∈ x.parameters.entries, e.2.Holds Parameter.Whole
  requestBodies : ∀ e ∈ x.requestBodies.entries,
    e.2.Holds fun body => Content.Whole body.content
  ordered : OrderedTable x.extra
  unnamed : ∀ e ∈ x.extra.entries, Entries.get? e.1 Components.layout = none

/-- A document that is read again. -/
structure Document.Whole (x : Document) : Prop where
  servers : ∀ s ∈ x.servers, s.Whole
  paths : ∀ e ∈ x.paths.entries, isExtensionKey e.1 = false ∧ e.2.Whole
  components : ∀ c ∈ x.components, c.Whole
  ordered : OrderedTable x.extensions
  unnamed : ∀ e ∈ x.extensions.entries, Entries.get? e.1 Document.layout = none

/-! ## Reading again -/

theorem OrderedTable.reread {table : Dict Json} (h : OrderedTable table) :
    rereadTable some (tableMember? id table) = some table := by
  have := @rereadTable_tableMember Json some id id table fun e he =>
    congrArg some (Json.canonical_of_ordered (h e he))
  rwa [Dict.map_id] at this

theorem rereadOption_of {α : Type} {read : Json → Option α} {write : α → Json} {x : Option α}
    (hnull : read .null = none) (h : ∀ y ∈ x, read (write y).canonical = some y) :
    rereadOption read (x.map write) = some x := by
  have := rereadOption_map id hnull h
  rwa [Option.map_id] at this

theorem rereadList_of {α : Type} {read : Json → Option α} {write : α → Json} {xs : List α}
    (h : ∀ x ∈ xs, read (write x).canonical = some x) :
    rereadList read (listMember? write xs) = some xs := by
  have := rereadList_listMember id h
  rwa [List.map_id] at this

theorem rereadTable_of {α : Type} {read : Json → Option α} {write : α → Json} {table : Dict α}
    (h : ∀ e ∈ table.entries, read (write e.2).canonical = some e.2) :
    rereadTable read (tableMember? write table) = some table := by
  have := rereadTable_tableMember id h
  rwa [Dict.map_id] at this

namespace Referable

theorem pointerOf?_obj_written (members : List (String × Json)) :
    pointerOf? (.obj (written members)) =
      ((Entries.last? "$ref" members).map Json.canonical) >>= Json.text? := by
  show (Entries.get? "$ref" (written members) >>= Json.text?) = _
  rw [get?_written]

/-- A pointer is read again; so is an object, if it writes no member that makes it a pointer. -/
theorem ofJson?_toJson {α : Type} {read : Json → Option α} {write : α → Json} {f : α → α}
    {r : Referable α} (hplain : ∀ x, pointerOf? (write x).canonical = none)
    (h : r.Holds fun x => read (write x).canonical = some (f x)) :
    ofJson? read (r.toJson write).canonical = some (r.map f) := by
  cases r with
  | ref pointer =>
    show ofJson? read (Json.obj [("$ref", .str pointer)]).canonical = _
    rw [canonical_obj, ofJson?, pointerOf?_obj_written]
    rfl
  | item x =>
    show ofJson? read (write x).canonical = _
    rw [ofJson?, hplain x, show read (write x).canonical = some (f x) from h]
    rfl

theorem Holds.imp {α : Type} {P Q : α → Prop} {r : Referable α} (h : r.Holds P)
    (himp : ∀ x, P x → Q x) : r.Holds Q := by
  cases r with
  | ref pointer => trivial
  | item x => exact himp x h

end Referable

theorem Contact.ofJson?_toJson (x : Contact) : ofJson? x.toJson.canonical = some x := by
  simp [ofJson?, toJson, canonical_obj]

theorem License.ofJson?_toJson (x : License) : ofJson? x.toJson.canonical = some x := by
  simp [ofJson?, toJson, canonical_obj]

theorem Info.ofJson?_toJson (x : Info) : ofJson? x.toJson.canonical = some x := by
  have hcontact := @rereadOption_of _ _ _ x.contact rfl fun y _ => y.ofJson?_toJson
  have hlicense := @rereadOption_of _ _ _ x.license rfl fun y _ => y.ofJson?_toJson
  simp [ofJson?, toJson, canonical_obj, hcontact, hlicense]

theorem ExternalDocs.ofJson?_toJson (x : ExternalDocs) :
    ofJson? x.toJson.canonical = some x := by
  simp [ofJson?, toJson, canonical_obj]

theorem rereadOption_externalDocs (x : Option ExternalDocs) :
    rereadOption ExternalDocs.ofJson? (x.map ExternalDocs.toJson) = some x :=
  rereadOption_of rfl fun y _ => y.ofJson?_toJson

theorem Tag.ofJson?_toJson (x : Tag) : ofJson? x.toJson.canonical = some x := by
  simp [ofJson?, toJson, canonical_obj, rereadOption_externalDocs]

theorem ServerVariable.ofJson?_toJson {x : ServerVariable}
    (h : ∀ vs ∈ x.choices, ∀ v ∈ vs, v.Ordered) : ofJson? x.toJson.canonical = some x := by
  simp [ofJson?, toJson, canonical_obj, rereadOption_arr h]

theorem Server.ofJson?_toJson {x : Server} (h : x.Whole) :
    ofJson? x.toJson.canonical = some x := by
  have hslots := rereadTable_of fun e he => ServerVariable.ofJson?_toJson (h e he)
  simp [ofJson?, toJson, canonical_obj, hslots]

theorem SecurityRequirement.ofJson?_toJson (x : SecurityRequirement) :
    SecurityRequirement.ofJson? (SecurityRequirement.toJson x).canonical = some x := by
  have h := @readDict?_writeDict (List String) (readList? Json.text?)
    (fun scopes => .arr (scopes.map .str)) id x fun e _ => by
      show (Json.canonicalItems (e.2.map Json.str)).mapM Json.text? = some e.2
      rw [Json.canonicalItems_eq, @mapM_reread String Json.text? Json.str id e.2 fun _ _ => rfl,
        List.map_id]
  rwa [Dict.map_id] at h

theorem rereadList_security (xs : List SecurityRequirement) :
    rereadList SecurityRequirement.ofJson? (listMember? SecurityRequirement.toJson xs) =
      some xs :=
  rereadList_of fun x _ => SecurityRequirement.ofJson?_toJson x

theorem rereadOption_schema {x : Option Schema} (h : ∀ s ∈ x, s.Rereads) :
    rereadOption Schema.ofJson? (x.map Schema.toJson) = some x :=
  rereadOption_of rfl h

theorem MediaType.ofJson?_toJson {x : MediaType} (h : x.Whole) :
    ofJson? x.toJson.canonical = some x.settled := by
  simp [ofJson?, toJson, canonical_obj, rereadOption_schema h.schema, h.samples.reread,
    map_canonical_of_ordered h.sample, settled]

theorem Content.reread {x : Content} (h : Content.Whole x) :
    rereadTable MediaType.ofJson? (tableMember? MediaType.toJson x) =
      some (x.map MediaType.settled) :=
  rereadTable_tableMember _ fun e he => MediaType.ofJson?_toJson (h e he)

theorem RequestBody.ofJson?_toJson {x : RequestBody} (h : Content.Whole x.content) :
    ofJson? x.toJson.canonical = some x.settled := by
  have hcontent := @rereadTable_writeDict _ _ _ _ x.content fun e he =>
    MediaType.ofJson?_toJson (h e he)
  simp [ofJson?, toJson, canonical_obj, hcontent, settled]

theorem Parameter.ofJson?_toJson {x : Parameter} (h : x.Whole) :
    ofJson? x.toJson.canonical = some x.settled := by
  simp [ofJson?, toJson, canonical_obj, rereadOption_schema h.schema,
    map_canonical_of_ordered h.sample, Content.reread h.content, settled]

theorem Response.ofJson?_toJson {x : Response} (h : x.Whole) :
    ofJson? x.toJson.canonical = some x.settled := by
  simp [ofJson?, toJson, canonical_obj, h.headers.reread, h.links.reread,
    Content.reread h.content, settled]

/-! ## Objects or pointers -/

theorem RequestBody.pointerOf?_toJson (x : RequestBody) :
    Referable.pointerOf? x.toJson.canonical = none := by
  rw [toJson, canonical_obj, Referable.pointerOf?_obj_written]
  simp

theorem Parameter.pointerOf?_toJson (x : Parameter) :
    Referable.pointerOf? x.toJson.canonical = none := by
  rw [toJson, canonical_obj, Referable.pointerOf?_obj_written]
  simp

theorem Response.pointerOf?_toJson (x : Response) :
    Referable.pointerOf? x.toJson.canonical = none := by
  rw [toJson, canonical_obj, Referable.pointerOf?_obj_written]
  simp

theorem SecurityScheme.pointerOf?_toJson (x : SecurityScheme) :
    Referable.pointerOf? x.toJson.canonical = none := by
  rw [toJson, canonical_obj, Referable.pointerOf?_obj_written]
  simp

theorem Parameter.referable_reread {p : Referable Parameter} (h : p.Holds Whole) :
    referable? (p.toJson toJson).canonical = some (p.map settled) :=
  Referable.ofJson?_toJson pointerOf?_toJson (h.imp fun _ => ofJson?_toJson)

theorem RequestBody.referable_reread {b : Referable RequestBody}
    (h : b.Holds fun body => Content.Whole body.content) :
    Referable.ofJson? ofJson? (b.toJson toJson).canonical = some (b.map settled) :=
  Referable.ofJson?_toJson pointerOf?_toJson (h.imp fun _ => ofJson?_toJson)

theorem Response.referable_reread {r : Referable Response} (h : r.Holds Whole) :
    Referable.ofJson? ofJson? (r.toJson toJson).canonical = some (r.map settled) :=
  Referable.ofJson?_toJson pointerOf?_toJson (h.imp fun _ => ofJson?_toJson)

/-! ## Operations and paths -/

theorem Operation.ofJson?_toJson {x : Operation} (h : x.Whole) :
    ofJson? x.toJson.canonical = some x.settled := by
  have hparameters := rereadList_listMember _ fun p hp =>
    Parameter.referable_reread (h.parameters p hp)
  have hbody := @rereadOption_map _ _ _ _ x.requestBody rfl fun b hb =>
    RequestBody.referable_reread (h.requestBody b hb)
  have hresponses := rereadTable_writeDict _ fun e he =>
    Response.referable_reread (h.responses e he)
  have hservers := rereadList_of fun s hs => Server.ofJson?_toJson (h.servers s hs)
  simp [ofJson?, toJson, canonical_obj, hparameters, hbody, hresponses, hservers,
    rereadOption_externalDocs, rereadList_security, settled]

theorem rereadOption_operation {x : Option Operation} (h : ∀ op ∈ x, op.Whole) :
    rereadOption Operation.ofJson? (x.map Operation.toJson) = some (x.map Operation.settled) :=
  rereadOption_map _ rfl fun op hop => Operation.ofJson?_toJson (h op hop)

theorem PathItem.ofJson?_toJson {x : PathItem} (h : x.Whole) :
    ofJson? x.toJson.canonical = some x.settled := by
  have hget : rereadOption _ (x.get.map _) = _ := rereadOption_operation (h.operations .get)
  have hput : rereadOption _ (x.put.map _) = _ := rereadOption_operation (h.operations .put)
  have hpost : rereadOption _ (x.post.map _) = _ := rereadOption_operation (h.operations .post)
  have hdelete : rereadOption _ (x.delete.map _) = _ :=
    rereadOption_operation (h.operations .delete)
  have hoptions : rereadOption _ (x.options.map _) = _ :=
    rereadOption_operation (h.operations .options)
  have hhead : rereadOption _ (x.head.map _) = _ := rereadOption_operation (h.operations .head)
  have hpatch : rereadOption _ (x.patch.map _) = _ :=
    rereadOption_operation (h.operations .patch)
  have htrace : rereadOption _ (x.trace.map _) = _ :=
    rereadOption_operation (h.operations .trace)
  have hparameters := rereadList_listMember _ fun p hp =>
    Parameter.referable_reread (h.parameters p hp)
  have hservers := rereadList_of fun s hs => Server.ofJson?_toJson (h.servers s hs)
  simp [ofJson?, toJson, canonical_obj, hget, hput, hpost, hdelete, hoptions, hhead, hpatch,
    htrace, hparameters, hservers, settled]

/-! ## Security schemes -/

theorem OAuthFlow.ofJson?_toJson (x : OAuthFlow) : ofJson? x.toJson.canonical = some x := by
  have hscopes := @rereadTable_writeDict _ Json.text? Json.str id x.scopes fun _ _ => rfl
  simp [ofJson?, toJson, canonical_obj, hscopes]

theorem rereadOption_flow (x : Option OAuthFlow) :
    rereadOption OAuthFlow.ofJson? (x.map OAuthFlow.toJson) = some x :=
  rereadOption_of rfl fun y _ => y.ofJson?_toJson

theorem OAuthFlows.ofJson?_toJson (x : OAuthFlows) : ofJson? x.toJson.canonical = some x := by
  simp [ofJson?, toJson, canonical_obj, rereadOption_flow]

theorem SecurityScheme.ofJson?_toJson (x : SecurityScheme) :
    ofJson? x.toJson.canonical = some x := by
  have hflows := @rereadOption_of _ _ _ x.flows rfl fun y _ => y.ofJson?_toJson
  simp [ofJson?, toJson, canonical_obj, hflows]

/-! ## Components and documents -/

/-- The unknown members of what was written are the ones that were written as such. -/
theorem unknown_written {layout : Layout} {named : List (String × Json)} {extra : Dict Json}
    (hnamed : ∀ name, Entries.get? name layout = none → Entries.last? name named = none)
    (hunnamed : ∀ e ∈ extra.entries, Entries.get? e.1 layout = none)
    (ho : OrderedTable extra) : unknown layout (written (named ++ extra.entries)) = extra := by
  refine Dict.ext_get? fun name => ?_
  unfold unknown
  show Entries.get? name (Entries.sort _) = _
  rw [Entries.sort_of_sorted (Entries.sorted_filter _ (sorted_written _)),
    Entries.get?_filter fun key => (Entries.get? key layout).isNone]
  have hvalue : (extra.get? name).map Json.canonical = extra.get? name :=
    map_canonical_of_ordered fun v hv => ho (name, v) ((Dict.mem_entries extra).2 hv)
  cases hname : Entries.get? name layout with
  | none =>
    rw [get?_written, Entries.last?_append, hnamed name hname, Option.or_none,
      Entries.last?_of_sorted extra.sorted]
    exact hvalue
  | some required =>
    show none = extra.get? name
    refine (Option.eq_none_iff_forall_not_mem.2 fun v hv => ?_).symm
    rw [hunnamed (name, v) ((Dict.mem_entries extra).2 hv)] at hname
    cases hname

/-- No member among the unknown ones has a name of the layout. -/
theorem last?_of_unnamed {layout : Layout} {extra : Dict Json}
    (hunnamed : ∀ e ∈ extra.entries, Entries.get? e.1 layout = none) {name : String}
    (hname : (Entries.get? name layout).isSome) : Entries.last? name extra.entries = none := by
  refine Entries.last?_eq_none fun e he heq => ?_
  rw [← heq, hunnamed e he] at hname
  cases hname

/-- The members of components that have a field of their own. -/
def Components.named (x : Components) : List (String × Json) :=
  putDict "schemas" Schema.toJson x.schemas
    ++ putDict "responses" (Referable.toJson Response.toJson) x.responses
    ++ putDict "parameters" (Referable.toJson Parameter.toJson) x.parameters
    ++ putDict "requestBodies" (Referable.toJson RequestBody.toJson) x.requestBodies
    ++ putDict "securitySchemes" (Referable.toJson SecurityScheme.toJson) x.securitySchemes

theorem Components.toJson_eq (x : Components) : x.toJson = .obj (x.named ++ x.extra.entries) := rfl

theorem Components.last?_named (x : Components) {name : String}
    (h : Entries.get? name layout = none) : Entries.last? name x.named = none := by
  have hne := Entries.get?_eq_none_iff.1 h
  simp only [layout, List.forall_mem_cons] at hne
  simp [named, hne]

theorem SecurityScheme.referable_reread (r : Referable SecurityScheme) :
    Referable.ofJson? ofJson? (r.toJson toJson).canonical = some r := by
  have hr : r.Holds fun scheme => ofJson? scheme.toJson.canonical = some (id scheme) := by
    cases r with
    | ref pointer => trivial
    | item scheme => exact scheme.ofJson?_toJson
  rw [Referable.ofJson?_toJson pointerOf?_toJson hr]
  cases r <;> rfl

theorem Components.ofJson?_toJson {x : Components} (h : x.Whole) :
    ofJson? x.toJson.canonical = some x.settled := by
  have hschemas := @rereadTable_of _ _ Schema.toJson x.schemas h.schemas
  have hresponses := @rereadTable_tableMember _ _ _ _ x.responses fun e he =>
    Response.referable_reread (h.responses e he)
  have hparameters := @rereadTable_tableMember _ _ _ _ x.parameters fun e he =>
    Parameter.referable_reread (h.parameters e he)
  have hbodies := @rereadTable_tableMember _ _ _ _ x.requestBodies fun e he =>
    RequestBody.referable_reread (h.requestBodies e he)
  have hschemes := @rereadTable_of _ _ _ x.securitySchemes fun e _ =>
    SecurityScheme.referable_reread e.2
  have hunknown := unknown_written (fun _ => x.last?_named) h.unnamed h.ordered
  have hextra : ∀ name, (Entries.get? name layout).isSome →
      Entries.last? name x.extra.entries = none := fun _ => last?_of_unnamed h.unnamed
  simp only [toJson_eq, canonical_obj, ofJson?, Json.members?, Option.bind_eq_bind,
    Option.bind_some, hunknown]
  simp [named, hextra "schemas" rfl, hextra "responses" rfl, hextra "parameters" rfl,
    hextra "requestBodies" rfl, hextra "securitySchemes" rfl, hschemas, hresponses, hparameters,
    hbodies, hschemes, settled]

/-- The members of a document that have a field of their own. -/
def Document.named (x : Document) : List (String × Json) :=
  put "openapi" (.str x.openapi) ++ put "info" x.info.toJson
    ++ putList "servers" Server.toJson x.servers
    ++ putDict "paths" PathItem.toJson x.paths
    ++ putOption "components" Components.toJson x.components
    ++ putList "security" SecurityRequirement.toJson x.security
    ++ putList "tags" Tag.toJson x.tags
    ++ putOption "externalDocs" ExternalDocs.toJson x.externalDocs

theorem Document.toJson_eq (x : Document) : x.toJson = .obj (x.named ++ x.extensions.entries) :=
  rfl

theorem Document.last?_named (x : Document) {name : String}
    (h : Entries.get? name layout = none) : Entries.last? name x.named = none := by
  have hne := Entries.get?_eq_none_iff.1 h
  simp only [layout, List.forall_mem_cons] at hne
  simp [named, hne]

theorem filterMapValues_reread {entries : List (String × PathItem)}
    (h : ∀ e ∈ entries, isExtensionKey e.1 = false ∧ e.2.Whole) :
    Entries.filterMapValues
      (fun key v => if isExtensionKey key then none else PathItem.ofJson? v)
      (Entries.mapValues (fun x => x.toJson.canonical) entries) =
      Entries.mapValues PathItem.settled entries := by
  induction entries with
  | nil => rfl
  | cons e rest ih =>
    obtain ⟨key, x⟩ := e
    obtain ⟨hkey, hx⟩ := h (key, x) List.mem_cons_self
    have hread : (if isExtensionKey key then none else PathItem.ofJson? x.toJson.canonical) =
        some x.settled := by
      rw [if_neg (by rw [hkey]; decide), PathItem.ofJson?_toJson hx]
    have hrest := ih fun e he => h e (List.mem_cons_of_mem _ he)
    unfold Entries.mapValues at hrest ⊢
    rw [List.map_cons, List.map_cons, Entries.filterMapValues]
    simp only [hread, hrest]

/-- Paths are read again, none of them being taken for an extension. -/
theorem readPaths?_writeDict {paths : Dict PathItem}
    (h : ∀ e ∈ paths.entries, isExtensionKey e.1 = false ∧ e.2.Whole) :
    readPaths? PathItem.ofJson? (writeDict PathItem.toJson paths).canonical =
      some (paths.map PathItem.settled) := by
  show some ((Dict.ofList (Entries.sort (Json.canonicalMembers
    (Entries.mapValues PathItem.toJson paths.entries)))).filterMap _) = _
  refine congrArg some (Dict.ext ?_)
  show Entries.filterMapValues _ (Entries.sort (Entries.sort _)) = _
  rw [Json.canonicalMembers_eq]
  have hmap : Entries.mapValues Json.canonical (Entries.mapValues PathItem.toJson paths.entries) =
      Entries.mapValues (fun x => x.toJson.canonical) paths.entries := List.map_map
  have hsorted := Entries.sorted_mapValues (fun x => (PathItem.toJson x).canonical) paths.sorted
  rw [hmap, Entries.sort_of_sorted hsorted, Entries.sort_of_sorted hsorted]
  exact filterMapValues_reread h

theorem rereadDefault_paths {paths : Dict PathItem}
    (h : ∀ e ∈ paths.entries, isExtensionKey e.1 = false ∧ e.2.Whole) :
    rereadDefault ∅ (readPaths? PathItem.ofJson?) (tableMember? PathItem.toJson paths) =
      some (paths.map PathItem.settled) := by
  unfold tableMember?
  split
  · rename_i hempty
    rw [map_of_isEmpty PathItem.settled hempty]
    rfl
  · exact readPaths?_writeDict h

/-- A document that holds nothing but ordered values is read again from what it writes, up to
nulls for illustration. -/
theorem Document.ofJson?_toJson {x : Document} (h : x.Whole) :
    ofJson? x.toJson.canonical = some x.settled := by
  have hservers := @rereadList_of _ _ _ x.servers fun s hs => Server.ofJson?_toJson (h.servers s hs)
  have hcomponents := @rereadOption_map _ _ _ _ x.components rfl fun c hc =>
    Components.ofJson?_toJson (h.components c hc)
  have htags := @rereadList_of _ _ _ x.tags fun t _ => t.ofJson?_toJson
  have hunknown := unknown_written (fun _ => x.last?_named) h.unnamed h.ordered
  have hextra : ∀ name, (Entries.get? name layout).isSome →
      Entries.last? name x.extensions.entries = none := fun _ => last?_of_unnamed h.unnamed
  simp only [toJson_eq, canonical_obj, ofJson?, Json.members?, Option.bind_eq_bind,
    Option.bind_some, hunknown]
  simp [named, hextra "openapi" rfl, hextra "info" rfl, hextra "servers" rfl,
    hextra "paths" rfl, hextra "components" rfl, hextra "security" rfl, hextra "tags" rfl,
    hextra "externalDocs" rfl, hservers, hcomponents, htags, rereadList_security,
    rereadOption_externalDocs, rereadDefault_paths h.paths, Info.ofJson?_toJson, settled]

end ApiFolio.OpenApi

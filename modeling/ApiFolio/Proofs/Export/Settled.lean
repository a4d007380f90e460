import ApiFolio.Proofs.Export.Mapping
import ApiFolio.Proofs.OpenApi.RoundTrip

/-!
# Exports of settled documents

Nulls for illustration reach an export only as examples of parameters. So the export of the settled
form of a document is its export without these (`convert_settled`).
-/

namespace ApiFolio.Export

open OpenApi Record

/-! ## Exports without null examples -/

/-- A parameter without a null for an example. -/
def ParameterItem.settled (x : ParameterItem) : ParameterItem :=
  { x with sample := settledValue x.sample }

/-- Parameters without nulls for examples. -/
def ParameterBuckets.settled (x : ParameterBuckets) : ParameterBuckets where
  path := x.path.map ParameterItem.settled
  query := x.query.map ParameterItem.settled
  header := x.header.map ParameterItem.settled
  cookie := x.cookie.map ParameterItem.settled

/-- An operation without nulls for examples of its parameters. -/
def ApiItem.settled (x : ApiItem) : ApiItem := { x with parameters := x.parameters.settled }

/-- An export without nulls for examples of parameters. -/
def Result.settled (x : Result) : Result :=
  { x with httpCollections := x.httpCollections.map (Collection.mapItems ApiItem.settled) }

/-! ## Converting -/

theorem firstType_settled (content : Content) :
    Content.firstType (content.map MediaType.settled) = content.firstType := by
  obtain ⟨entries, hs⟩ := content
  cases entries <;> rfl

theorem firstSchema?_settled (content : Content) :
    Content.firstSchema? (content.map MediaType.settled) = content.firstSchema? := by
  obtain ⟨entries, hs⟩ := content
  cases entries <;> rfl

theorem isEmpty_map {α : Type} (f : α → α) (table : Dict α) :
    (table.map f).isEmpty = table.isEmpty := by
  obtain ⟨entries, hs⟩ := table
  cases entries <;> rfl

theorem item?_map {α : Type} (f : α → α) (r : Referable α) :
    (r.map f).item? = r.item?.map f := by
  cases r <;> rfl

theorem lookUp?_map {α : Type} (f : α → α) (area : String) (table : Dict (Referable α))
    (pointer : String) :
    Components.lookUp? area (table.map (Referable.map f)) pointer =
      (Components.lookUp? area table pointer).map f := by
  unfold Components.lookUp?
  cases Pointer.name? pointer area with
  | none => rfl
  | some name =>
    simp only [Option.bind_eq_bind, Option.bind_some, Dict.get?_map]
    cases table.get? name with
    | none => rfl
    | some r => exact item?_map f r

namespace Surroundings

/-- Surroundings without nulls for illustration. -/
def settled (around : Surroundings) : Surroundings :=
  { around with components := around.components.map Components.settled }

variable (around : Surroundings)

theorem parameter?_settled (p : Referable Parameter) :
    around.settled.parameter? (p.map Parameter.settled) =
      (around.parameter? p).map Parameter.settled := by
  cases p with
  | item p => rfl
  | ref pointer =>
    unfold parameter? settled
    cases around.components with
    | none => rfl
    | some c => exact lookUp?_map Parameter.settled "parameters" c.parameters pointer

theorem mergeParameter_settled (ps : List Parameter) (p : Parameter) :
    mergeParameter (ps.map Parameter.settled) p.settled =
      (mergeParameter ps p).map Parameter.settled := by
  induction ps with
  | nil => rfl
  | cons q rest ih =>
    have hname : ∀ x : Parameter, x.settled.name = x.name := fun _ => rfl
    have hlocation : ∀ x : Parameter, x.settled.location = x.location := fun _ => rfl
    rw [List.map_cons, mergeParameter, mergeParameter, hname, hname, hlocation, hlocation, ih]
    split <;> rfl

theorem merged_settled (item : PathItem) (op : Operation) :
    around.settled.merged item.settled op.settled =
      (around.merged item op).map Parameter.settled := by
  have hps : (item.settled.parameters ++ op.settled.parameters).filterMap
      around.settled.parameter? =
      ((item.parameters ++ op.parameters).filterMap around.parameter?).map Parameter.settled := by
    show (item.parameters.map (Referable.map Parameter.settled) ++
      op.parameters.map (Referable.map Parameter.settled)).filterMap _ = _
    rw [← List.map_append, List.filterMap_map, List.map_filterMap]
    exact List.filterMap_congr fun p _ => around.parameter?_settled p
  unfold merged
  rw [hps]
  generalize (item.parameters ++ op.parameters).filterMap around.parameter? = ps
  suffices hfold : ∀ start : List Parameter,
      (ps.map Parameter.settled).foldl mergeParameter (start.map Parameter.settled) =
        (ps.foldl mergeParameter start).map Parameter.settled from hfold []
  induction ps with
  | nil => exact fun start => rfl
  | cons p rest ih =>
    intro start
    rw [List.map_cons, List.foldl_cons, List.foldl_cons, mergeParameter_settled, ih]

theorem parameterItem_settled (p : Parameter) :
    parameterItem p.settled = (parameterItem p).settled := by
  have hschema : (p.settled.schema <|> p.settled.content.firstSchema?) =
      (p.schema <|> p.content.firstSchema?) := by
    show (p.schema <|> Content.firstSchema? (p.content.map MediaType.settled)) = _
    rw [firstSchema?_settled]
  unfold parameterItem
  rw [hschema]
  rfl

theorem bucket_settled (location : String) (ps : List Parameter) :
    bucket location (ps.map Parameter.settled) =
      (bucket location ps).map ParameterItem.settled := by
  unfold bucket
  rw [List.filter_map, List.map_map, List.map_map]
  exact List.map_congr_left fun p _ => parameterItem_settled p

theorem parameters_settled (item : PathItem) (op : Operation) :
    around.settled.parameters item.settled op.settled = (around.parameters item op).settled := by
  unfold parameters
  rw [merged_settled]
  simp only [bucket_settled]
  rfl

theorem responseItem_settled (path method status : String) (r : Referable Response) :
    around.settled.responseItem path method status (r.map Response.settled) =
      around.responseItem path method status r := by
  cases r with
  | item r =>
    show ResponseItem.mk _ _ _ (Content.firstType (r.content.map MediaType.settled)) _
      (Content.firstSchema? (r.content.map MediaType.settled)) = _
    rw [firstType_settled, firstSchema?_settled]
    rfl
  | ref pointer =>
    have htarget : (around.settled.components.bind fun c => c.response? pointer) =
        (around.components.bind fun c => c.response? pointer).map Response.settled := by
      unfold settled
      cases around.components with
      | none => rfl
      | some c => exact lookUp?_map Response.settled "responses" c.responses pointer
    show responseItem _ _ _ _ (.ref pointer) = _
    simp only [responseItem, htarget]
    cases around.components.bind fun c => c.response? pointer with
    | none => rfl
    | some r =>
      simp only [Option.map_some, Option.bind_some]
      rw [show r.settled.content = r.content.map MediaType.settled from rfl, firstType_settled]
      rfl

theorem bodyAt?_settled (target : String) :
    around.settled.bodyAt? target = (around.bodyAt? target).map RequestBody.settled := by
  unfold bodyAt? settled
  cases around.components with
  | none => rfl
  | some c => exact lookUp?_map RequestBody.settled "requestBodies" c.requestBodies target

theorem requestBody?_settled (r : Referable RequestBody) :
    around.settled.requestBody? (r.map RequestBody.settled) = around.requestBody? r := by
  cases r with
  | item body =>
    show some (RequestBodyItem.mk _ (Content.firstType (body.content.map MediaType.settled)) _
      (Content.firstSchema? (body.content.map MediaType.settled))) = _
    rw [firstType_settled, firstSchema?_settled]
    rfl
  | ref pointer =>
    show requestBody? _ (.ref pointer) = _
    unfold requestBody?
    refine congrArg (fun f => Option.map f (around.ends.target? pointer)) (funext fun target => ?_)
    rw [bodyAt?_settled]
    cases around.bodyAt? target with
    | none => rfl
    | some body =>
      simp only [Option.map_some, Option.bind_some]
      rw [show body.settled.content = body.content.map MediaType.settled from rfl,
        firstType_settled]
      rfl

theorem apiItem_settled (path method : String) (item : PathItem) (op : Operation)
    (webhook : Bool) :
    around.settled.apiItem path method item.settled op.settled webhook =
      (around.apiItem path method item op webhook).settled := by
  have hresponses : op.settled.responses.entries.map
      (fun e => around.settled.responseItem path method e.1 e.2) =
      op.responses.entries.map fun e => around.responseItem path method e.1 e.2 := by
    show (Entries.mapValues _ op.responses.entries).map _ = _
    unfold Entries.mapValues
    rw [List.map_map]
    exact List.map_congr_left fun e _ => around.responseItem_settled path method e.1 e.2
  have hbody : op.settled.requestBody.bind around.settled.requestBody? =
      op.requestBody.bind around.requestBody? := by
    show (op.requestBody.map _).bind _ = _
    cases op.requestBody with
    | none => rfl
    | some r => exact around.requestBody?_settled r
  unfold apiItem
  rw [parameters_settled, hresponses, hbody]
  rfl

theorem apiItems_settled (path : String) (item : PathItem) (webhook : Bool) :
    around.settled.apiItems path item.settled webhook =
      (around.apiItems path item webhook).map ApiItem.settled := by
  have hoperations : item.settled.operations =
      item.operations.map fun vo => (vo.1, vo.2.settled) := by
    unfold PathItem.operations
    rw [List.map_filterMap]
    refine List.filterMap_congr fun verb _ => ?_
    have hop : item.settled.operation? verb = (item.operation? verb).map Operation.settled := by
      cases verb <;> rfl
    rw [hop]
    cases item.operation? verb <;> rfl
  unfold apiItems
  rw [hoperations, List.map_map, List.map_map]
  exact List.map_congr_left fun vo _ => around.apiItem_settled path vo.1.name item vo.2 webhook

end Surroundings

theorem bodyAliasesOf_settled (components : Option Components) :
    bodyAliasesOf (components.map Components.settled) = bodyAliasesOf components := by
  cases components with
  | none => rfl
  | some c =>
    show (c.requestBodies.entries.map _).foldl _ _ = c.requestBodies.entries.foldl _ _
    rw [List.foldl_map]
    congr 1
    funext aliases e
    cases e.2 <;> rfl

theorem surroundings_settled (doc : Document) :
    surroundings doc.settled = (surroundings doc).settled := by
  show Surroundings.mk _ (bodyAliasesOf (doc.components.map Components.settled)).resolve = _
  rw [bodyAliasesOf_settled]
  rfl

/-- A webhook is read from a value with a property if the extensions have it. -/
theorem exists_of_mem_webhooks {V : Json → Prop} [Json.Hereditary V] {doc : Document}
    (h : ∀ e ∈ doc.extensions.entries, V e.2) {e : String × PathItem}
    (he : e ∈ (webhooks doc).entries) : ∃ v, V v ∧ PathItem.ofJson? v = some e.2 := by
  rw [entries_webhooks] at he
  obtain ⟨v, hv, hread⟩ := Entries.exists_mem_of_mem_filterMapValues he
  refine ⟨v, ?_, hread⟩
  unfold webhookEntries at hv
  split at hv
  · rename_i members hmembers
    have hmem : ∃ name, doc.extensions.get? name = some (.obj members) := by
      rcases Option.or_eq_some_iff.1 hmembers with h | ⟨-, h⟩
      · exact ⟨_, h⟩
      · exact ⟨_, h⟩
    obtain ⟨name, hname⟩ := hmem
    have hobj : V (.obj members) := h _ ((Dict.mem_entries _).2 hname)
    exact Json.Hereditary.members hobj _ (Dict.mem_of_mem_ofList hv)
  · cases hv

/-- Webhooks are read when the document is converted, so they are settled already. -/
theorem webhooks_settled {doc : Document} (ho : OrderedTable doc.extensions) :
    ∀ e ∈ (webhooks doc).entries, e.2.settled = e.2 := by
  intro e he
  obtain ⟨v, hv, hread⟩ := exists_of_mem_webhooks ho he
  exact PathItem.settled_of_ofJson? v e.2 hv hread

theorem documentItems_settled {doc : Document} (ho : OrderedTable doc.extensions) :
    documentItems doc.settled = (documentItems doc).map ApiItem.settled := by
  have hpaths : doc.settled.paths.entries.flatMap
      (fun e => (surroundings doc).settled.apiItems e.1 e.2 false) =
      doc.paths.entries.flatMap fun e =>
        ((surroundings doc).apiItems e.1 e.2 false).map ApiItem.settled := by
    show (Entries.mapValues PathItem.settled doc.paths.entries).flatMap _ = _
    unfold Entries.mapValues
    rw [List.flatMap_map]
    exact List.flatMap_congr fun e _ => Surroundings.apiItems_settled _ e.1 e.2 false
  have hwebhooks : (webhooks doc).entries.flatMap
      (fun e => (surroundings doc).settled.apiItems e.1 e.2 true) =
      (webhooks doc).entries.flatMap fun e =>
        ((surroundings doc).apiItems e.1 e.2 true).map ApiItem.settled := by
    refine List.flatMap_congr fun e he => ?_
    rw [← Surroundings.apiItems_settled, webhooks_settled ho e he]
  unfold documentItems
  rw [surroundings_settled, hpaths, show webhooks doc.settled = webhooks doc from rfl, hwebhooks,
    List.map_append, List.map_flatMap, List.map_flatMap]

theorem folder?_map {α : Type} {f : α → α} {item? : String → α → Option SchemaItem}
    (h : ∀ name x, item? name (f x) = item? name x) (name : String) (table : Dict α) :
    folder? name item? (table.map f) = folder? name item? table := by
  have hitems : (table.map f).entries.filterMap (fun e => item? e.1 e.2) =
      table.entries.filterMap fun e => item? e.1 e.2 := by
    show (table.entries.map _).filterMap _ = _
    rw [List.filterMap_map]
    exact List.filterMap_congr fun e _ => h e.1 e.2
  unfold folder?
  rw [hitems]

theorem responseItem?_settled (name : String) (r : Referable Response) :
    responseItem? name (r.map Response.settled) = responseItem? name r := by
  cases r with
  | ref pointer => rfl
  | item r =>
    show (if r.description.isEmpty && (r.content.map MediaType.settled).isEmpty then none
      else some (SchemaItem.mk _ _ _ (Content.firstSchema? (r.content.map MediaType.settled)))) = _
    rw [firstSchema?_settled, isEmpty_map]
    rfl

theorem requestBodyItem?_settled (ends : AliasEnds) (name : String) (r : Referable RequestBody) :
    requestBodyItem? ends name (r.map RequestBody.settled) = requestBodyItem? ends name r := by
  cases r with
  | ref pointer => rfl
  | item body =>
    show (if (body.description.getD "").isEmpty && (body.content.map MediaType.settled).isEmpty
      then none
      else some (SchemaItem.mk _ _ _
        (Content.firstSchema? (body.content.map MediaType.settled)))) = _
    rw [firstSchema?_settled, isEmpty_map]
    rfl

theorem schemaFoldersOf_settled (components : Option Components) (ends : AliasEnds) :
    schemaFoldersOf (components.map Components.settled) ends =
      schemaFoldersOf components ends := by
  cases components with
  | none => rfl
  | some c =>
    show folder? _ _ c.schemas ++ folder? _ _ (c.responses.map _) ++
      folder? _ _ (c.requestBodies.map _) = _
    rw [folder?_map responseItem?_settled, folder?_map (requestBodyItem?_settled ends)]
    rfl

theorem securityCollection_settled (doc : Document) :
    securityCollection doc.settled = securityCollection doc := by
  have hcomponents : doc.settled.components = doc.components.map Components.settled := rfl
  unfold securityCollection
  rw [hcomponents]
  cases doc.components <;> rfl

/-- The export of the settled form of a document is its export without null examples of
parameters. -/
theorem convert_settled {doc : Document} (ho : OrderedTable doc.extensions) (version : String) :
    convert doc.settled version = (convert doc version).settled := by
  have hcollection : collection doc.settled = (collection doc).mapItems ApiItem.settled :=
    collection_of_documentItems (f := ApiItem.settled) (fun _ => rfl) (fun _ => rfl) (fun _ => rfl)
      (documentItems_settled ho)
  have hschemas : schemaFoldersOf doc.settled.components (surroundings doc.settled).ends =
      schemaFoldersOf doc.components (surroundings doc).ends := by
    rw [surroundings_settled]
    exact schemaFoldersOf_settled doc.components _
  unfold convert
  rw [hcollection, hschemas, securityCollection_settled]
  rfl

end ApiFolio.Export

import ApiFolio.Proofs.Export.Copied

/-!
# Media types of shared bodies and responses

A shared body or response is upgraded once, under the media types of the document; a copy of it is
upgraded with its operation, under the media types of the operation. The export gives the smallest
of these, so a pointer and a copy may come out under different media types, and in nothing else
than these two (`requestBody?_copied`, `responseItem_copied`).
-/

namespace ApiFolio

/-! ## The smallest media type -/

/-- The smallest of several media types, in the order of their characters; none has the empty
name. -/
def smallestType : List String → String
  | [] => ""
  | t :: rest => rest.foldl (fun a b => if b < a then b else a) t

namespace Entries

universe u

variable {α : Type u}

theorem insert_cons_eq (key : String) (value : α) (k : String) (x : α)
    (rest : List (String × α)) :
    ∃ y rest', insert key value ((k, x) :: rest) = (if key < k then key else k, y) :: rest' := by
  unfold insert
  split
  · exact ⟨_, _, rfl⟩
  · split
    · rename_i heq
      subst heq
      exact ⟨_, _, rfl⟩
    · exact ⟨_, _, rfl⟩

theorem foldl_insert_cons_eq (more : List (String × α)) (k : String) (x : α)
    (rest : List (String × α)) :
    ∃ y rest', more.foldl (fun table e => insert e.1 e.2 table) ((k, x) :: rest) =
      ((more.map (·.1)).foldl (fun a b => if b < a then b else a) k, y) :: rest' := by
  induction more generalizing k x rest with
  | nil => exact ⟨x, rest, rfl⟩
  | cons e more ih =>
    obtain ⟨y, rest', heq⟩ := insert_cons_eq e.1 e.2 k x rest
    rw [List.foldl_cons, heq, List.map_cons, List.foldl_cons]
    exact ih _ y rest'

end Entries

/-- Of several media types the export gives the smallest. -/
theorem firstType_ofList (types : List String) (f : String → OpenApi.MediaType) :
    OpenApi.Content.firstType (Dict.ofList (types.map fun t => (t, f t))) = smallestType types := by
  cases types with
  | nil => rfl
  | cons t rest =>
    obtain ⟨y, rest', heq⟩ :=
      Entries.foldl_insert_cons_eq (rest.map fun t => (t, f t)) t (f t) []
    have hentries : (Dict.ofList ((t :: rest).map fun t => (t, f t))).entries =
        (smallestType (t :: rest), y) :: rest' := by
      show (rest.map fun t => (t, f t)).foldl _ [(t, f t)] = _
      rw [heq, List.map_map]
      exact congrArg (fun l => (List.foldl _ t l, y) :: rest') (List.map_id rest)
    unfold OpenApi.Content.firstType
    rw [hentries]

namespace Swagger

theorem Parameter.firstType_upgradeBody {p : Parameter} {consumes : List String}
    {body : OpenApi.RequestBody} (h : p.upgradeBody consumes = .ok body) :
    body.content.firstType = smallestType consumes ∧ body.required = p.required := by
  unfold Parameter.upgradeBody at h
  split at h
  · cases h
  · cases h
    exact ⟨firstType_ofList consumes _, rfl⟩

theorem Response.firstType_upgrade (r : Response) (produces : List String) :
    (r.upgrade produces).content.firstType =
      if r.schema.isSome then smallestType produces else "" := by
  unfold Response.upgrade
  cases r.schema with
  | none => rfl
  | some schema => exact firstType_ofList produces _

namespace Document

open OpenApi (Referable RequestBody)
open Export (Surroundings surroundings ResponseItem RequestBodyItem)

variable {doc : Document} {components : OpenApi.Components}

/-! ## Looking up shared bodies and responses -/

/-- The upgraded components hold every shared body, under the media types of the document. -/
theorem requestBody?_components (hc : doc.components = .ok components) {pointer : String}
    {p : Parameter} (hnames : doc.NamesParameter pointer p) (hbody : p.location = "body") :
    ∃ body, components.requestBody? pointer = some body ∧
      p.upgradeBody (mediaTypes [] doc.consumes) = .ok body := by
  obtain ⟨bodies, schemes, hbodies, -, rfl⟩ := components_eq_ok_iff.1 hc
  obtain ⟨name, hname, hp⟩ := hnames
  rw [Parameter.area_of_body hbody] at hname
  have hshared : Entries.Sorted doc.bodyParameters := Entries.sorted_filter _ doc.parameters.sorted
  have hget : Entries.get? name doc.bodyParameters = some p :=
    Entries.get?_of_mem hshared
      (List.mem_filter.2 ⟨(Dict.mem_entries _).2 hp, by simpa using hbody⟩)
  obtain ⟨body, hbody, hbodyGet⟩ := get?_upgradeEntries hbodies hget
  refine ⟨body, OpenApi.Components.lookUp?_eq_some_iff.2 ⟨name, hname, ?_⟩, hbody⟩
  have hsorted := Entries.sorted_mapValues (Referable.item : RequestBody → Referable RequestBody)
    (hshared.of_keys (keys_upgradeEntries hbodies))
  show Entries.get? name (Entries.sort _) = _
  rw [Entries.sort_of_sorted hsorted, Entries.get?_mapValues, hbodyGet]
  rfl

/-- The upgraded components hold every shared response, under the media types of the document. -/
theorem response?_components (hc : doc.components = .ok components) {pointer : String}
    {r : Response} (hnames : doc.NamesResponse pointer r) :
    components.response? pointer = some (r.upgrade (mediaTypes [] doc.produces)) := by
  obtain ⟨bodies, schemes, -, -, rfl⟩ := components_eq_ok_iff.1 hc
  obtain ⟨name, hname, hr⟩ := hnames
  refine OpenApi.Components.lookUp?_eq_some_iff.2 ⟨name, hname, ?_⟩
  rw [Dict.get?_map, hr]
  rfl

/-- No shared body of an upgraded document is an alias. -/
theorem bodyAliases_components (hc : doc.components = .ok components) :
    Export.bodyAliases components = {} := by
  obtain ⟨bodies, schemes, -, -, rfl⟩ := components_eq_ok_iff.1 hc
  have hitem : ∀ e ∈ (Dict.ofList (Entries.mapValues Referable.item bodies)).entries,
      ∃ body : RequestBody, e.2 = .item body := by
    intro e he
    obtain ⟨b, -, rfl⟩ := List.mem_map.1 (Dict.mem_of_mem_ofList he)
    exact ⟨b.2, rfl⟩
  unfold Export.bodyAliases
  generalize (Dict.ofList (Entries.mapValues Referable.item bodies)).entries = entries at hitem
  show entries.foldl _ _ = _
  induction entries with
  | nil => rfl
  | cons e rest ih =>
    obtain ⟨body, hbody⟩ := hitem e List.mem_cons_self
    rw [List.foldl_cons, hbody]
    exact ih fun f hf => hitem f (List.mem_cons_of_mem _ hf)

/-- What upgrading gives leaves no chain of aliases to follow. -/
theorem target?_surroundings {out : OpenApi.Document} (hout : doc.upgrade = .ok out)
    (pointer : String) : (surroundings out).ends.target? pointer = some pointer := by
  obtain ⟨paths, components, -, hc, rfl⟩ := upgrade_eq_ok_iff.1 hout
  show (Export.bodyAliases components).resolve.target? pointer = some pointer
  rw [bodyAliases_components hc]
  rfl

/-! ## Exporting pointers and copies -/

/-- The same body, or bodies that are required alike, the first under the smallest of some media
types and the second under the smallest of others. -/
def BodyChanged (before after : List String) (x y : RequestBodyItem) : Prop :=
  x = y ∨ x.required = y.required ∧ x.contentType = smallestType before ∧
    y.contentType = smallestType after

/-- Responses under one status, both under the same media type, or the first under the smallest of
some media types and the second under the smallest of others. -/
def ResponseChanged (before after : List String) (r s : ResponseItem) : Prop :=
  r.name = s.name ∧ (r.contentType = s.contentType ∨
    r.contentType = smallestType before ∧ s.contentType = smallestType after)

variable {around : Surroundings} (hc : doc.components = .ok components)
variable (haround : around.components = some components)

include hc haround

theorem requestBody?_copied (hends : ∀ pointer, around.ends.target? pointer = some pointer)
    {K : Parameter → Prop} {consumes : List String} {a b : Option (Referable RequestBody)}
    (h : doc.CopiedBody K consumes a b) :
    Option.Rel (BodyChanged (mediaTypes [] doc.consumes) consumes)
      (a.bind around.requestBody?) (b.bind around.requestBody?) := by
  rcases h with rfl | ⟨pointer, p, body, rfl, rfl, hnames, hlocation, -, hbody⟩
  · cases a.bind around.requestBody? with
    | none => exact .none
    | some x => exact .some (.inl rfl)
  · obtain ⟨shared, hshared, hupgrade⟩ := requestBody?_components hc hnames hlocation
    have hat : around.bodyAt? pointer = some shared := by
      unfold Surroundings.bodyAt?
      rw [haround]
      exact hshared
    obtain ⟨htype, hrequired⟩ := Parameter.firstType_upgradeBody hupgrade
    obtain ⟨htype', hrequired'⟩ := Parameter.firstType_upgradeBody hbody
    show Option.Rel _ ((around.ends.target? pointer).map _) _
    rw [hends]
    refine .some (.inr ⟨?_, ?_, htype'⟩)
    · show ((around.bodyAt? pointer).bind (·.required)).getD false = body.required.getD false
      rw [hat, hrequired', ← hrequired]
      rfl
    · show ((around.bodyAt? pointer).map _).getD _ = _
      rw [hat]
      exact htype

theorem responseItem_copied {L : Response → Prop} {produces : List String}
    {a b : Referable OpenApi.Response} (h : doc.UpgradedResponse L produces a b)
    (path method status : String) :
    ResponseChanged (mediaTypes [] doc.produces) produces
      (around.responseItem path method status a) (around.responseItem path method status b) := by
  rcases h with rfl | ⟨pointer, r, rfl, rfl, hnames, -⟩
  · exact ⟨rfl, .inl rfl⟩
  · refine ⟨rfl, ?_⟩
    have hshared : (around.responseItem path method status (.ref pointer)).contentType =
        if r.schema.isSome then smallestType (mediaTypes [] doc.produces) else "" := by
      rw [← r.firstType_upgrade]
      show ((around.components.bind fun c => c.response? pointer).map _).getD _ = _
      rw [haround]
      show ((components.response? pointer).map _).getD _ = _
      rw [response?_components hc hnames]
      rfl
    have hcopy : (around.responseItem path method status (.item (r.upgrade produces))).contentType =
        if r.schema.isSome then smallestType produces else "" := r.firstType_upgrade produces
    rw [hshared, hcopy]
    split
    · exact .inr ⟨rfl, rfl⟩
    · exact .inl rfl

end Document

end Swagger

end ApiFolio

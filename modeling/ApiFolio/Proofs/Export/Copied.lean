import ApiFolio.Proofs.Export.Conservation
import ApiFolio.Proofs.Swagger.CopiedDocument

/-!
# Exports of documents with copies

The export follows the pointers that the upgrade keeps. So a pointer to a shared parameter and a
copy of it come out alike, and two documents that differ in nothing but such pointers have one
export (`convert_copied`).
-/

namespace ApiFolio.Swagger.Document

open OpenApi (Referable Verb)
open Export (Surroundings surroundings)

variable {doc : Document} {components : OpenApi.Components} {around : Surroundings}

/-! ## Looking up shared parts -/

/-- The upgraded components hold every shared parameter that stays one. -/
theorem parameter?_components (hc : doc.components = .ok components) {pointer : String}
    {p : Parameter} (hnames : doc.NamesParameter pointer p) (hbody : p.location ≠ "body")
    (hform : p.location ≠ "formData") : components.parameter? pointer = some p.upgrade := by
  obtain ⟨bodies, schemes, -, -, rfl⟩ := components_eq_ok_iff.1 hc
  obtain ⟨name, hname, hp⟩ := hnames
  rw [Parameter.area_of_ne_body hbody] at hname
  refine OpenApi.Components.lookUp?_eq_some_iff.2 ⟨name, hname, ?_⟩
  have hsorted : Entries.Sorted
      (Entries.mapValues (fun p => Referable.item p.upgrade) doc.plainSharedParameters) :=
    Entries.sorted_mapValues _ (Entries.sorted_filter _ doc.parameters.sorted)
  show Entries.get? name (Entries.sort _) = _
  rw [Entries.sort_of_sorted hsorted]
  refine Entries.get?_of_mem hsorted (List.mem_map.2 ⟨(name, p), ?_, rfl⟩)
  exact List.mem_filter.2 ⟨(Dict.mem_entries _).2 hp, by simp [hbody, hform]⟩

variable (hc : doc.components = .ok components) (haround : around.components = some components)

include hc haround

theorem parameter?_upgraded {a b : Referable OpenApi.Parameter} (h : doc.UpgradedParameter a b) :
    around.parameter? a = around.parameter? b := by
  rcases h with rfl | ⟨pointer, p, rfl, rfl, hnames, hbody, hform⟩
  · rfl
  · show around.components.bind _ = some p.upgrade
    rw [haround]
    exact parameter?_components hc hnames hbody hform

theorem parameters_upgraded {u v : OpenApi.PathItem} {x y : OpenApi.Operation}
    (hitem : List.Forall₂ doc.UpgradedParameter u.parameters v.parameters)
    (hop : List.Forall₂ doc.UpgradedParameter x.parameters y.parameters) :
    around.parameters u x = around.parameters v y := by
  have hfilterMap : (u.parameters ++ x.parameters).filterMap around.parameter? =
      (v.parameters ++ y.parameters).filterMap around.parameter? := by
    have hall : List.Forall₂ doc.UpgradedParameter (u.parameters ++ x.parameters)
        (v.parameters ++ y.parameters) := List.rel_append hitem hop
    generalize u.parameters ++ x.parameters = ps at hall
    generalize v.parameters ++ y.parameters = qs at hall
    induction hall with
    | nil => rfl
    | cons hab _ ih =>
      rw [List.filterMap_cons, List.filterMap_cons, parameter?_upgraded hc haround hab, ih]
  unfold Surroundings.parameters Surroundings.merged
  rw [hfilterMap]

variable {K : Parameter → Prop} (hK : ∀ p, K p → p.location ≠ "body")

include hK

/-- Without copies of bodies and responses, the upgrades of operations differ in parameters
alone. -/
theorem apiItem_upgraded {u v : OpenApi.PathItem} {op : Operation} {x y : OpenApi.Operation}
    (hitem : List.Forall₂ doc.UpgradedParameter u.parameters v.parameters)
    (hop : doc.UpgradedOperation K (fun _ => False) op x y) (path method : String)
    (webhook : Bool) :
    around.apiItem path method u x webhook = around.apiItem path method v y webhook := by
  have hparameters := parameters_upgraded hc haround hitem hop.parameters
  have hbody : x.requestBody = y.requestBody := by
    rcases hop.requestBody with heq | ⟨pointer, p, body, -, -, -, hlocation, hKp, -⟩
    · exact heq
    · exact absurd hlocation (hK p hKp)
  have hresponses : x.responses = y.responses := by
    refine Dict.ext (hop.responses.eq fun a b hab => ?_)
    rcases hab with heq | ⟨pointer, r, -, -, -, hfalse⟩
    · exact heq
    · exact hfalse.elim
  have hrest := hop.rest
  unfold Surroundings.apiItem
  rw [hparameters, hbody, hresponses]
  rw [hrest]
  rfl

theorem apiItems_upgraded {u v : OpenApi.PathItem} {item : PathItem}
    (h : doc.UpgradedPathItem K (fun _ => False) item u v) (path : String) (webhook : Bool) :
    around.apiItems path u webhook = around.apiItems path v webhook := by
  unfold Surroundings.apiItems OpenApi.PathItem.operations
  rw [List.map_filterMap, List.map_filterMap]
  refine List.filterMap_congr fun verb _ => ?_
  have hop := h.operations verb
  generalize u.operation? verb = x at hop
  generalize v.operation? verb = y at hop
  cases hop with
  | none => rfl
  | some hop =>
    obtain ⟨op, -, hop⟩ := hop
    exact congrArg some (apiItem_upgraded hc haround hK h.parameters hop path verb.name webhook)

omit hc haround

/-- A document with copies of shared parameters in the place of pointers to them has the same
export. -/
theorem convert_copied {doc' : Document} (h : doc.CopiedDocument K (fun _ => False) doc')
    {out out' : OpenApi.Document} (hout : doc.upgrade = .ok out) (hout' : doc'.upgrade = .ok out')
    (version : String) : Export.convert out' version = Export.convert out version := by
  obtain ⟨upgraded, hupgraded', hrest, hpaths⟩ := upgrade_copied h hout
  rw [hout'] at hupgraded'
  cases hupgraded'
  obtain ⟨paths, components, -, hc, hupgraded⟩ := upgrade_eq_ok_iff.1 hout
  have hcomponents : (surroundings out).components = some components := by
    rw [hupgraded]
    rfl
  have hitems : Export.documentItems out' = Export.documentItems out := by
    have hflatMap : out'.paths.entries.flatMap
        (fun e => (surroundings out).apiItems e.1 e.2 false) =
        out.paths.entries.flatMap fun e => (surroundings out).apiItems e.1 e.2 false := by
      unfold Dict.Related at hpaths
      generalize out.paths.entries = a at hpaths
      generalize out'.paths.entries = b at hpaths
      induction hpaths with
      | nil => rfl
      | @cons e f _ _ hef _ ih =>
        obtain ⟨hkey, item, huv⟩ := hef
        rw [List.flatMap_cons, List.flatMap_cons, ih, ← hkey,
          apiItems_upgraded hc hcomponents hK huv e.1 false]
    unfold Export.documentItems
    rw [hrest]
    exact congrArg (· ++ _) hflatMap
  have hcollection : Export.collection out' = Export.collection out := by
    rw [Export.collection_eq, Export.collection_eq, hitems]
  unfold Export.convert
  rw [hcollection]
  rw [hrest]
  rfl

end ApiFolio.Swagger.Document

import ApiFolio.Proofs.Export.MediaTypes
import ApiFolio.Proofs.OpenApi.Verbs
import ApiFolio.Proofs.Swagger.Kinds
import ApiFolio.Proofs.Validation.References

/-!
# Pointers to shared parameters in upgraded documents

In the lists of parameters of an upgraded document, a pointer to a shared parameter goes where that
parameter goes: a body becomes the body of the request (`becomesBody`), a form field goes into the
form (`foldsAway`), and any other parameter stays in its list (`staysParameter`).
-/

namespace ApiFolio

namespace OpenApi.Referable

variable {α : Type} {pointer : String}

theorem eq_ref_of_pointer? {r : Referable α} (h : r.pointer? = some pointer) : r = ref pointer := by
  cases r with
  | ref _ =>
    cases h
    rfl
  | item _ => cases h

theorem mem_filterMap_pointer? {rs : List (Referable α)} :
    pointer ∈ rs.filterMap pointer? ↔ ref pointer ∈ rs := by
  rw [List.mem_filterMap]
  constructor
  · rintro ⟨r, hr, hpointer⟩
    rw [← eq_ref_of_pointer? hpointer]
    exact hr
  · intro h
    exact ⟨_, h, rfl⟩

theorem eq_ref_of_mem {r : Option (Referable α)} (h : pointer ∈ (r.bind pointer?).toList) :
    r = some (ref pointer) := by
  obtain ⟨s, rfl, hpointer⟩ := Option.bind_eq_some_iff.1 (Option.mem_toList.1 h)
  rw [eq_ref_of_pointer? hpointer]

end OpenApi.Referable

namespace Swagger

open OpenApi (Referable RequestBody Schema)

namespace Document

/-! ## Upgrades of path items and operations -/

/-- The entries of parameter lists that an operation is upgraded with: those that it takes from its
path, then its own. -/
def entriesOf (doc : Document) (item : PathItem) (op : Operation) : List (Referable Parameter) :=
  item.parameters.filter doc.isInherited ++ op.parameters

/-- Every path item has an upgrade that stands in a relation to it, and so has every operation. -/
def EveryUpgrade (doc : Document) (out : OpenApi.Document)
    (onItems : PathItem → OpenApi.PathItem → Prop)
    (onOperations : PathItem → Operation → OpenApi.Operation → Prop) : Prop :=
  ∀ path item, doc.paths.get? path = some item →
    ∃ u, out.paths.get? path = some u ∧ onItems item u ∧
      ∀ verb op, item.operation? verb = some op →
        ∃ x, u.operation? verb = some x ∧ onOperations item op x

variable {doc : Document} {out : OpenApi.Document} {pointer : String} {p : Parameter}
variable {ps : List (Referable Parameter)}

theorem everyUpgrade (hout : doc.upgrade = .ok out) {onItems : PathItem → OpenApi.PathItem → Prop}
    {onOperations : PathItem → Operation → OpenApi.Operation → Prop}
    (hitems : ∀ item u, u.parameters = doc.plainParameters item.parameters → onItems item u)
    (hoperations : ∀ item op x,
      doc.upgradeOperation (item.parameters.filter doc.isInherited) op = .ok x →
      onOperations item op x) :
    doc.EveryUpgrade out onItems onOperations := by
  intro path item hitem
  obtain ⟨u, hu, hget⟩ := get?_paths_upgrade hout hitem
  obtain ⟨hops, hu⟩ := upgradePathItem_eq_ok_iff.1 hu
  refine ⟨u, hget, hitems item u (congrArg OpenApi.PathItem.parameters hu), fun verb op hop => ?_⟩
  have hverb := hops verb
  rw [hop] at hverb
  obtain ⟨x, hx, hsome⟩ := exists_of_map_eq_ok hverb
  exact ⟨x, hsome.symm, hoperations item op x hx⟩

/-! ## Pointers in parameter lists -/

theorem ref_mem_plainParameters :
    .ref pointer ∈ doc.plainParameters ps ↔
      .ref pointer ∈ ps ∧ doc.role (.ref pointer) = .plain (.ref pointer) := by
  unfold plainParameters
  rw [List.mem_filterMap]
  constructor
  · rintro ⟨q, hq, hsome⟩
    split at hsome
    · rename_i hrole
      cases hsome
      cases eq_ref_of_role_plain hrole
      exact ⟨hq, hrole⟩
    · cases hsome
  · rintro ⟨hmem, hrole⟩
    exact ⟨_, hmem, by rw [hrole]⟩

theorem ref_notMem_plainParameters (h : doc.role (.ref pointer) ≠ .plain (.ref pointer))
    (ps : List (Referable Parameter)) : .ref pointer ∉ doc.plainParameters ps := fun hmem =>
  h (ref_mem_plainParameters.1 hmem).2

/-- The name of every field among the entries is that of a field of the form. -/
theorem exists_field_of_mem {q : Referable Parameter} (hq : q ∈ ps)
    (hfield : doc.field? q = some p) : ∃ f ∈ doc.formFields ps, f.name = p.name := by
  obtain ⟨f, hf, hname⟩ := exists_isLastField (List.mem_filterMap.2 ⟨q, hq, hfield⟩)
  exact ⟨f, mem_formFields_iff.2 hf, hname⟩

/-- An entry gives an operation its body. -/
def GivesBody (doc : Document) (q : Referable Parameter) : Prop :=
  (∃ pointer, doc.role q = .bodyPointer pointer) ∨ ∃ p, doc.role q = .body p

theorem foldlM_nextBody_eq (consumes : List String) (body : Option (Referable RequestBody))
    (h : ∀ q ∈ ps, ¬doc.GivesBody q) : ps.foldlM (doc.nextBody consumes) body = .ok body := by
  induction ps with
  | nil => rfl
  | cons q rest ih =>
    have hnext : doc.nextBody consumes body q = .ok body := by
      have hq := h q List.mem_cons_self
      unfold nextBody
      split
      · rename_i hrole
        exact absurd (.inl ⟨_, hrole⟩) hq
      · rename_i hrole
        exact absurd (.inr ⟨_, hrole⟩) hq
      · rfl
    rw [List.foldlM_cons, hnext]
    exact ih fun r hr => h r (List.mem_cons_of_mem _ hr)

/-- The last entry that gives a body counts. -/
theorem explicitBody_of_last {consumes : List String} {before after : List (Referable Parameter)}
    (hrole : doc.role (.ref pointer) = .bodyPointer pointer)
    (hafter : ∀ q ∈ after, ¬doc.GivesBody q) {body : Option (Referable RequestBody)}
    (h : doc.explicitBody consumes (before ++ .ref pointer :: after) = .ok body) :
    body = some (.ref pointer) := by
  rw [explicitBody_eq, List.foldlM_append] at h
  obtain ⟨first, -, h⟩ := exists_of_bind_eq_ok h
  rw [List.foldlM_cons] at h
  obtain ⟨next, hnext, h⟩ := exists_of_bind_eq_ok h
  unfold nextBody at hnext
  rw [hrole] at hnext
  cases hnext
  rw [foldlM_nextBody_eq consumes _ hafter] at h
  exact (Except.ok.inj h).symm

/-- What holds before all entries and is kept by each holds of the body among them. -/
theorem explicitBody_invariant {consumes : List String}
    {P : Option (Referable RequestBody) → Prop}
    (hstep : ∀ body q next, P body → doc.nextBody consumes body q = .ok next → P next)
    {before after : Option (Referable RequestBody)} (hbefore : P before)
    (h : ps.foldlM (doc.nextBody consumes) before = .ok after) : P after := by
  induction ps generalizing before with
  | nil =>
    cases h
    exact hbefore
  | cons q rest ih =>
    rw [List.foldlM_cons] at h
    obtain ⟨next, hnext, h⟩ := exists_of_bind_eq_ok h
    exact ih (hstep before q next hbefore hnext) h

/-- A body that is a pointer points into the request bodies. -/
def PointsToBody (body : Option (Referable RequestBody)) : Prop :=
  ∀ pointer, body = some (.ref pointer) →
    Text.startsWith (OpenApi.Pointer.areaRoot "requestBodies") pointer = true

theorem pointsToBody_nextBody (consumes : List String) (body : Option (Referable RequestBody))
    (q : Referable Parameter) (next : Option (Referable RequestBody)) (hbody : PointsToBody body)
    (hnext : doc.nextBody consumes body q = .ok next) : PointsToBody next := by
  rintro pointer rfl
  unfold nextBody at hnext
  split at hnext
  · rename_i hrole
    cases hnext
    exact startsWith_of_role_bodyPointer hrole
  · obtain ⟨b, -, hb⟩ := exists_of_map_eq_ok hnext
    cases hb
  · cases hnext
    exact hbody pointer rfl

/-- The body of an upgraded operation is a pointer only if it points into the request bodies. -/
theorem pointsToBody_requestBody {consumes : List String}
    {body : Option (Referable RequestBody)} (h : doc.requestBody consumes ps = .ok body) :
    PointsToBody body := by
  obtain ⟨explicit, hexplicit, h⟩ := exists_of_bind_eq_ok h
  have hexplicit : PointsToBody explicit :=
    explicitBody_invariant (pointsToBody_nextBody consumes) (fun _ hnone => by cases hnone)
      hexplicit
  rintro pointer rfl
  cases explicit with
  | none =>
    dsimp only at h
    split at h <;> cases h
  | some body =>
    cases h
    exact hexplicit pointer rfl

/-! ## Where pointers to shared parameters go -/

/-- No issue of a document tells of the pointer. -/
def Unreported (out : OpenApi.Document) (pointer : String) : Prop :=
  ∀ issue ∈ Validation.document out, issue.message ≠ Validation.unresolved pointer

/-- A response, or a schema in an operation or among the components, has the pointer. -/
def InResponseOrSchema (out : OpenApi.Document) (pointer : String) : Prop :=
  (∃ x ∈ Validation.documentOperations out,
    pointer ∈ x.operation.responses.values.filterMap Referable.pointer? ∨
      pointer ∈ (Validation.outerSchemas x.parameters x.operation).flatMap Schema.pointers) ∨
  ∃ components, out.components = some components ∧
    ∃ e ∈ components.schemas.entries, pointer ∈ e.2.pointers

/-- Pointers to a shared body become the body of the request, unless a later entry gives one; the
pointer is that to the upgraded body. -/
def BecomesBody (doc : Document) (out : OpenApi.Document) (pointer : String) (p : Parameter) :
    Prop :=
  (∃ components body, out.components = some components ∧
    components.requestBody? pointer = some body ∧
    p.upgradeBody (mediaTypes [] doc.consumes) = .ok body) ∧
  doc.EveryUpgrade out (fun _ u => .ref pointer ∉ u.parameters) (fun item op x =>
    .ref pointer ∉ x.parameters ∧
      ∀ before after, doc.entriesOf item op = before ++ .ref pointer :: after →
        (∀ q ∈ after, ¬doc.GivesBody q) → x.requestBody = some (.ref pointer)) ∧
  Unreported out pointer

/-- Pointers to a shared form field are among the fields of the form and nowhere else, so that only
a response or a schema with such a pointer is reported. -/
def FoldsAway (doc : Document) (out : OpenApi.Document) (pointer : String) (p : Parameter) : Prop :=
  doc.EveryUpgrade out (fun _ u => .ref pointer ∉ u.parameters) (fun item op x =>
    .ref pointer ∉ x.parameters ∧ x.requestBody ≠ some (.ref pointer) ∧
      (.ref pointer ∈ item.parameters ++ op.parameters →
        ∃ f ∈ doc.formFields (doc.entriesOf item op), f.name = p.name)) ∧
  ∀ issue ∈ Validation.document out, issue.message = Validation.unresolved pointer →
    InResponseOrSchema out pointer

/-- Pointers to any other shared parameter stay in their lists; the pointer is that to the upgraded
parameter. -/
def StaysParameter (doc : Document) (out : OpenApi.Document) (pointer : String) (p : Parameter) :
    Prop :=
  (∃ components, out.components = some components ∧
    components.parameter? pointer = some p.upgrade) ∧
  doc.EveryUpgrade out (fun item u => .ref pointer ∈ item.parameters → .ref pointer ∈ u.parameters)
    (fun _ op x => .ref pointer ∈ op.parameters → .ref pointer ∈ x.parameters) ∧
  Unreported out pointer

section

variable (hout : doc.upgrade = .ok out) (hnames : doc.NamesParameter pointer p)

include hout

theorem exists_components : ∃ components, out.components = some components ∧
    doc.components = .ok components := by
  obtain ⟨paths, components, -, hcomponents, rfl⟩ := upgrade_eq_ok_iff.1 hout
  exact ⟨components, rfl, hcomponents⟩

/-- What an operation of the upgrade has of parameters and body comes from lists of entries. -/
theorem exists_of_mem_documentOperations {x : Validation.Located}
    (hx : x ∈ Validation.documentOperations out) :
    (∃ ps, x.item.parameters = doc.plainParameters ps) ∧
      ∃ ps consumes, x.operation.parameters = doc.plainParameters ps ∧
        doc.requestBody consumes ps = .ok x.operation.requestBody := by
  obtain ⟨⟨path, u⟩, hu, hx⟩ := List.mem_flatMap.1 hx
  obtain ⟨⟨verb, y⟩, hy, rfl⟩ := List.mem_map.1 hx
  have hz := OpenApi.PathItem.mem_operations_iff.1 hy
  obtain ⟨paths, components, hpaths, -, rfl⟩ := upgrade_eq_ok_iff.1 hout
  obtain ⟨item, -, hitem⟩ := exists_of_mem_upgradeEntries hpaths (Dict.mem_of_mem_ofList hu)
  obtain ⟨hops, hparameters⟩ := upgradePathItem_eq_ok_iff.1 hitem
  refine ⟨⟨_, congrArg OpenApi.PathItem.parameters hparameters⟩, ?_⟩
  have hop := hops verb
  rw [show OpenApi.PathItem.operation? _ verb = some y from hz] at hop
  cases hsource : item.operation? verb with
  | none =>
    rw [hsource] at hop
    cases hop
  | some op =>
    rw [hsource] at hop
    obtain ⟨w, hw, heq⟩ := exists_of_map_eq_ok hop
    cases heq
    obtain ⟨body, hbody, rfl⟩ := upgradeOperation_eq_ok_iff.1 hw
    exact ⟨_, _, rfl, hbody⟩

/-- A pointer that no list of entries brings into parameters and bodies is met in a response or in
a schema, or not at all. -/
theorem inResponseOrSchema_of_mem (hplain : ∀ ps, .ref pointer ∉ doc.plainParameters ps)
    (hrequest : ∀ consumes ps, doc.requestBody consumes ps ≠ .ok (some (.ref pointer)))
    {location : String} (h : (location, pointer) ∈ Validation.locatedPointers out) :
    InResponseOrSchema out pointer := by
  rcases List.mem_append.1 h with h | h
  · obtain ⟨x, hx, h⟩ := List.mem_flatMap.1 h
    obtain ⟨q, hq, heq⟩ := List.mem_map.1 h
    cases congrArg Prod.snd heq
    obtain ⟨⟨ps, hps⟩, qs, consumes, hqs, hbody⟩ := exists_of_mem_documentOperations hout hx
    refine .inl ⟨x, hx, ?_⟩
    rcases List.mem_append.1 hq with hq | hq
    · rcases List.mem_append.1 hq with hq | hq
      · rcases List.mem_append.1 hq with hq | hq
        · have hmem := OpenApi.Referable.mem_filterMap_pointer?.1 hq
          rw [Validation.Located.parameters, hps, hqs] at hmem
          rcases List.mem_append.1 hmem with hmem | hmem
          · exact absurd hmem (hplain ps)
          · exact absurd hmem (hplain qs)
        · rw [OpenApi.Referable.eq_ref_of_mem hq] at hbody
          exact absurd hbody (hrequest consumes qs)
      · exact .inl hq
    · exact .inr hq
  · obtain ⟨components, hsome, -⟩ := exists_components hout
    rw [hsome] at h
    obtain ⟨e, he, h⟩ := List.mem_flatMap.1 h
    obtain ⟨q, hq, heq⟩ := List.mem_map.1 h
    cases congrArg Prod.snd heq
    exact .inr ⟨components, hsome, e, he, hq⟩

include hnames

theorem becomesBody (hbody : p.location = "body") : doc.BecomesBody out pointer p := by
  obtain ⟨components, hsome, hcomponents⟩ := exists_components hout
  obtain ⟨body, hlook, hupgrade⟩ := requestBody?_components hcomponents hnames hbody
  have hrole : doc.role (.ref pointer) = .bodyPointer pointer := by
    rw [role_of_namesParameter hnames, if_pos hbody]
  have hplain : ∀ ps, .ref pointer ∉ doc.plainParameters ps :=
    ref_notMem_plainParameters fun h => by rw [hrole] at h; cases h
  refine ⟨⟨components, body, hsome, hlook, hupgrade⟩, everyUpgrade hout ?_ ?_,
    Validation.not_unresolved hsome (Validation.leadsToEntry_of_requestBody? hlook)⟩
  · intro item u hu
    rw [hu]
    exact hplain _
  · intro item op x hx
    obtain ⟨b, hb, rfl⟩ := upgradeOperation_eq_ok_iff.1 hx
    refine ⟨hplain _, fun before after hentries hafter => ?_⟩
    obtain ⟨explicit, hexplicit, hrest⟩ := exists_of_bind_eq_ok hb
    rw [show _ ++ op.parameters = _ from hentries] at hexplicit
    cases explicitBody_of_last hrole hafter hexplicit
    cases hrest
    rfl

theorem foldsAway (hform : p.location = "formData") : doc.FoldsAway out pointer p := by
  have hbody : p.location ≠ "body" := by
    rw [hform]
    decide
  have hrole : doc.role (.ref pointer) = .field p := by
    rw [role_of_namesParameter hnames, if_neg hbody, if_pos hform]
  have hfield : doc.field? (.ref pointer) = some p := by
    rw [(kind_of_namesParameter hnames).2, if_pos hform]
  have hplain : ∀ ps, .ref pointer ∉ doc.plainParameters ps :=
    ref_notMem_plainParameters fun h => by rw [hrole] at h; cases h
  have hrequest : ∀ consumes ps, doc.requestBody consumes ps ≠ .ok (some (.ref pointer)) := by
    intro consumes ps h
    obtain ⟨name, hname, -⟩ := hnames
    rw [Parameter.area_of_ne_body hbody] at hname
    have hstart := pointsToBody_requestBody h pointer rfl
    rw [startsWith_requestBodies hname] at hstart
    cases hstart
  refine ⟨everyUpgrade hout ?_ ?_, fun issue hissue hmessage => ?_⟩
  · intro item u hu
    rw [hu]
    exact hplain _
  · intro item op x hx
    obtain ⟨b, hb, rfl⟩ := upgradeOperation_eq_ok_iff.1 hx
    refine ⟨hplain _, ?_, fun hmem => ?_⟩
    · rintro (rfl : b = _)
      exact hrequest _ _ hb
    · refine exists_field_of_mem ?_ hfield
      rcases List.mem_append.1 hmem with hmem | hmem
      · refine List.mem_append_left _ (List.mem_filter.2 ⟨hmem, ?_⟩)
        unfold isInherited
        rw [hrole]
      · exact List.mem_append_right _ hmem
  · exact inResponseOrSchema_of_mem hout hplain hrequest
      (Validation.exists_pointer_of_unresolved hissue hmessage).1

theorem staysParameter (hbody : p.location ≠ "body") (hform : p.location ≠ "formData") :
    doc.StaysParameter out pointer p := by
  obtain ⟨components, hsome, hcomponents⟩ := exists_components hout
  have hlook := parameter?_components hcomponents hnames hbody hform
  have hrole : doc.role (.ref pointer) = .plain (.ref pointer) := by
    rw [role_of_namesParameter hnames, if_neg hbody, if_neg hform]
  refine ⟨⟨components, hsome, hlook⟩, everyUpgrade hout ?_ ?_,
    Validation.not_unresolved hsome (Validation.leadsToEntry_of_parameter? hlook)⟩
  · intro item u hu hmem
    rw [hu]
    exact ref_mem_plainParameters.2 ⟨hmem, hrole⟩
  · intro item op x hx hmem
    obtain ⟨b, -, rfl⟩ := upgradeOperation_eq_ok_iff.1 hx
    exact ref_mem_plainParameters.2 ⟨List.mem_append_right _ hmem, hrole⟩

end

end Document

end Swagger

end ApiFolio

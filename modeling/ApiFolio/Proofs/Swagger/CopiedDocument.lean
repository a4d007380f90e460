import ApiFolio.Proofs.Swagger.Copied

/-!
# Upgrading documents with copies

If one of two documents has copies where the other one has pointers, and the latter can be
upgraded, so can the former, and the upgraded documents differ where the pointers stood
(`upgrade_copied`).
-/

namespace ApiFolio.Swagger.Document

open OpenApi (Referable RequestBody Verb)

variable {doc : Document} {K : Parameter → Prop} {L : Response → Prop}

/-! ## Operations -/

variable (doc) in
/-- The same response of version 3, or a pointer and the upgrade of the shared response that it
names. -/
def UpgradedResponse (L : Response → Prop) (produces : List String)
    (a b : Referable OpenApi.Response) : Prop :=
  a = b ∨ ∃ pointer r, a = .ref pointer ∧ b = .item (r.upgrade produces) ∧
    doc.NamesResponse pointer r ∧ L r

variable (doc) in
/-- Upgrades of an operation with pointers and of the operation with copies in their place. -/
structure UpgradedOperation (K : Parameter → Prop) (L : Response → Prop) (op : Operation)
    (x y : OpenApi.Operation) : Prop where
  rest : y = { x with
    parameters := y.parameters, requestBody := y.requestBody, responses := y.responses }
  parameters : List.Forall₂ doc.UpgradedParameter x.parameters y.parameters
  requestBody : doc.CopiedBody K (mediaTypes op.consumes doc.consumes) x.requestBody y.requestBody
  responses : Dict.Related (doc.UpgradedResponse L (mediaTypes op.produces doc.produces))
    x.responses y.responses

variable (doc) in
/-- Operations of which the second has copies where the first has pointers. -/
abbrev CopiedOperation (K : Parameter → Prop) (L : Response → Prop) :
    Operation → Operation → Prop :=
  Operation.Alike (List.Forall₂ (doc.CopiedParameter K)) (Dict.Related (doc.CopiedResponse L))

variable {components : OpenApi.Components} (hc : doc.components = .ok components)
variable {inherited inherited' : List (Referable Parameter)}
variable (hinherited : List.Forall₂ (doc.CopiedParameter K) inherited inherited')

include hc hinherited

theorem upgradeOperation_copied {op op' : Operation} (hop : doc.CopiedOperation K L op op')
    {x : OpenApi.Operation} (hx : doc.upgradeOperation inherited op = .ok x) :
    ∃ y, doc.upgradeOperation inherited' op' = .ok y ∧ doc.UpgradedOperation K L op x y := by
  obtain ⟨body, hbody, rfl⟩ := upgradeOperation_eq_ok_iff.1 hx
  have hps := List.rel_append hinherited hop.parameters
  obtain ⟨body', hbody', hcopied⟩ := requestBody_copied hc hps hbody
  have hresponses : Dict.Related (doc.UpgradedResponse L (mediaTypes op.produces doc.produces))
      (op.responses.map (upgradeResponse (mediaTypes op.produces doc.produces)))
      (op'.responses.map (upgradeResponse (mediaTypes op.produces doc.produces))) := by
    refine Entries.Related.mapValues hop.responses fun a b hab => ?_
    rcases hab with rfl | ⟨pointer, r, rfl, rfl, hnames, hL⟩
    · exact .inl rfl
    · exact .inr ⟨pointer, r, rfl, rfl, hnames, hL⟩
  have hsame := hop.rest
  refine ⟨_, upgradeOperation_eq_ok_iff.2 ⟨body', ?_, rfl⟩, ⟨?_, plainParameters_copied hps,
    hcopied, ?_⟩⟩
  · rw [hsame]
    exact hbody'
  · rw [hsame]
  · rw [hsame]
    exact hresponses

theorem upgradeOperation?_copied {op op' : Option Operation}
    (hop : Option.Rel (doc.CopiedOperation K L) op op') {x : Option OpenApi.Operation}
    (hx : doc.upgradeOperation? inherited op = .ok x) :
    ∃ y, doc.upgradeOperation? inherited' op' = .ok y ∧
      Option.Rel (fun a b => ∃ o, op = some o ∧ doc.UpgradedOperation K L o a b) x y := by
  cases hop with
  | none =>
    cases hx
    exact ⟨none, rfl, .none⟩
  | @some o o' hoo' =>
    obtain ⟨a, ha, rfl⟩ := exists_of_map_eq_ok hx
    obtain ⟨b, hb, hab⟩ := upgradeOperation_copied hc hinherited hoo' ha
    exact ⟨some b, congrArg (Except.map some) hb, .some ⟨o, rfl, hab⟩⟩

omit hc hinherited

/-! ## Path items -/

variable (doc) in
/-- Upgrades of a path item with pointers and of the path item with copies in their place. -/
structure UpgradedPathItem (K : Parameter → Prop) (L : Response → Prop) (item : PathItem)
    (u v : OpenApi.PathItem) : Prop where
  operations : ∀ verb, Option.Rel
    (fun x y => ∃ op, item.operation? verb = some op ∧ doc.UpgradedOperation K L op x y)
    (u.operation? verb) (v.operation? verb)
  parameters : List.Forall₂ doc.UpgradedParameter u.parameters v.parameters

variable (doc) in
/-- Path items of which the second has copies where the first has pointers. -/
abbrev CopiedPathItem (K : Parameter → Prop) (L : Response → Prop) : PathItem → PathItem → Prop :=
  PathItem.Alike (doc.CopiedOperation K L) (List.Forall₂ (doc.CopiedParameter K))

include hc in
theorem upgradePathItem_copied {item item' : PathItem} (h : doc.CopiedPathItem K L item item')
    {u : OpenApi.PathItem} (hu : doc.upgradePathItem item = .ok u) :
    ∃ v, doc.upgradePathItem item' = .ok v ∧ doc.UpgradedPathItem K L item u v := by
  obtain ⟨hoperations, hrest⟩ := upgradePathItem_eq_ok_iff.1 hu
  have hinherited := List.rel_filter (p := doc.isInherited) (q := doc.isInherited)
    (fun a b hab => by simp only [isInherited_copied hab]) h.parameters
  choose f hf hrel using fun verb =>
    upgradeOperation?_copied hc hinherited (h.operations verb) (hoperations verb)
  let v : OpenApi.PathItem := {
    get := f .get, put := f .put, post := f .post, delete := f .delete, options := f .options,
    head := f .head, patch := f .patch, parameters := doc.plainParameters item'.parameters }
  have hv : ∀ verb, v.operation? verb = f verb := by
    intro verb
    cases verb with
    | trace => exact Except.ok.inj (hf .trace)
    | _ => rfl
  refine ⟨v, upgradePathItem_eq_ok_iff.2 ⟨fun verb => ?_, rfl⟩, ⟨fun verb => ?_, ?_⟩⟩
  · rw [hv]
    exact hf verb
  · rw [hv]
    exact hrel verb
  · rw [hrest]
    exact plainParameters_copied h.parameters

/-! ## Documents -/

variable (doc) in
/-- Documents of which the second has copies where the first has pointers. -/
abbrev CopiedDocument (K : Parameter → Prop) (L : Response → Prop) (doc' : Document) : Prop :=
  Document.Alike (doc.CopiedPathItem K L) doc doc'

/-- A document with copies in the place of pointers can be upgraded if the document with the
pointers can, and their upgrades differ in nothing but path items. -/
theorem upgrade_copied {doc' : Document} (h : doc.CopiedDocument K L doc')
    {out : OpenApi.Document} (hout : doc.upgrade = .ok out) :
    ∃ out', doc'.upgrade = .ok out' ∧ out' = { out with paths := out'.paths } ∧
      Dict.Related (fun u v => ∃ item, doc.UpgradedPathItem K L item u v) out.paths out'.paths := by
  obtain ⟨paths, components, hpaths, hcomponents, rfl⟩ := upgrade_eq_ok_iff.1 hout
  obtain ⟨paths', hpaths', hrel⟩ := upgradeEntries_related
    (B := fun u v => ∃ item, doc.UpgradedPathItem K L item u v)
    (fun _ item item' u hitem hu => by
      obtain ⟨v, hv, huv⟩ := upgradePathItem_copied hcomponents hitem hu
      exact ⟨v, hv, item, huv⟩) h.paths hpaths
  refine ⟨_, upgrade_eq_ok_iff.2 ⟨paths', components, ?_, ?_, rfl⟩, ?_, hrel.sort⟩
  · rw [h.rest]
    exact hpaths'
  · rw [h.rest]
    exact hcomponents
  · rw [h.rest]
    rfl

/-- The upgrades of one operation in a document with pointers and in one with copies. -/
theorem operation_copied {doc' : Document} (h : doc.CopiedDocument K L doc')
    {out out' : OpenApi.Document} (hout : doc.upgrade = .ok out) (hout' : doc'.upgrade = .ok out')
    {path : String} {item : PathItem} (hitem : doc.paths.get? path = some item) {verb : Verb}
    {op : Operation} (hop : item.operation? verb = some op) :
    ∃ u v x y, out.paths.get? path = some u ∧ u.operation? verb = some x ∧
      out'.paths.get? path = some v ∧ v.operation? verb = some y ∧
      doc.UpgradedOperation K L op x y := by
  obtain ⟨paths, components, -, hc, -⟩ := upgrade_eq_ok_iff.1 hout
  obtain ⟨u, hu, huGet⟩ := get?_paths_upgrade hout hitem
  obtain ⟨item', hitem', halike⟩ := h.paths.get? hitem
  obtain ⟨v', hv', hupgraded⟩ := upgradePathItem_copied hc halike hu
  obtain ⟨v, hv, hvGet⟩ := get?_paths_upgrade hout' hitem'
  have hsame : doc'.upgradePathItem item' = doc.upgradePathItem item' := by rw [h.rest]; rfl
  rw [hsame, hv'] at hv
  cases hv
  have hx := (upgradePathItem_eq_ok_iff.1 hu).1 verb
  rw [hop] at hx
  obtain ⟨x, -, hx⟩ := exists_of_map_eq_ok hx
  have hrel := hupgraded.operations verb
  rw [← hx] at hrel
  generalize hy : v'.operation? verb = y at hrel
  cases hrel with
  | some hrel =>
    obtain ⟨op', hop', hxy⟩ := hrel
    rw [hop] at hop'
    cases hop'
    exact ⟨u, v', x, _, huGet, hx.symm, hvGet, hy, hxy⟩

end ApiFolio.Swagger.Document

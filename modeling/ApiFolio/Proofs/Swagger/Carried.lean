import ApiFolio.Proofs.OpenApi.Reread
import ApiFolio.Proofs.Swagger.Roles
import ApiFolio.Proofs.Swagger.Upgraded

/-!
# What the upgrade makes of parts

Each part of an upgraded document is made of parts of the document: a parameter of a parameter, a
body of a parameter or of the fields of a form, a response of a response. If all that is made of
parts with a property has another (`Document.Carries`), then the upgraded parts have it wherever the
upgrade puts them: in operations (`Carries.upgradeOperation`) and in components
(`Carries.components`).
-/

namespace ApiFolio.Swagger

open OpenApi (Referable)

/-- The shared parts of a document have a property, and what the upgrade makes of parts with it has
another. -/
structure Document.Carries (doc : Document) (P : Parameter → Prop) (T : Response → Prop)
    (Q : OpenApi.Parameter → Prop) (B : OpenApi.RequestBody → Prop) (U : OpenApi.Response → Prop) :
    Prop where
  parameters : ∀ e ∈ doc.parameters.entries, P e.2
  responses : ∀ e ∈ doc.responses.entries, T e.2
  plain : ∀ p, P p → Q p.upgrade
  body : ∀ p consumes b, P p → p.upgradeBody consumes = .ok b → B b
  form : ∀ fields consumes, (∀ f ∈ fields, P f) → B (formBody fields consumes)
  response : ∀ r produces, T r → U (r.upgrade produces)

variable {P : Parameter → Prop} {T : Response → Prop} {Q : OpenApi.Parameter → Prop}
  {B : OpenApi.RequestBody → Prop} {U : OpenApi.Response → Prop}

/-- What an entry of a parameter list is has a property if the parameter in it has. -/
def Document.ParameterRole.Holds (P : Parameter → Prop) (Q : OpenApi.Parameter → Prop) :
    ParameterRole → Prop
  | .bodyPointer _ => True
  | .body p => P p
  | .field p => P p
  | .plain p => p.Holds Q

namespace Document.Carries

variable {doc : Document} (h : doc.Carries P T Q B U)

include h

theorem sharedFormField? {pointer : String} {field : Parameter}
    (hfield : doc.sharedFormField? pointer = some field) : P field := by
  obtain ⟨name, -, hfield⟩ := Option.bind_eq_some_iff.1 hfield
  obtain ⟨p, hp, hfield⟩ := Option.bind_eq_some_iff.1 hfield
  split at hfield
  · cases hfield
    exact h.parameters _ ((Dict.mem_entries _).2 hp)
  · cases hfield

theorem role {p : Referable Parameter} (hp : p.Holds P) :
    (doc.role p).Holds P Q := by
  cases p with
  | ref pointer =>
    rw [role_ref]
    split
    · trivial
    · split
      · rename_i field hfield
        exact h.sharedFormField? hfield
      · trivial
  | item q =>
    have hq : P q := hp
    rw [role_item]
    split
    · exact hq
    · split
      · exact hq
      · exact h.plain q hq

theorem plainParameters {ps : List (Referable Parameter)}
    (hps : ∀ p ∈ ps, p.Holds P) :
    ∀ x ∈ doc.plainParameters ps, x.Holds Q := by
  intro x hx
  obtain ⟨p, hp, hrole⟩ := List.mem_filterMap.1 hx
  have hwhole := h.role (hps p hp)
  split at hrole
  · rename_i y hy
    cases hrole
    rw [hy] at hwhole
    exact hwhole
  · cases hrole

theorem nextFields {fields : List Parameter} (hfields : ∀ f ∈ fields, P f)
    {p : Referable Parameter} (hp : p.Holds P) :
    ∀ f ∈ doc.nextFields fields p, P f := by
  have hrole := h.role hp
  unfold Document.nextFields
  split
  · rename_i f hf
    rw [hf] at hrole
    intro g hg
    rcases List.mem_append.1 hg with hg | hg
    · exact hfields g (List.mem_filter.1 hg).1
    · rw [List.mem_singleton.1 hg]
      exact hrole
  · exact hfields

theorem formFields {ps : List (Referable Parameter)}
    (hps : ∀ p ∈ ps, p.Holds P) : ∀ f ∈ doc.formFields ps, P f := by
  suffices hfold : ∀ fields : List Parameter, (∀ f ∈ fields, P f) →
      ∀ f ∈ ps.foldl doc.nextFields fields, P f from hfold [] (by simp)
  induction ps with
  | nil => exact fun fields hfields => hfields
  | cons p rest ih =>
    intro fields hfields
    exact ih (fun q hq => hps q (List.mem_cons_of_mem _ hq)) _
      (h.nextFields hfields (hps p List.mem_cons_self))

theorem nextBody {consumes : List String} {body next : Option (Referable OpenApi.RequestBody)}
    (hbody : ∀ b ∈ body, b.Holds B)
    {p : Referable Parameter} (hp : p.Holds P)
    (hnext : doc.nextBody consumes body p = .ok next) :
    ∀ b ∈ next, b.Holds B := by
  have hrole := h.role hp
  unfold Document.nextBody at hnext
  split at hnext
  · cases hnext
    intro b hb
    cases hb
    trivial
  · rename_i q hq
    rw [hq] at hrole
    obtain ⟨b, hb, rfl⟩ := exists_of_map_eq_ok hnext
    intro c hc
    cases hc
    exact h.body q consumes b hrole hb
  · cases hnext
    exact hbody

theorem explicitBody {consumes : List String} {ps : List (Referable Parameter)}
    (hps : ∀ p ∈ ps, p.Holds P) {body : Option (Referable OpenApi.RequestBody)}
    (hb : doc.explicitBody consumes ps = .ok body) :
    ∀ b ∈ body, b.Holds B := by
  suffices hfold : ∀ start : Option (Referable OpenApi.RequestBody),
      (∀ b ∈ start, b.Holds B) →
      ps.foldlM (doc.nextBody consumes) start = .ok body →
      ∀ b ∈ body, b.Holds B from
    hfold none (by simp) hb
  clear hb
  induction ps with
  | nil =>
    intro start hstart hb
    cases hb
    exact hstart
  | cons p rest ih =>
    intro start hstart hb
    rw [List.foldlM_cons] at hb
    obtain ⟨next, hnext, hb⟩ := exists_of_bind_eq_ok hb
    exact ih (fun q hq => hps q (List.mem_cons_of_mem _ hq)) next
      (h.nextBody hstart (hps p List.mem_cons_self) hnext) hb

theorem requestBody {consumes : List String} {ps : List (Referable Parameter)}
    (hps : ∀ p ∈ ps, p.Holds P) {body : Option (Referable OpenApi.RequestBody)}
    (hb : doc.requestBody consumes ps = .ok body) :
    ∀ b ∈ body, b.Holds B := by
  obtain ⟨explicit, hexplicit, hb⟩ := exists_of_bind_eq_ok hb
  have hwhole := h.explicitBody hps hexplicit
  cases explicit with
  | some b =>
    cases hb
    exact hwhole
  | none =>
    have hfields := h.formFields hps
    simp only at hb
    split at hb
    · cases hb
      simp
    · rename_i f fs hfs
      cases hb
      intro b hb
      cases hb
      rw [hfs] at hfields
      exact h.form _ consumes hfields

theorem upgradeOperation {inherited : List (Referable Parameter)} {op : Operation}
    (hinherited : ∀ p ∈ inherited, p.Holds P) (hparameters : ∀ p ∈ op.parameters, p.Holds P)
    (hresponses : ∀ e ∈ op.responses.entries, e.2.Holds T) {out : OpenApi.Operation}
    (hout : doc.upgradeOperation inherited op = .ok out) :
    (∀ p ∈ out.parameters, p.Holds Q) ∧ (∀ b ∈ out.requestBody, b.Holds B) ∧
      ∀ e ∈ out.responses.entries, e.2.Holds U := by
  have hps : ∀ p ∈ inherited ++ op.parameters, p.Holds P :=
    List.forall_mem_append.2 ⟨hinherited, hparameters⟩
  obtain ⟨body, hbody, rfl⟩ := upgradeOperation_eq_ok_iff.1 hout
  refine ⟨h.plainParameters hps, h.requestBody hps hbody, fun e he => ?_⟩
  obtain ⟨⟨key, r⟩, hr, rfl⟩ := List.mem_map.1 he
  have hholds := hresponses _ hr
  cases r with
  | ref pointer => trivial
  | item r => exact h.response r _ hholds

omit h in
/-- An operation of an upgraded path item is an upgraded operation of the path item. -/
theorem exists_of_upgradePathItem {item : PathItem} {out : OpenApi.PathItem}
    (hout : doc.upgradePathItem item = .ok out) {verb : OpenApi.Verb} {y : OpenApi.Operation}
    (hy : out.operation? verb = some y) :
    ∃ op ∈ item.operations,
      doc.upgradeOperation (item.parameters.filter doc.isInherited) op = .ok y := by
  obtain ⟨hoperations, -⟩ := upgradePathItem_eq_ok_iff.1 hout
  have hverb := hoperations verb
  rw [hy] at hverb
  cases hop : item.operation? verb with
  | none =>
    rw [hop] at hverb
    cases hverb
  | some op =>
    rw [hop] at hverb
    obtain ⟨x, hx, heq⟩ := exists_of_map_eq_ok hverb
    cases heq
    exact ⟨op, PathItem.mem_operations_iff.2 ⟨verb, hop⟩, hx⟩

theorem components {out : OpenApi.Components} (hout : doc.components = .ok out) :
    (∀ e ∈ out.responses.entries, e.2.Holds U) ∧ (∀ e ∈ out.parameters.entries, e.2.Holds Q) ∧
      ∀ e ∈ out.requestBodies.entries, e.2.Holds B := by
  obtain ⟨bodies, schemes, hbodies, -, rfl⟩ := components_eq_ok_iff.1 hout
  refine ⟨fun e he => ?_, fun e he => ?_, fun e he => ?_⟩
  · obtain ⟨⟨name, r⟩, hr, rfl⟩ := List.mem_map.1 he
    exact h.response r _ (h.responses _ hr)
  · obtain ⟨⟨name, p⟩, hp, rfl⟩ := List.mem_map.1 (Dict.mem_of_mem_ofList he)
    exact h.plain p (h.parameters _ (List.mem_filter.1 hp).1)
  · obtain ⟨⟨name, b⟩, hb, rfl⟩ := List.mem_map.1 (Dict.mem_of_mem_ofList he)
    obtain ⟨p, hp, hbody⟩ := exists_of_mem_upgradeEntries hbodies hb
    exact h.body p _ b (h.parameters _ (List.mem_filter.1 hp).1) hbody

end Document.Carries

end ApiFolio.Swagger

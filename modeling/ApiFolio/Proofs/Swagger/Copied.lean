import ApiFolio.Proofs.OpenApi.Pointer
import ApiFolio.Proofs.Swagger.Replaced
import ApiFolio.Proofs.Swagger.Roles
import ApiFolio.Proofs.Swagger.Whole

/-!
# Copies of shared parts

A parameter or a response may be written where it is used, or once at the top of the document and
pointed at. This module follows the two spellings through the upgrade: entries of parameter lists
keep their role but for bodies, where a pointer becomes a pointer and a copy becomes a body of its
own.
-/

namespace ApiFolio.Swagger

open OpenApi (Referable RequestBody Pointer.name? Pointer.areaRoot)

/-- The area in which version 3 keeps a shared parameter. -/
def Parameter.area (p : Parameter) : String :=
  if p.location = "body" then "requestBodies" else "parameters"

theorem Parameter.area_of_body {p : Parameter} (h : p.location = "body") :
    p.area = "requestBodies" := if_pos h

theorem Parameter.area_of_ne_body {p : Parameter} (h : p.location ≠ "body") :
    p.area = "parameters" := if_neg h

/-- A pointer into the parameters is none to a request body. -/
theorem startsWith_requestBodies {pointer name : String}
    (h : Pointer.name? pointer "parameters" = some name) :
    Text.startsWith (Pointer.areaRoot "requestBodies") pointer = false := by
  unfold Pointer.name? at h
  split at h
  · cases h
  · rename_i token htoken
    rw [Text.dropBeginning?_eq_some_iff] at htoken
    rw [htoken]
    unfold Text.startsWith
    rw [String.toList_append]
    rfl

namespace Document

variable (doc : Document)

/-- The moved pointer names this shared parameter. -/
def NamesParameter (pointer : String) (p : Parameter) : Prop :=
  ∃ name, Pointer.name? pointer p.area = some name ∧ doc.parameters.get? name = some p

/-- The moved pointer names this shared response. -/
def NamesResponse (pointer : String) (r : Response) : Prop :=
  ∃ name, Pointer.name? pointer "responses" = some name ∧ doc.responses.get? name = some r

/-- The same entry, or a pointer and the shared parameter that it names, of a certain kind. -/
def CopiedParameter (K : Parameter → Prop) (a b : Referable Parameter) : Prop :=
  a = b ∨ ∃ pointer p, a = .ref pointer ∧ b = .item p ∧ doc.NamesParameter pointer p ∧ K p

/-- The same entry, or a pointer and the shared response that it names, of a certain kind. -/
def CopiedResponse (L : Response → Prop) (a b : Referable Response) : Prop :=
  a = b ∨ ∃ pointer r, a = .ref pointer ∧ b = .item r ∧ doc.NamesResponse pointer r ∧ L r

/-- What the roles of an entry and of its copy are. -/
inductive CopiedRole (K : Parameter → Prop) : ParameterRole → ParameterRole → Prop where
  | same (role : ParameterRole) : CopiedRole K role role
  | body (pointer : String) (p : Parameter) (hname : doc.NamesParameter pointer p)
      (hlocation : p.location = "body") (hkind : K p) :
      CopiedRole K (.bodyPointer pointer) (.body p)
  | plain (pointer : String) (p : Parameter) (hname : doc.NamesParameter pointer p)
      (hbody : p.location ≠ "body") (hform : p.location ≠ "formData") :
      CopiedRole K (.plain (.ref pointer)) (.plain (.item p.upgrade))

variable {doc} {K : Parameter → Prop} {L : Response → Prop}

/-- What a pointer to a shared parameter is, by where that stands. -/
theorem role_of_namesParameter {pointer : String} {p : Parameter}
    (hnames : doc.NamesParameter pointer p) :
    doc.role (.ref pointer) =
      if p.location = "body" then .bodyPointer pointer
      else if p.location = "formData" then .field p
      else .plain (.ref pointer) := by
  obtain ⟨name, hname, hp⟩ := hnames
  rw [role_ref]
  by_cases hbody : p.location = "body"
  · rw [Parameter.area_of_body hbody] at hname
    rw [if_pos (OpenApi.Pointer.startsWith_of_name? hname), if_pos hbody]
  · rw [Parameter.area_of_ne_body hbody] at hname
    have hfield : doc.sharedFormField? pointer =
        if p.location = "formData" then some p else none := by
      simp only [sharedFormField?, hname, hp, Option.bind_eq_bind, Option.bind_some]
    rw [startsWith_requestBodies hname, if_neg Bool.false_ne_true, if_neg hbody, hfield]
    by_cases hform : p.location = "formData"
    · rw [if_pos hform, if_pos hform]
    · rw [if_neg hform, if_neg hform]

theorem role_copied {a b : Referable Parameter} (h : doc.CopiedParameter K a b) :
    doc.CopiedRole K (doc.role a) (doc.role b) := by
  rcases h with rfl | ⟨pointer, p, rfl, rfl, hnames, hK⟩
  · exact .same _
  · rw [role_of_namesParameter hnames, role_item]
    by_cases hbody : p.location = "body"
    · rw [if_pos hbody, if_pos hbody]
      exact .body pointer p hnames hbody hK
    · rw [if_neg hbody, if_neg hbody]
      by_cases hform : p.location = "formData"
      · rw [if_pos hform, if_pos hform]
        exact .same _
      · rw [if_neg hform, if_neg hform]
        exact .plain pointer p hnames hbody hform

variable (doc) in
/-- The same parameter of version 3, or a pointer and the upgrade of the shared parameter that it
names, which is neither a body nor a form field. -/
def UpgradedParameter (a b : Referable OpenApi.Parameter) : Prop :=
  a = b ∨ ∃ pointer p, a = .ref pointer ∧ b = .item p.upgrade ∧ doc.NamesParameter pointer p ∧
    p.location ≠ "body" ∧ p.location ≠ "formData"

theorem isInherited_copied {a b : Referable Parameter} (h : doc.CopiedParameter K a b) :
    doc.isInherited a = doc.isInherited b := by
  have hrole := role_copied h
  unfold isInherited
  generalize doc.role a = x at hrole
  generalize doc.role b = y at hrole
  cases hrole with
  | same => rfl
  | body => rfl
  | plain => rfl

theorem plainParameters_copied {ps qs : List (Referable Parameter)}
    (h : List.Forall₂ (doc.CopiedParameter K) ps qs) :
    List.Forall₂ doc.UpgradedParameter (doc.plainParameters ps) (doc.plainParameters qs) := by
  refine List.rel_filterMap (fun a b hab => ?_) h
  have hrole := role_copied hab
  generalize doc.role a = x at hrole
  generalize doc.role b = y at hrole
  cases hrole with
  | same =>
    cases x with
    | plain p => exact .some (.inl rfl)
    | bodyPointer pointer => exact .none
    | body p => exact .none
    | field p => exact .none
  | body => exact .none
  | plain pointer p hname hbody hform =>
    exact .some (.inr ⟨pointer, p, rfl, rfl, hname, hbody, hform⟩)

theorem nextFields_copied {a b : Referable Parameter} (h : doc.CopiedParameter K a b)
    (fields : List Parameter) : doc.nextFields fields a = doc.nextFields fields b := by
  have hrole := role_copied h
  unfold nextFields
  generalize doc.role a = x at hrole
  generalize doc.role b = y at hrole
  cases hrole with
  | same => rfl
  | body => rfl
  | plain => rfl

theorem formFields_copied {ps qs : List (Referable Parameter)}
    (h : List.Forall₂ (doc.CopiedParameter K) ps qs) : doc.formFields ps = doc.formFields qs := by
  rw [formFields_eq, formFields_eq]
  suffices hfold : ∀ fields, ps.foldl doc.nextFields fields = qs.foldl doc.nextFields fields from
    hfold []
  induction h with
  | nil => exact fun fields => rfl
  | cons hab _ ih =>
    intro fields
    rw [List.foldl_cons, List.foldl_cons, nextFields_copied hab, ih]

/-! ## Bodies -/

variable (doc) in
/-- The same body, or a pointer and the upgrade of the shared body that it names. -/
def CopiedBody (K : Parameter → Prop) (consumes : List String)
    (a b : Option (Referable RequestBody)) : Prop :=
  a = b ∨ ∃ pointer p body, a = some (.ref pointer) ∧ b = some (.item body) ∧
    doc.NamesParameter pointer p ∧ p.location = "body" ∧ K p ∧ p.upgradeBody consumes = .ok body

/-- The shared bodies of a document that can be upgraded have a schema, so each can be upgraded
under any media types. -/
theorem exists_upgradeBody {components : OpenApi.Components} (hc : doc.components = .ok components)
    {pointer : String} {p : Parameter} (h : doc.NamesParameter pointer p)
    (hbody : p.location = "body") (consumes : List String) :
    ∃ body, p.upgradeBody consumes = .ok body := by
  obtain ⟨bodies, -, hbodies, -, -⟩ := components_eq_ok_iff.1 hc
  obtain ⟨name, -, hp⟩ := h
  have hmem : (name, p) ∈ doc.bodyParameters :=
    List.mem_filter.2 ⟨(Dict.mem_entries _).2 hp, by simpa using hbody⟩
  obtain ⟨shared, hshared⟩ := exists_of_mem_upgradeEntries_input hbodies hmem
  unfold Parameter.upgradeBody at hshared ⊢
  cases hschema : p.schema with
  | none =>
    rw [hschema] at hshared
    cases hshared
  | some schema => exact ⟨_, rfl⟩

/-- Whatever the bodies before an entry are, those after it are copies of each other again. -/
theorem nextBody_copied {components : OpenApi.Components} (hc : doc.components = .ok components)
    {consumes : List String} {a b : Referable Parameter} (h : doc.CopiedParameter K a b)
    {x y next : Option (Referable RequestBody)} (hxy : doc.CopiedBody K consumes x y)
    (hnext : doc.nextBody consumes x a = .ok next) :
    ∃ next', doc.nextBody consumes y b = .ok next' ∧ doc.CopiedBody K consumes next next' := by
  have hrole := role_copied h
  unfold nextBody at hnext ⊢
  generalize doc.role a = r at hrole hnext
  generalize doc.role b = r' at hrole
  cases hrole with
  | same =>
    cases r with
    | bodyPointer pointer => exact ⟨next, hnext, .inl rfl⟩
    | body p => exact ⟨next, hnext, .inl rfl⟩
    | field p =>
      cases hnext
      exact ⟨y, rfl, hxy⟩
    | plain p =>
      cases hnext
      exact ⟨y, rfl, hxy⟩
  | body pointer p hname hlocation hK =>
    cases hnext
    obtain ⟨body, hbody⟩ := exists_upgradeBody hc hname hlocation consumes
    exact ⟨some (.item body), congrArg (Except.map _) hbody,
      .inr ⟨pointer, p, body, rfl, rfl, hname, hlocation, hK, hbody⟩⟩
  | plain pointer p hname hbody hform =>
    cases hnext
    exact ⟨y, rfl, hxy⟩

theorem explicitBody_copied {components : OpenApi.Components}
    (hc : doc.components = .ok components) {consumes : List String}
    {ps qs : List (Referable Parameter)} (h : List.Forall₂ (doc.CopiedParameter K) ps qs)
    {x : Option (Referable RequestBody)} (hx : doc.explicitBody consumes ps = .ok x) :
    ∃ y, doc.explicitBody consumes qs = .ok y ∧ doc.CopiedBody K consumes x y := by
  rw [explicitBody_eq] at hx ⊢
  suffices hfold : ∀ s t : Option (Referable RequestBody), doc.CopiedBody K consumes s t →
      ps.foldlM (doc.nextBody consumes) s = .ok x →
      ∃ y, qs.foldlM (doc.nextBody consumes) t = .ok y ∧ doc.CopiedBody K consumes x y from
    hfold none none (.inl rfl) hx
  clear hx
  induction h with
  | nil =>
    intro s t hst hs
    cases hs
    exact ⟨t, rfl, hst⟩
  | cons hab _ ih =>
    intro s t hst hs
    rw [List.foldlM_cons] at hs ⊢
    obtain ⟨next, hnext, hs⟩ := exists_of_bind_eq_ok hs
    obtain ⟨next', hnext', hcopied⟩ := nextBody_copied hc hab hst hnext
    rw [hnext']
    exact ih next next' hcopied hs

theorem requestBody_copied {components : OpenApi.Components}
    (hc : doc.components = .ok components) {consumes : List String}
    {ps qs : List (Referable Parameter)} (h : List.Forall₂ (doc.CopiedParameter K) ps qs)
    {x : Option (Referable RequestBody)} (hx : doc.requestBody consumes ps = .ok x) :
    ∃ y, doc.requestBody consumes qs = .ok y ∧ doc.CopiedBody K consumes x y := by
  obtain ⟨explicit, hexplicit, hx⟩ := exists_of_bind_eq_ok hx
  obtain ⟨explicit', hexplicit', hcopied⟩ := explicitBody_copied hc h hexplicit
  unfold requestBody
  rw [hexplicit', ← formFields_copied h]
  rcases hcopied with rfl | ⟨pointer, p, body, rfl, rfl, hcopied⟩
  · exact ⟨x, hx, .inl rfl⟩
  · cases hx
    exact ⟨some (.item body), rfl, .inr ⟨pointer, p, body, rfl, rfl, hcopied⟩⟩

end Document

end ApiFolio.Swagger

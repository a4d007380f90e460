import ApiFolio.Proofs.Dict.Related
import ApiFolio.Swagger.Upgrade

/-!
# What the upgrade gives

Each function of the upgrade that may fail is described once here, by what it gives when it ends
well. Everything that is said of upgraded documents is taken from these descriptions.
-/

namespace ApiFolio.Swagger

open OpenApi (Referable Verb)

/-! ## Computations that end well -/

/-- What comes out of a computation that ends well comes out of its first step, which ends well,
and of the rest. -/
theorem exists_of_bind_eq_ok {ε α β : Type} {x : Except ε α} {f : α → Except ε β} {y : β}
    (h : (x >>= f) = .ok y) : ∃ a, x = .ok a ∧ f a = .ok y := by
  cases x with
  | error e => cases h
  | ok a => exact ⟨a, rfl, h⟩

theorem exists_of_map_eq_ok {ε α β : Type} {x : Except ε α} {f : α → β} {y : β}
    (h : x.map f = .ok y) : ∃ a, x = .ok a ∧ f a = y := by
  cases x with
  | error e => cases h
  | ok a => exact ⟨a, rfl, Except.ok.inj h⟩

/-! ## Entries -/

section Entries

variable {α β : Type} {f : String → α → Except UpgradeError β}

theorem upgradeEntries_eq_ok_iff {entries : List (String × α)} {out : List (String × β)} :
    upgradeEntries f entries = .ok out ↔
      List.Forall₂ (fun e g => e.1 = g.1 ∧ f e.1 e.2 = .ok g.2) entries out := by
  constructor
  · intro h
    induction entries generalizing out with
    | nil =>
      cases h
      exact .nil
    | cons e rest ih =>
      obtain ⟨y, hy, h⟩ := exists_of_bind_eq_ok h
      obtain ⟨ys, hys, h⟩ := exists_of_bind_eq_ok h
      cases h
      exact .cons ⟨rfl, hy⟩ (ih hys)
  · intro h
    induction h with
    | nil => rfl
    | @cons e g _ _ heg _ ih =>
      obtain ⟨key, x⟩ := e
      obtain ⟨key', y⟩ := g
      obtain ⟨rfl, hy⟩ := heg
      unfold upgradeEntries
      rw [hy, ih]
      rfl

theorem exists_of_mem_upgradeEntries {entries : List (String × α)} {out : List (String × β)}
    (h : upgradeEntries f entries = .ok out) {e : String × β} (he : e ∈ out) :
    ∃ x, (e.1, x) ∈ entries ∧ f e.1 x = .ok e.2 := by
  have hforall := upgradeEntries_eq_ok_iff.1 h
  clear h
  induction hforall with
  | nil => cases he
  | @cons d g _ _ hdg _ ih =>
    rcases List.mem_cons.1 he with rfl | he
    · obtain ⟨hkey, hy⟩ := hdg
      rw [← hkey]
      exact ⟨d.2, List.mem_cons_self, hy⟩
    · obtain ⟨x, hx, hy⟩ := ih he
      exact ⟨x, List.mem_cons_of_mem _ hx, hy⟩

theorem exists_of_mem_upgradeEntries_input {entries : List (String × α)} {out : List (String × β)}
    (h : upgradeEntries f entries = .ok out) {e : String × α} (he : e ∈ entries) :
    ∃ y, f e.1 e.2 = .ok y := by
  have hforall := upgradeEntries_eq_ok_iff.1 h
  clear h
  induction hforall with
  | nil => cases he
  | @cons d g _ _ hdg _ ih =>
    rcases List.mem_cons.1 he with rfl | he
    · exact ⟨g.2, hdg.2⟩
    · exact ih he

theorem upgradeEntries_related {A : α → α → Prop} {B : β → β → Prop}
    (hf : ∀ key x y u, A x y → f key x = .ok u → ∃ v, f key y = .ok v ∧ B u v)
    {a b : List (String × α)} (h : Entries.Related A a b) {out : List (String × β)}
    (hout : upgradeEntries f a = .ok out) :
    ∃ out', upgradeEntries f b = .ok out' ∧ Entries.Related B out out' := by
  have hforall := upgradeEntries_eq_ok_iff.1 hout
  clear hout
  induction hforall generalizing b with
  | nil =>
    cases h
    exact ⟨[], rfl, .nil⟩
  | @cons d g _ _ hdg _ ih =>
    obtain ⟨key, x⟩ := d
    cases h with
    | @cons _ e _ _ hde hrest =>
      obtain ⟨key', y⟩ := e
      obtain ⟨rfl, hxy⟩ := hde
      obtain ⟨out', hout', hrel⟩ := ih hrest
      obtain ⟨v, hv, huv⟩ := hf key x y g.2 hxy hdg.2
      exact ⟨(key, v) :: out',
        upgradeEntries_eq_ok_iff.2 (.cons ⟨rfl, hv⟩ (upgradeEntries_eq_ok_iff.1 hout')),
        .cons ⟨hdg.1.symm, huv⟩ hrel⟩

theorem keys_upgradeEntries {entries : List (String × α)} {out : List (String × β)}
    (h : upgradeEntries f entries = .ok out) : out.map (·.1) = entries.map (·.1) := by
  have hforall := upgradeEntries_eq_ok_iff.1 h
  clear h
  induction hforall with
  | nil => rfl
  | cons hdg _ ih => rw [List.map_cons, List.map_cons, hdg.1, ih]

theorem get?_upgradeEntries {entries : List (String × α)} {out : List (String × β)}
    (h : upgradeEntries f entries = .ok out) {key : String} {x : α}
    (hx : Entries.get? key entries = some x) :
    ∃ y, f key x = .ok y ∧ Entries.get? key out = some y := by
  have hforall := upgradeEntries_eq_ok_iff.1 h
  clear h
  induction hforall with
  | nil => cases hx
  | @cons d g _ _ hdg _ ih =>
    obtain ⟨k, z⟩ := d
    obtain ⟨k', y⟩ := g
    obtain ⟨rfl, hy⟩ := hdg
    rw [Entries.get?_cons] at hx ⊢
    split at hx
    · rename_i hk
      subst hk
      cases hx
      exact ⟨y, hy, if_pos rfl⟩
    · rename_i hk
      rw [if_neg hk]
      exact ih hx

end Entries

/-! ## Operations and path items -/

/-- The operation of a verb; there is none for tracing. -/
def PathItem.operation? (x : PathItem) : Verb → Option Operation
  | .get => x.get
  | .put => x.put
  | .post => x.post
  | .delete => x.delete
  | .options => x.options
  | .head => x.head
  | .patch => x.patch
  | .trace => none

theorem PathItem.mem_operations_iff {x : PathItem} {op : Operation} :
    op ∈ x.operations ↔ ∃ verb, x.operation? verb = some op := by
  constructor
  · intro h
    obtain ⟨o, ho, hop⟩ := List.mem_filterMap.1 h
    cases hop
    simp only [List.mem_cons, List.not_mem_nil, or_false] at ho
    rcases ho with heq | heq | heq | heq | heq | heq | heq
    · exact ⟨.get, heq.symm⟩
    · exact ⟨.put, heq.symm⟩
    · exact ⟨.post, heq.symm⟩
    · exact ⟨.delete, heq.symm⟩
    · exact ⟨.options, heq.symm⟩
    · exact ⟨.head, heq.symm⟩
    · exact ⟨.patch, heq.symm⟩
  · rintro ⟨verb, hop⟩
    refine List.mem_filterMap.2 ⟨x.operation? verb, ?_, hop⟩
    cases verb with
    | trace => cases hop
    | _ => simp [operation?]

namespace Document

variable {doc : Document}

/-- A response or a pointer to one, upgraded. -/
def upgradeResponse (produces : List String) : Referable Response → Referable OpenApi.Response
  | .ref pointer => .ref pointer
  | .item r => .item (r.upgrade produces)

/-- What upgrading an operation gives: its body, the parameters that stay ones, and its
responses. -/
theorem upgradeOperation_eq_ok_iff {inherited : List (Referable Parameter)} {op : Operation}
    {x : OpenApi.Operation} :
    doc.upgradeOperation inherited op = .ok x ↔
      ∃ body, doc.requestBody (mediaTypes op.consumes doc.consumes) (inherited ++ op.parameters) =
          .ok body ∧
        x = {
          tags := op.tags, summary := op.summary, description := op.description,
          externalDocs := op.externalDocs, operationId := op.operationId,
          parameters := doc.plainParameters (inherited ++ op.parameters), requestBody := body,
          responses := op.responses.map (upgradeResponse (mediaTypes op.produces doc.produces)),
          deprecated := op.deprecated, security := op.security } := by
  constructor
  · intro h
    obtain ⟨body, hbody, h⟩ := exists_of_bind_eq_ok h
    cases h
    exact ⟨body, hbody, rfl⟩
  · rintro ⟨body, hbody, rfl⟩
    unfold upgradeOperation
    simp only [hbody]
    rfl

/-- What upgrading a path item gives: the upgrade of each operation, and the parameters that stay
ones. -/
theorem upgradePathItem_eq_ok_iff {item : PathItem} {u : OpenApi.PathItem} :
    doc.upgradePathItem item = .ok u ↔
      (∀ verb, doc.upgradeOperation? (item.parameters.filter doc.isInherited)
        (item.operation? verb) = .ok (u.operation? verb)) ∧
      u = { u with
        summary := none, description := none, servers := [], trace := none,
        parameters := doc.plainParameters item.parameters } := by
  constructor
  · intro h
    obtain ⟨get, hget, h⟩ := exists_of_bind_eq_ok h
    obtain ⟨put, hput, h⟩ := exists_of_bind_eq_ok h
    obtain ⟨post, hpost, h⟩ := exists_of_bind_eq_ok h
    obtain ⟨delete, hdelete, h⟩ := exists_of_bind_eq_ok h
    obtain ⟨options, hoptions, h⟩ := exists_of_bind_eq_ok h
    obtain ⟨head, hhead, h⟩ := exists_of_bind_eq_ok h
    obtain ⟨patch, hpatch, h⟩ := exists_of_bind_eq_ok h
    cases h
    refine ⟨fun verb => ?_, rfl⟩
    cases verb with
    | get => exact hget
    | put => exact hput
    | post => exact hpost
    | delete => exact hdelete
    | options => exact hoptions
    | head => exact hhead
    | patch => exact hpatch
    | trace => rfl
  · rintro ⟨h, hu⟩
    have hget : doc.upgradeOperation? _ item.get = .ok u.get := h .get
    have hput : doc.upgradeOperation? _ item.put = .ok u.put := h .put
    have hpost : doc.upgradeOperation? _ item.post = .ok u.post := h .post
    have hdelete : doc.upgradeOperation? _ item.delete = .ok u.delete := h .delete
    have hoptions : doc.upgradeOperation? _ item.options = .ok u.options := h .options
    have hhead : doc.upgradeOperation? _ item.head = .ok u.head := h .head
    have hpatch : doc.upgradeOperation? _ item.patch = .ok u.patch := h .patch
    unfold upgradePathItem
    simp only [hget, hput, hpost, hdelete, hoptions, hhead, hpatch]
    rw [hu]
    rfl

/-! ## Documents -/

/-- What upgrading the reusable parts gives. -/
theorem components_eq_ok_iff {out : OpenApi.Components} :
    doc.components = .ok out ↔ ∃ bodies schemes,
      upgradeEntries (fun _ p => p.upgradeBody (mediaTypes [] doc.consumes)) doc.bodyParameters =
        .ok bodies ∧
      upgradeEntries SecurityScheme.upgrade doc.securityDefinitions.entries = .ok schemes ∧
      out = {
        schemas := doc.definitions
        responses := doc.responses.map fun r => .item (r.upgrade (mediaTypes [] doc.produces))
        parameters :=
          Dict.ofList (Entries.mapValues (fun p => .item p.upgrade) doc.plainSharedParameters)
        requestBodies := Dict.ofList (Entries.mapValues .item bodies)
        securitySchemes := Dict.ofList (Entries.mapValues .item schemes) } := by
  constructor
  · intro h
    obtain ⟨bodies, hbodies, h⟩ := exists_of_bind_eq_ok h
    obtain ⟨schemes, hschemes, h⟩ := exists_of_bind_eq_ok h
    cases h
    exact ⟨bodies, schemes, hbodies, hschemes, rfl⟩
  · rintro ⟨bodies, schemes, hbodies, hschemes, rfl⟩
    unfold components
    simp only [hbodies, hschemes]
    rfl

/-- What upgrading a document gives. -/
theorem upgrade_eq_ok_iff {out : OpenApi.Document} :
    doc.upgrade = .ok out ↔ ∃ paths components,
      upgradeEntries (fun _ item => doc.upgradePathItem item) doc.paths.entries = .ok paths ∧
      doc.components = .ok components ∧
      out = {
        openapi := upgradedVersion, info := doc.info, servers := doc.servers,
        paths := Dict.ofList paths, components := some components, security := doc.security,
        tags := doc.tags, externalDocs := doc.externalDocs,
        extensions := doc.upgradedExtensions } := by
  constructor
  · intro h
    obtain ⟨paths, hpaths, h⟩ := exists_of_bind_eq_ok h
    obtain ⟨components, hcomponents, h⟩ := exists_of_bind_eq_ok h
    cases h
    exact ⟨paths, components, hpaths, hcomponents, rfl⟩
  · rintro ⟨paths, components, hpaths, hcomponents, rfl⟩
    unfold upgrade
    rw [hpaths, hcomponents]
    rfl

/-- What an upgraded document has under the path of a path item. -/
theorem get?_paths_upgrade {out : OpenApi.Document} (hout : doc.upgrade = .ok out) {path : String}
    {item : PathItem} (hitem : doc.paths.get? path = some item) :
    ∃ u, doc.upgradePathItem item = .ok u ∧ out.paths.get? path = some u := by
  obtain ⟨paths, components, hpaths, -, rfl⟩ := upgrade_eq_ok_iff.1 hout
  obtain ⟨u, hu, hget⟩ := get?_upgradeEntries hpaths hitem
  refine ⟨u, hu, ?_⟩
  show Entries.get? path (Entries.sort paths) = some u
  rw [Entries.sort_of_sorted (doc.paths.sorted.of_keys (keys_upgradeEntries hpaths)), hget]

end Document

end ApiFolio.Swagger

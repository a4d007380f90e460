import Mathlib.Data.List.Induction
import ApiFolio.Proofs.Swagger.Copied

/-!
# Kinds of entries

An entry of a parameter list is a body, a form field or neither, by where it stands or by where the
parameter stands that it points at; the upgrade goes by this (`kindOf`). The entries that are
neither stay parameters (`plainParameters_eq`), and of the form fields the last of each name makes
it into the form (`mem_formFields_iff`).
-/

namespace ApiFolio.Swagger

open OpenApi (Referable Pointer.areaRoot)

/-! ## Kinds -/

/-- An entry is a body: it stands in the body, or it points into the request bodies. -/
def IsBody : Referable Parameter → Prop
  | .ref pointer => Text.startsWith (Pointer.areaRoot "requestBodies") pointer = true
  | .item p => p.location = "body"

instance : DecidablePred IsBody
  | .ref pointer => inferInstanceAs (Decidable (Text.startsWith _ pointer = true))
  | .item p => inferInstanceAs (Decidable (p.location = "body"))

/-- An entry that stays a parameter, in version 3. -/
def upgradedEntry : Referable Parameter → Referable OpenApi.Parameter
  | .ref pointer => .ref pointer
  | .item p => .item p.upgrade

namespace Document

variable (doc : Document)

/-- The form field that an entry is: the parameter at hand, or the shared one that is pointed at, if
it stands in a form. -/
def field? : Referable Parameter → Option Parameter
  | .ref pointer => doc.sharedFormField? pointer
  | .item p => if p.location = "formData" then some p else none

/-- An entry is neither a body nor a form field. -/
def IsOther (q : Referable Parameter) : Prop := ¬IsBody q ∧ doc.field? q = none

instance : DecidablePred doc.IsOther := fun q =>
  inferInstanceAs (Decidable (¬IsBody q ∧ doc.field? q = none))

/-- What the roles of entries are, by their kinds. -/
inductive KindOf : Referable Parameter → ParameterRole → Prop where
  | bodyPointer (pointer : String) (h : IsBody (.ref pointer)) :
      KindOf (.ref pointer) (.bodyPointer pointer)
  | body (p : Parameter) (h : IsBody (.item p)) : KindOf (.item p) (.body p)
  | field (q : Referable Parameter) (f : Parameter) (h : doc.field? q = some f)
      (hbody : ¬IsBody q) : KindOf q (.field f)
  | other (q : Referable Parameter) (h : doc.IsOther q) : KindOf q (.plain (upgradedEntry q))

theorem kindOf (q : Referable Parameter) : doc.KindOf q (doc.role q) := by
  cases q with
  | ref pointer =>
    rw [role_ref]
    split
    · rename_i hbody
      exact .bodyPointer pointer hbody
    · rename_i hbody
      split
      · rename_i f hf
        exact .field _ f hf hbody
      · rename_i hnone
        exact .other _ ⟨hbody, hnone⟩
  | item p =>
    rw [role_item]
    split
    · rename_i hbody
      exact .body p hbody
    · rename_i hbody
      split
      · rename_i hform
        exact .field _ p (if_pos hform) hbody
      · rename_i hform
        exact .other _ ⟨hbody, if_neg hform⟩

variable {doc} {q : Referable Parameter} {ps : List (Referable Parameter)} {f : Parameter}

/-- No entry is a body and a form field. -/
theorem field?_of_isBody (h : IsBody q) : doc.field? q = none := by
  cases q with
  | ref pointer =>
    have h : Text.startsWith (Pointer.areaRoot "requestBodies") pointer = true := h
    show doc.sharedFormField? pointer = none
    cases hname : OpenApi.Pointer.name? pointer "parameters" with
    | none => simp only [sharedFormField?, hname, Option.bind_eq_bind, Option.bind_none]
    | some name =>
      rw [startsWith_requestBodies hname] at h
      cases h
  | item p =>
    have h : p.location = "body" := h
    refine if_neg ?_
    rw [h]
    decide

/-- Of which kind the pointer to a shared parameter is, by where that stands. -/
theorem kind_of_namesParameter {pointer : String} {p : Parameter}
    (h : doc.NamesParameter pointer p) :
    (IsBody (.ref pointer) ↔ p.location = "body") ∧
      doc.field? (.ref pointer) = if p.location = "formData" then some p else none := by
  have hkind := doc.kindOf (.ref pointer)
  rw [role_of_namesParameter h] at hkind
  by_cases hbody : p.location = "body"
  · rw [if_pos hbody] at hkind
    rw [if_neg (by rw [hbody]; decide)]
    cases hkind with
    | bodyPointer _ hpointer =>
      exact ⟨iff_of_true hpointer hbody, field?_of_isBody hpointer⟩
  · rw [if_neg hbody] at hkind
    by_cases hform : p.location = "formData"
    · rw [if_pos hform] at hkind ⊢
      cases hkind with
      | field _ _ hfield hpointer => exact ⟨iff_of_false hpointer hbody, hfield⟩
    · rw [if_neg hform] at hkind ⊢
      cases hkind with
      | other _ hother => exact ⟨iff_of_false hother.1 hbody, hother.2⟩

/-- A pointer that stays a parameter was one before. -/
theorem eq_ref_of_role_plain {pointer : String} (h : doc.role q = .plain (.ref pointer)) :
    q = .ref pointer := by
  have hkind := doc.kindOf q
  generalize doc.role q = role at h hkind
  cases hkind with
  | bodyPointer => cases h
  | body => cases h
  | field => cases h
  | other q =>
    cases q with
    | ref pointer' =>
      cases h
      rfl
    | item p => cases h

/-- A pointer to a body goes into the request bodies. -/
theorem startsWith_of_role_bodyPointer {pointer : String}
    (h : doc.role q = .bodyPointer pointer) :
    Text.startsWith (Pointer.areaRoot "requestBodies") pointer = true := by
  have hkind := doc.kindOf q
  generalize doc.role q = role at h hkind
  cases hkind with
  | bodyPointer pointer' hbody =>
    cases h
    exact hbody
  | body => cases h
  | field => cases h
  | other => cases h

theorem isInherited_eq (q : Referable Parameter) : doc.isInherited q = !decide (doc.IsOther q) := by
  have hkind := doc.kindOf q
  unfold isInherited
  generalize doc.role q = role at hkind
  cases hkind with
  | bodyPointer pointer h => simp [IsOther, h]
  | body p h => simp [IsOther, h]
  | field q f h hbody => simp [IsOther, h]
  | other q h => simp [h]

/-! ## Parameters -/

variable (doc) in
/-- The entries that are neither bodies nor form fields, in version 3. -/
def otherEntries (ps : List (Referable Parameter)) : List (Referable OpenApi.Parameter) :=
  (ps.filter fun q => doc.IsOther q).map upgradedEntry

theorem plainParameters_eq (ps : List (Referable Parameter)) :
    doc.plainParameters ps = doc.otherEntries ps := by
  unfold plainParameters otherEntries
  rw [← List.filterMap_eq_map, List.filterMap_filter]
  refine List.filterMap_congr fun q _ => ?_
  have hkind := doc.kindOf q
  generalize doc.role q = role at hkind
  cases hkind with
  | bodyPointer pointer h => simp [IsOther, h]
  | body p h => simp [IsOther, h]
  | field q f h hbody => simp [IsOther, h]
  | other q h => simp [h]

/-! ## Form fields -/

/-- The last of the fields of its name. -/
def IsLastField (f : Parameter) (fields : List Parameter) : Prop :=
  (fields.filter fun g => g.name = f.name).getLast? = some f

theorem IsLastField.mem {fields : List Parameter} (h : IsLastField f fields) : f ∈ fields :=
  (List.mem_filter.1 (List.mem_of_getLast? h)).1

theorem isLastField_append_iff {g : Parameter} {fields : List Parameter} :
    IsLastField f (fields ++ [g]) ↔ f = g ∨ IsLastField f fields ∧ f.name ≠ g.name := by
  unfold IsLastField
  rw [List.filter_append, List.getLast?_append]
  by_cases h : g.name = f.name
  · simp [h, eq_comm]
  · have hname : f.name ≠ g.name := fun heq => h heq.symm
    have hne : f ≠ g := fun heq => h (heq ▸ rfl)
    simp [h, hname, hne]

/-- Every name of a field is that of a last one. -/
theorem exists_isLastField {fields : List Parameter} (h : f ∈ fields) :
    ∃ g, IsLastField g fields ∧ g.name = f.name := by
  have hmem : f ∈ fields.filter fun g => g.name = f.name :=
    List.mem_filter.2 ⟨h, decide_eq_true rfl⟩
  have hlast := List.getLast?_eq_some_getLast (List.ne_nil_of_mem hmem)
  have hname := of_decide_eq_true (List.mem_filter.1 (List.mem_of_getLast? hlast)).2
  refine ⟨_, ?_, hname⟩
  unfold IsLastField
  rw [hname, hlast]

/-- The fields after one more, which takes the place of those of its name. -/
def nextField (fields : List Parameter) (f : Parameter) : List Parameter :=
  (fields.filter fun g => g.name ≠ f.name) ++ [f]

variable (doc) in
/-- The form fields among the entries. -/
def fieldEntries (ps : List (Referable Parameter)) : List Parameter := ps.filterMap doc.field?

theorem formFields_eq_foldl (ps : List (Referable Parameter)) :
    doc.formFields ps = (doc.fieldEntries ps).foldl nextField [] := by
  rw [formFields_eq, fieldEntries, List.foldl_filterMap]
  congr 1
  funext fields q
  have hkind := doc.kindOf q
  unfold nextFields
  generalize doc.role q = role at hkind
  cases hkind with
  | bodyPointer pointer h => rw [field?_of_isBody h]
  | body p h => rw [field?_of_isBody h]
  | field q f h hbody =>
    rw [h]
    rfl
  | other q h => rw [h.2]

theorem mem_foldl_nextField_iff {fields : List Parameter} :
    f ∈ fields.foldl nextField [] ↔ IsLastField f fields := by
  induction fields using List.reverseRecOn with
  | nil => simp [IsLastField]
  | append_singleton fields g ih =>
    rw [List.foldl_append, List.foldl_cons, List.foldl_nil, isLastField_append_iff, ← ih, nextField,
      List.mem_append, List.mem_filter, List.mem_singleton, decide_eq_true_iff]
    exact Or.comm

theorem nodup_names_foldl_nextField (fields : List Parameter) :
    ((fields.foldl nextField []).map (·.name)).Nodup := by
  induction fields using List.reverseRecOn with
  | nil => exact List.nodup_nil
  | append_singleton fields g ih =>
    rw [List.foldl_append, List.foldl_cons, List.foldl_nil, nextField, List.map_append,
      List.map_singleton]
    refine List.nodup_append.2 ⟨ih.sublist (List.filter_sublist.map _),
      List.pairwise_singleton _ _, fun name hname name' hname' => ?_⟩
    obtain ⟨f, hf, rfl⟩ := List.mem_map.1 hname
    rw [List.mem_singleton.1 hname']
    exact of_decide_eq_true (List.mem_filter.1 hf).2

theorem mem_formFields_iff : f ∈ doc.formFields ps ↔ IsLastField f (doc.fieldEntries ps) := by
  rw [formFields_eq_foldl, mem_foldl_nextField_iff]

theorem nodup_names_formFields (ps : List (Referable Parameter)) :
    ((doc.formFields ps).map (·.name)).Nodup := by
  rw [formFields_eq_foldl]
  exact nodup_names_foldl_nextField _

theorem formFields_eq_nil_iff : doc.formFields ps = [] ↔ doc.fieldEntries ps = [] := by
  simp only [List.eq_nil_iff_forall_not_mem, mem_formFields_iff]
  constructor
  · intro h f hf
    obtain ⟨g, hg, -⟩ := exists_isLastField hf
    exact h g hg
  · intro h f hf
    exact h f hf.mem

end Document

end ApiFolio.Swagger

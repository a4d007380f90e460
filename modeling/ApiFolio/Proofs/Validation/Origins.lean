import ApiFolio.Proofs.Validation.PathParameters

/-!
# Which check an issue comes from

Most checks look at one part of a document at a time, and what they say starts in one of a few ways
(`commonBeginnings`). The checks that compare the parts of a document start what they say in other
ways: those of path parameters, of identifiers and of pointers. So the beginning of an issue tells
which of them it comes from (`across_of_startsWith`).
-/

namespace ApiFolio.Validation

open OpenApi

/-! ## Checks of one part -/

/-- How the checks of one part of a document start what they say. -/
def commonBeginnings : List String :=
  ["must not be empty", "parameter ", "required must list ", "unsupported version ",
    "path must begin with ", "operation declares "]

/-- Issues that the checks of one part tell. -/
def Common (issues : List Issue) : Prop :=
  ∀ issue ∈ issues, ∃ beginning ∈ commonBeginnings,
    Text.startsWith beginning issue.message = true

namespace Common

theorem nil : Common [] := fun _ h => absurd h List.not_mem_nil

theorem singleton {location message : String} (beginning : String)
    (hbeginning : beginning ∈ commonBeginnings)
    (h : Text.startsWith beginning message = true) : Common [⟨location, message⟩] := by
  intro issue hissue
  rw [List.mem_singleton.1 hissue]
  exact ⟨beginning, hbeginning, h⟩

theorem append {a b : List Issue} (ha : Common a) (hb : Common b) : Common (a ++ b) := by
  intro issue h
  rcases List.mem_append.1 h with h | h
  · exact ha issue h
  · exact hb issue h

theorem flatMap {α : Type} {xs : List α} {f : α → List Issue} (h : ∀ x, Common (f x)) :
    Common (xs.flatMap f) := by
  intro issue hissue
  obtain ⟨x, -, hx⟩ := List.mem_flatMap.1 hissue
  exact h x issue hx

theorem ite {p : Prop} [Decidable p] {a b : List Issue} (ha : Common a) (hb : Common b) :
    Common (if p then a else b) := by
  split
  · exact ha
  · exact hb

end Common

theorem common_expectContent (location text : String) : Common (expectContent location text) :=
  .ite (.singleton "must not be empty" (by decide) (by decide)) .nil

theorem common_parameter (location : String) (p : Parameter) : Common (parameter location p) := by
  refine .append (.ite (.singleton "parameter " (by decide) (by decide)) .nil) (.ite .nil ?_)
  refine .singleton "parameter " (by decide) ?_
  rw [String.append_assoc, String.append_assoc]
  exact Text.startsWith_append _ _

theorem common_parameters (location : String) (ps : List (Referable Parameter)) :
    Common (parameters location ps) :=
  .flatMap fun p => by
    cases p.1 with
    | ref pointer => exact .nil
    | item x => exact common_parameter _ x

theorem common_schema (location : String) (s : Schema) : Common (schema location s) :=
  .flatMap fun inner => by
    cases inner.required with
    | none => exact .nil
    | some required =>
      refine .ite .nil (.singleton "required must list " (by decide) ?_)
      exact Text.startsWith_append _ ("property names, found " ++ required.compact)

theorem common_path (key : String) (item : PathItem) : Common (path key item) :=
  .append (.ite .nil (.singleton "path must begin with " (by decide) (by decide)))
    (common_parameters _ _)

theorem common_components (c : Components) : Common (components c) := by
  refine .append (.append (.flatMap fun e => common_schema _ e.2) (.flatMap fun e => ?_))
    (.flatMap fun e => ?_)
  · cases e.2 with
    | ref pointer => exact .nil
    | item p => exact common_parameter _ p
  · cases e.2 with
    | ref pointer => exact .nil
    | item s => exact common_expectContent _ s.type

theorem common_head (doc : Document) : Common (head doc) := by
  refine .append (.append (.append (.append (.ite .nil ?_) (common_expectContent _ _))
    (common_expectContent _ _)) (.flatMap fun s => common_expectContent _ s.1.url))
    (.flatMap fun t => common_expectContent _ t.1.name)
  refine .singleton "unsupported version " (by decide) ?_
  rw [String.append_assoc]
  exact Text.startsWith_append _ _

/-! ## Checks across a document -/

/-- The issues of all checks but that of the pointers. -/
def issuesBeforePointers (doc : Document) : List Issue :=
  head doc ++ paths doc.components [] doc.paths.entries ++ (doc.components.map components).getD []

theorem document_eq_append (doc : Document) :
    document doc = issuesBeforePointers doc ++ pointers doc := rfl

/-- What is said of an operation whose identifier has another use. -/
def identifierIssue (x : Located) (id place : String) : Issue :=
  ⟨x.location, "operationId " ++ Text.quoted id ++ " already used by " ++ place⟩

/-- Where an issue comes from that is not about a pointer. -/
inductive Origin (doc : Document) (issue : Issue) : Prop where
  /-- A check of one part. -/
  | common (h : Common [issue])
  /-- The check of the parameters of an operation in the path. -/
  | pathParameters {x : Located} (hx : x ∈ documentOperations doc)
    (h : issue ∈ pathParameters doc.components x)
  /-- The check of the identifier of an operation. -/
  | identifier {x : Located} {id place : String} (hx : x ∈ documentOperations doc)
    (hid : x.operation.operationId = some id) (h : issue = identifierIssue x id place)

namespace Origin

variable {doc : Document} {issue : Issue}

theorem of_common {issues : List Issue} (hcommon : Common issues) (h : issue ∈ issues) :
    Origin doc issue :=
  .common fun i hi => hcommon i (List.mem_singleton.1 hi ▸ h)

theorem of_mem_operation {previous : Option String} {x : Located}
    (hx : x ∈ documentOperations doc) (h : issue ∈ operation doc.components previous x) :
    Origin doc issue := by
  unfold operation at h
  simp only [List.mem_append] at h
  rcases h with (((h | h) | h) | h) | h
  · exact of_common (common_parameters _ _) h
  · exact of_common (.ite (.singleton "operation declares " (by decide) (by decide)) .nil) h
  · split at h
    · rename_i id place hid
      exact .identifier hx hid (List.mem_singleton.1 h)
    · cases h
  · exact .pathParameters hx h
  · exact of_common (.flatMap fun s => common_schema _ s) h

theorem of_mem_operations {uses : Uses} {xs : List Located}
    (hxs : ∀ x ∈ xs, x ∈ documentOperations doc)
    (h : issue ∈ operations doc.components uses xs) : Origin doc issue := by
  induction xs generalizing uses with
  | nil => cases h
  | cons x rest ih =>
    rcases List.mem_append.1 h with h | h
    · exact of_mem_operation (hxs x List.mem_cons_self) h
    · exact ih (fun y hy => hxs y (List.mem_cons_of_mem _ hy)) h

theorem of_mem_paths {uses : Uses} {entries : List (String × PathItem)}
    (hentries : entries ⊆ doc.paths.entries)
    (h : issue ∈ paths doc.components uses entries) : Origin doc issue := by
  induction entries generalizing uses with
  | nil => cases h
  | cons e rest ih =>
    obtain ⟨he, hrest⟩ := List.cons_subset.1 hentries
    rcases List.mem_append.1 h with h | h
    · rcases List.mem_append.1 h with h | h
      · exact of_common (common_path _ _) h
      · exact of_mem_operations (fun x hx => List.mem_flatMap.2 ⟨e, he, hx⟩) h
    · exact ih hrest h

end Origin

/-- An issue that is not about a pointer comes from a check of one part, or from one of the two
checks across the document. -/
theorem origin_of_mem {doc : Document} {issue : Issue} (h : issue ∈ issuesBeforePointers doc) :
    Origin doc issue := by
  unfold issuesBeforePointers at h
  simp only [List.mem_append] at h
  rcases h with (h | h) | h
  · exact .of_common (common_head doc) h
  · exact .of_mem_paths (List.Subset.refl _) h
  · cases hc : doc.components with
    | none =>
      rw [hc] at h
      cases h
    | some c =>
      rw [hc] at h
      exact .of_common (common_components c) h

/-! ## Beginnings -/

theorem startsWith_identifierIssue (x : Located) (id place : String) :
    Text.startsWith "operationId " (identifierIssue x id place).message = true := by
  unfold identifierIssue
  rw [String.append_assoc, String.append_assoc]
  exact Text.startsWith_append _ _

theorem startsWith_of_mem_pointers {doc : Document} {issue : Issue} (h : issue ∈ pointers doc) :
    Text.startsWith "unresolved reference " issue.message = true := by
  obtain ⟨lp, -, h⟩ := List.mem_filterMap.1 h
  split at h
  · cases h
    exact Text.startsWith_append _ _
  · cases h

section

variable {doc : Document} {issue : Issue} {beginning : String}

/-- An issue that begins as no check of one part does comes from a check across the document. -/
theorem across_of_startsWith (h : issue ∈ issuesBeforePointers doc)
    (hstart : Text.startsWith beginning issue.message = true)
    (hcommon : ∀ other ∈ commonBeginnings, Text.Diverge beginning other) :
    (∃ x ∈ documentOperations doc, issue ∈ pathParameters doc.components x) ∨
      ∃ x ∈ documentOperations doc, ∃ id place, x.operation.operationId = some id ∧
        issue = identifierIssue x id place := by
  cases origin_of_mem h with
  | common h =>
    obtain ⟨other, hother, hmessage⟩ := h issue List.mem_cons_self
    exact absurd hmessage ((hcommon other hother).not_startsWith hstart)
  | pathParameters hx h => exact .inl ⟨_, hx, h⟩
  | identifier hx hid heq => exact .inr ⟨_, hx, _, _, hid, heq⟩

theorem mem_pathParameters_of_startsWith (h : issue ∈ document doc)
    (hstart : Text.startsWith beginning issue.message = true)
    (hcommon : ∀ other ∈ commonBeginnings, Text.Diverge beginning other)
    (hidentifier : Text.Diverge beginning "operationId ")
    (hpointer : Text.Diverge beginning "unresolved reference ") :
    ∃ x ∈ documentOperations doc, issue ∈ pathParameters doc.components x := by
  rw [document_eq_append, List.mem_append] at h
  rcases h with h | h
  · rcases across_of_startsWith h hstart hcommon with h | ⟨x, -, id, place, -, rfl⟩
    · exact h
    · exact absurd (startsWith_identifierIssue x id place) (hidentifier.not_startsWith hstart)
  · exact absurd (startsWith_of_mem_pointers h) (hpointer.not_startsWith hstart)

/-- Unresolved references are told by the check of the pointers alone. -/
theorem not_startsWith_unresolved (h : issue ∈ issuesBeforePointers doc) :
    ¬Text.startsWith "unresolved reference " issue.message = true := by
  have hparameter : Text.Diverge "unresolved reference " "path " := by decide
  have hidentifier : Text.Diverge "unresolved reference " "operationId " := by decide
  intro hstart
  rcases across_of_startsWith h hstart (by decide) with ⟨x, -, h⟩ | ⟨x, -, id, place, -, rfl⟩
  · exact hparameter.not_startsWith hstart (startsWith_of_mem_pathParameters h)
  · exact hidentifier.not_startsWith hstart (startsWith_identifierIssue x id place)

theorem mem_pointers_of_startsWith (h : issue ∈ document doc)
    (hstart : Text.startsWith "unresolved reference " issue.message = true) :
    issue ∈ pointers doc := by
  rw [document_eq_append, List.mem_append] at h
  exact h.resolve_left fun h => not_startsWith_unresolved h hstart

end

end ApiFolio.Validation

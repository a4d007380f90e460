import ApiFolio.Proofs.OpenApi.Pointer
import ApiFolio.Proofs.Validation.Origins

/-!
# Which issues tell of unresolved references

No check but the last one begins as an unresolved reference is told, so an issue that tells of one
comes from a pointer of the document that is dangling (`exists_pointer_of_unresolved`). A pointer
into an area is not dangling if the area has an entry of the name in it.
-/

namespace ApiFolio.Validation

open OpenApi

/-- What is said of a pointer that leads nowhere. -/
def unresolved (pointer : String) : String := "unresolved reference " ++ pointer

/-- An issue that tells of an unresolved reference comes from a pointer of the document that is
dangling. -/
theorem exists_pointer_of_unresolved {doc : Document} {issue : Issue} {pointer : String}
    (h : issue ∈ document doc) (hmessage : issue.message = unresolved pointer) :
    (issue.location, pointer) ∈ locatedPointers doc ∧
      isDangling doc.components pointer = true := by
  have hstart : Text.startsWith "unresolved reference " issue.message = true := by
    rw [hmessage]
    exact Text.startsWith_append _ _
  obtain ⟨⟨location, p⟩, hmem, hissue⟩ :=
    List.mem_filterMap.1 (mem_pointers_of_startsWith h hstart)
  split at hissue
  · rename_i hdangling
    cases hissue
    have hp : some p = some pointer := by
      rw [← Text.dropBeginning?_append "unresolved reference " p,
        ← Text.dropBeginning?_append "unresolved reference " pointer]
      exact congrArg _ hmessage
    cases hp
    exact ⟨hmem, hdangling⟩
  · cases hissue

/-! ## Pointers that lead to an entry -/

/-- The areas of the components that are read. -/
inductive Area where
  | schemas | responses | parameters | requestBodies | securitySchemes

/-- The name of an area in pointers. -/
def Area.name : Area → String
  | schemas => "schemas"
  | responses => "responses"
  | parameters => "parameters"
  | requestBodies => "requestBodies"
  | securitySchemes => "securitySchemes"

/-- Whether an area has an entry of a name. -/
def Area.contains (c : Components) (name : String) : Area → Bool
  | schemas => c.schemas.contains name
  | responses => c.responses.contains name
  | parameters => c.parameters.contains name
  | requestBodies => c.requestBodies.contains name
  | securitySchemes => c.securitySchemes.contains name

variable {c : Components} {pointer : String}

/-- A pointer that names something in one area names nothing in the others. -/
theorem Area.name?_eq_none {area other : Area} {name : String} (hne : area ≠ other)
    (h : Pointer.name? pointer area.name = some name) :
    Pointer.name? pointer other.name = none := by
  cases area <;> cases other <;>
    first
    | exact absurd rfl hne
    | exact Pointer.name?_eq_none_of_name? _ h fun _ => rfl

/-- A pointer that names something in an area leads to an entry if the area has one of the name. -/
theorem leadsToEntry_eq (area : Area) {name : String}
    (h : Pointer.name? pointer area.name = some name) :
    leadsToEntry c pointer = area.contains c name := by
  have hother (other : Area) (hne : area ≠ other) := Area.name?_eq_none hne h
  have hschemas := hother .schemas
  have hresponses := hother .responses
  have hparameters := hother .parameters
  have hrequestBodies := hother .requestBodies
  unfold leadsToEntry
  cases area <;> simp_all [Area.name, Area.contains]

/-- A pointer that names something in an area dangles unless the area has an entry of the name. -/
theorem isDangling_eq {components : Option Components} (area : Area) {name : String}
    (h : Pointer.name? pointer area.name = some name) :
    isDangling components pointer = !(components.any fun c => area.contains c name) := by
  unfold isDangling
  rw [Pointer.startsWith_root_of_name? h, Bool.true_and]
  cases components with
  | none => rfl
  | some c => exact congrArg (!·) (leadsToEntry_eq area h)

theorem contains_of_get? {α : Type} {table : Dict α} {name : String} {x : α}
    (h : table.get? name = some x) : table.contains name = true :=
  Option.isSome_iff_exists.2 ⟨x, h⟩

theorem leadsToEntry_of_schema {name : String} {s : Schema}
    (hname : Pointer.name? pointer "schemas" = some name) (hs : c.schemas.get? name = some s) :
    leadsToEntry c pointer = true :=
  (leadsToEntry_eq .schemas hname).trans (contains_of_get? hs)

theorem leadsToEntry_of_response? {r : Response} (h : c.response? pointer = some r) :
    leadsToEntry c pointer = true := by
  obtain ⟨name, hname, hget⟩ := Components.lookUp?_eq_some_iff.1 h
  exact (leadsToEntry_eq .responses hname).trans (contains_of_get? hget)

theorem leadsToEntry_of_parameter? {p : Parameter} (h : c.parameter? pointer = some p) :
    leadsToEntry c pointer = true := by
  obtain ⟨name, hname, hget⟩ := Components.lookUp?_eq_some_iff.1 h
  exact (leadsToEntry_eq .parameters hname).trans (contains_of_get? hget)

theorem leadsToEntry_of_requestBody? {body : RequestBody} (h : c.requestBody? pointer = some body) :
    leadsToEntry c pointer = true := by
  obtain ⟨name, hname, hget⟩ := Components.lookUp?_eq_some_iff.1 h
  exact (leadsToEntry_eq .requestBodies hname).trans (contains_of_get? hget)

/-- No issue tells of a pointer that leads to an entry. -/
theorem not_unresolved {doc : Document} (hc : doc.components = some c)
    (h : leadsToEntry c pointer = true) :
    ∀ issue ∈ document doc, issue.message ≠ unresolved pointer := by
  intro issue hissue hmessage
  have hdangling := (exists_pointer_of_unresolved hissue hmessage).2
  unfold isDangling at hdangling
  rw [hc] at hdangling
  simp [h] at hdangling

end ApiFolio.Validation

import ApiFolio.Swagger.Upgrade

/-!
# Entries of parameter lists

The upgrade goes over the entries of a parameter list and takes from each what its role says. The
steps of these walks have names here, so that what holds of a step can be said of the walk.
-/

namespace ApiFolio.Swagger.Document

open OpenApi (Referable RequestBody)

variable (doc : Document)

theorem role_ref (pointer : String) :
    doc.role (.ref pointer) =
      if Text.startsWith (OpenApi.Pointer.areaRoot "requestBodies") pointer then
        .bodyPointer pointer
      else
        match doc.sharedFormField? pointer with
        | some field => .field field
        | none => .plain (.ref pointer) := rfl

theorem role_item (p : Parameter) :
    doc.role (.item p) =
      if p.location = "body" then .body p
      else if p.location = "formData" then .field p
      else .plain (.item p.upgrade) := rfl

/-- The form fields after one more entry. -/
def nextFields (fields : List Parameter) (p : Referable Parameter) : List Parameter :=
  match doc.role p with
  | .field f => (fields.filter fun g => g.name ≠ f.name) ++ [f]
  | _ => fields

/-- The body after one more entry. -/
def nextBody (consumes : List String) (body : Option (Referable RequestBody))
    (p : Referable Parameter) : Except UpgradeError (Option (Referable RequestBody)) :=
  match doc.role p with
  | .bodyPointer pointer => .ok (some (.ref pointer))
  | .body p => (p.upgradeBody consumes).map fun b => some (.item b)
  | _ => .ok body

theorem formFields_eq (ps : List (Referable Parameter)) :
    doc.formFields ps = ps.foldl doc.nextFields [] := rfl

theorem explicitBody_eq (consumes : List String) (ps : List (Referable Parameter)) :
    doc.explicitBody consumes ps = ps.foldlM (doc.nextBody consumes) none := rfl

end ApiFolio.Swagger.Document

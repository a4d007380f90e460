import ApiFolio.Proofs.OpenApi.Form
import ApiFolio.Swagger.Document
import ApiFolio.Swagger.Pointers

/-!
# Moving pointers keeps the form

Moving the pointers of a value changes strings only (`form_movePointers`), and whether it reads as
a path item of version 2 depends on its form only (`PathItem.byForm`), as with those of version 3.
-/

namespace ApiFolio.Swagger

open Json (form formItems formMembers)
open Record (ByForm byForm_some byForm_text? byForm_bool? byForm_items?)

/-! ## Records -/

theorem Parameter.byForm : ByForm ofJson? := .object fun ms =>
  isSome_bind_congr (byForm_text?.withDefault? ms "name" "") fun _ _ =>
  isSome_bind_congr (byForm_text?.withDefault? ms "in" "") fun _ _ =>
  isSome_bind_congr (byForm_text?.optional? ms "description") fun _ _ =>
  isSome_bind_congr (byForm_bool?.optional? ms "required") fun _ _ =>
  isSome_bind_congr (OpenApi.Schema.byForm.optional? ms "schema") fun _ _ =>
  isSome_bind_congr (byForm_text?.optional? ms "type") fun _ _ =>
  isSome_bind_congr (byForm_text?.optional? ms "format") fun _ _ =>
  isSome_bind_congr (OpenApi.Schema.byForm.optional? ms "items") fun _ _ =>
  isSome_bind_congr (byForm_items?.optional? ms "enum") fun _ _ =>
  isSome_bind_congr (byForm_text?.optional? ms "collectionFormat") fun _ _ => rfl

theorem Response.byForm : ByForm ofJson? := .record fun ms =>
  isSome_bind_congr (byForm_text?.withDefault? ms "description" "") fun _ _ =>
  isSome_bind_congr (OpenApi.Schema.byForm.optional? ms "schema") fun _ _ =>
  isSome_bind_congr (byForm_some.dict? ms "headers") fun _ _ =>
  isSome_bind_congr (byForm_some.dict? ms "examples") fun _ _ => rfl

theorem Operation.byForm : ByForm ofJson? := .record fun ms =>
  isSome_bind_congr (byForm_text?.list? ms "tags") fun _ _ =>
  isSome_bind_congr (byForm_text?.optional? ms "summary") fun _ _ =>
  isSome_bind_congr (byForm_text?.optional? ms "description") fun _ _ =>
  isSome_bind_congr (OpenApi.ExternalDocs.byForm.optional? ms "externalDocs") fun _ _ =>
  isSome_bind_congr (byForm_text?.optional? ms "operationId") fun _ _ =>
  isSome_bind_congr (byForm_text?.list? ms "consumes") fun _ _ =>
  isSome_bind_congr (byForm_text?.list? ms "produces") fun _ _ =>
  isSome_bind_congr (Parameter.byForm.referable.list? ms "parameters") fun _ _ =>
  isSome_bind_congr (Response.byForm.referable.dict? ms "responses") fun _ _ =>
  isSome_bind_congr (byForm_bool?.optional? ms "deprecated") fun _ _ =>
  isSome_bind_congr (OpenApi.SecurityRequirement.byForm.list? ms "security") fun _ _ => rfl

theorem PathItem.byForm : ByForm ofJson? := .record fun ms =>
  isSome_bind_congr (Operation.byForm.optional? ms "get") fun _ _ =>
  isSome_bind_congr (Operation.byForm.optional? ms "put") fun _ _ =>
  isSome_bind_congr (Operation.byForm.optional? ms "post") fun _ _ =>
  isSome_bind_congr (Operation.byForm.optional? ms "delete") fun _ _ =>
  isSome_bind_congr (Operation.byForm.optional? ms "options") fun _ _ =>
  isSome_bind_congr (Operation.byForm.optional? ms "head") fun _ _ =>
  isSome_bind_congr (Operation.byForm.optional? ms "patch") fun _ _ =>
  isSome_bind_congr (Parameter.byForm.referable.list? ms "parameters") fun _ _ => rfl

/-! ## Pointers -/

variable (bodies : List String)

mutual

theorem form_movePointers : (v : Json) → (movePointers bodies v).form = v.form
  | .obj members => congrArg Json.obj (formMembers_movePointersMembers members)
  | .arr items => congrArg Json.arr (formItems_movePointersItems items)
  | .null => rfl
  | .bool _ => rfl
  | .num _ => rfl
  | .str _ => rfl

theorem formItems_movePointersItems : (items : List Json) →
    formItems (movePointersItems bodies items) = formItems items
  | [] => rfl
  | v :: rest => by
    rw [movePointersItems, formItems, formItems, form_movePointers v,
      formItems_movePointersItems rest]

theorem formMembers_movePointersMembers : (members : List (String × Json)) →
    formMembers (movePointersMembers bodies members) = formMembers members
  | [] => rfl
  | (name, .obj members) :: rest => by
    show (name, (movePointers bodies (.obj members)).form) ::
      formMembers (movePointersMembers bodies rest) = _
    rw [form_movePointers (.obj members), formMembers_movePointersMembers rest, formMembers]
  | (name, .arr items) :: rest => by
    show (name, (movePointers bodies (.arr items)).form) ::
      formMembers (movePointersMembers bodies rest) = _
    rw [form_movePointers (.arr items), formMembers_movePointersMembers rest, formMembers]
  | (_, .str _) :: rest => congrArg (_ :: ·) (formMembers_movePointersMembers rest)
  | (_, .null) :: rest => congrArg (_ :: ·) (formMembers_movePointersMembers rest)
  | (_, .bool _) :: rest => congrArg (_ :: ·) (formMembers_movePointersMembers rest)
  | (_, .num _) :: rest => congrArg (_ :: ·) (formMembers_movePointersMembers rest)

end

end ApiFolio.Swagger

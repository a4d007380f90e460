import ApiFolio.OpenApi.Document
import ApiFolio.Proofs.OpenApi.SchemaFields
import ApiFolio.Proofs.Record.Form

/-!
# Path items read by their form

Whether a value reads as a path item depends on its form only, as this holds of each record inside
one (`PathItem.byForm`). For schemas the recursion is that of the value.
-/

namespace ApiFolio.OpenApi

open Json (form formItems formMembers)
open Record (ByForm byForm_some byForm_text? byForm_bool? byForm_items?)

/-! ## Schemas -/

namespace Schema

mutual

theorem isSome_ofJson?_form : (v : Json) → (ofJson? v.form).isSome = (ofJson? v).isSome
  | .obj members => isSome_ofMembers?_form members
  | .arr _ => rfl
  | .null => rfl
  | .bool _ => rfl
  | .num _ => rfl
  | .str _ => rfl

theorem isSome_readField_form : (v : Json) → (k : Keyword) →
    (readField k v.form).isSome = (readField k v).isSome
  | .obj members, k => by
    cases k
    case properties => exact isSome_ofProperties?_form members
    case items | excluded => exact isSome_map_congr (isSome_ofMembers?_form members)
    all_goals rfl
  | .arr items, k => by
    cases k
    case allOf | anyOf | oneOf => exact isSome_map_congr (isSome_ofItems?_form items)
    all_goals rfl
  | .null, k => by cases k <;> rfl
  | .bool _, k => by cases k <;> rfl
  | .num _, k => by cases k <;> rfl
  | .str _, k => by cases k <;> rfl

theorem isSome_ofMembers?_form : (members : List (String × Json)) →
    (ofMembers? (formMembers members)).isSome = (ofMembers? members).isSome
  | [] => rfl
  | (name, v) :: rest => by
    have ih := isSome_ofMembers?_form rest
    cases hname : Keyword.ofName? name with
    | none =>
      rw [formMembers, ofMembers?_cons_of_none hname, ofMembers?_cons_of_none hname]
      exact isSome_map_congr ih
    | some k =>
      cases Keyword.name_of_ofName? hname
      rw [formMembers, ofMembers?_cons_name, ofMembers?_cons_name]
      exact isSome_bind_congr ih fun _ _ => isSome_map_congr (isSome_readField_form v k)

theorem isSome_ofProperties?_form : (members : List (String × Json)) →
    (ofProperties? (formMembers members)).isSome = (ofProperties? members).isSome
  | [] => rfl
  | (_, v) :: rest =>
    isSome_bind_congr (isSome_ofJson?_form v) fun _ _ =>
      isSome_bind_congr (isSome_ofProperties?_form rest) fun _ _ => rfl

theorem isSome_ofItems?_form : (items : List Json) →
    (ofItems? (formItems items)).isSome = (ofItems? items).isSome
  | [] => rfl
  | v :: rest =>
    isSome_bind_congr (isSome_ofJson?_form v) fun _ _ =>
      isSome_bind_congr (isSome_ofItems?_form rest) fun _ _ => rfl

end

theorem byForm : ByForm ofJson? := isSome_ofJson?_form

end Schema

/-! ## Records -/

theorem ExternalDocs.byForm : ByForm ofJson? := .record fun ms =>
  isSome_bind_congr (byForm_text?.optional? ms "description") fun _ _ =>
  isSome_bind_congr (byForm_text?.withDefault? ms "url" "") fun _ _ => rfl

theorem MediaType.byForm : ByForm ofJson? := .record fun ms =>
  isSome_bind_congr (Schema.byForm.optional? ms "schema") fun _ _ =>
  isSome_bind_congr (byForm_some.dict? ms "examples") fun _ _ => rfl

theorem RequestBody.byForm : ByForm ofJson? := .record fun ms =>
  isSome_bind_congr (byForm_text?.optional? ms "description") fun _ _ =>
  isSome_bind_congr (MediaType.byForm.dict? ms "content") fun _ _ =>
  isSome_bind_congr (byForm_bool?.optional? ms "required") fun _ _ => rfl

theorem Parameter.byForm : ByForm ofJson? := .record fun ms =>
  isSome_bind_congr (byForm_text?.withDefault? ms "name" "") fun _ _ =>
  isSome_bind_congr (byForm_text?.withDefault? ms "in" "") fun _ _ =>
  isSome_bind_congr (byForm_text?.optional? ms "description") fun _ _ =>
  isSome_bind_congr (byForm_bool?.optional? ms "required") fun _ _ =>
  isSome_bind_congr (byForm_bool?.optional? ms "deprecated") fun _ _ =>
  isSome_bind_congr (byForm_text?.optional? ms "style") fun _ _ =>
  isSome_bind_congr (byForm_bool?.optional? ms "explode") fun _ _ =>
  isSome_bind_congr (Schema.byForm.optional? ms "schema") fun _ _ =>
  isSome_bind_congr (MediaType.byForm.dict? ms "content") fun _ _ => rfl

theorem Response.byForm : ByForm ofJson? := .record fun ms =>
  isSome_bind_congr (byForm_some.dict? ms "headers") fun _ _ =>
  isSome_bind_congr (MediaType.byForm.dict? ms "content") fun _ _ =>
  isSome_bind_congr (byForm_some.dict? ms "links") fun _ _ => rfl

theorem ServerVariable.byForm : ByForm ofJson? := .record fun ms =>
  isSome_bind_congr (byForm_items?.optional? ms "enum") fun _ _ =>
  isSome_bind_congr (byForm_text?.optional? ms "description") fun _ _ => rfl

theorem Server.byForm : ByForm ofJson? := .record fun ms =>
  isSome_bind_congr (byForm_text?.withDefault? ms "url" "") fun _ _ =>
  isSome_bind_congr (byForm_text?.optional? ms "description") fun _ _ =>
  isSome_bind_congr (ServerVariable.byForm.dict? ms "variables") fun _ _ => rfl

theorem SecurityRequirement.byForm : ByForm SecurityRequirement.ofJson? :=
  byForm_text?.readList?.readDict?

theorem Operation.byForm : ByForm ofJson? := .record fun ms =>
  isSome_bind_congr (byForm_text?.list? ms "tags") fun _ _ =>
  isSome_bind_congr (byForm_text?.optional? ms "summary") fun _ _ =>
  isSome_bind_congr (byForm_text?.optional? ms "description") fun _ _ =>
  isSome_bind_congr (ExternalDocs.byForm.optional? ms "externalDocs") fun _ _ =>
  isSome_bind_congr (byForm_text?.optional? ms "operationId") fun _ _ =>
  isSome_bind_congr (Parameter.byForm.referable.list? ms "parameters") fun _ _ =>
  isSome_bind_congr (RequestBody.byForm.referable.optional? ms "requestBody") fun _ _ =>
  isSome_bind_congr (Response.byForm.referable.dict? ms "responses") fun _ _ =>
  isSome_bind_congr (byForm_bool?.optional? ms "deprecated") fun _ _ =>
  isSome_bind_congr (SecurityRequirement.byForm.list? ms "security") fun _ _ =>
  isSome_bind_congr (Server.byForm.list? ms "servers") fun _ _ => rfl

theorem PathItem.byForm : ByForm ofJson? := .record fun ms =>
  isSome_bind_congr (byForm_text?.optional? ms "summary") fun _ _ =>
  isSome_bind_congr (byForm_text?.optional? ms "description") fun _ _ =>
  isSome_bind_congr (Operation.byForm.optional? ms "get") fun _ _ =>
  isSome_bind_congr (Operation.byForm.optional? ms "put") fun _ _ =>
  isSome_bind_congr (Operation.byForm.optional? ms "post") fun _ _ =>
  isSome_bind_congr (Operation.byForm.optional? ms "delete") fun _ _ =>
  isSome_bind_congr (Operation.byForm.optional? ms "options") fun _ _ =>
  isSome_bind_congr (Operation.byForm.optional? ms "head") fun _ _ =>
  isSome_bind_congr (Operation.byForm.optional? ms "patch") fun _ _ =>
  isSome_bind_congr (Operation.byForm.optional? ms "trace") fun _ _ =>
  isSome_bind_congr (Server.byForm.list? ms "servers") fun _ _ =>
  isSome_bind_congr (Parameter.byForm.referable.list? ms "parameters") fun _ _ => rfl

end ApiFolio.OpenApi

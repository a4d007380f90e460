import ApiFolio.OpenApi.Referable
import ApiFolio.Proofs.Dict.Lookup

/-!
# The form of a value

The form of a value is what is left of it when its strings are emptied: its kinds, its names and
what stands where. Whether a record reads depends on nothing else (`Record.ByForm`), so a value
whose strings are changed still reads, or still does not. There is one lemma for each way in which
a field is read.
-/

namespace ApiFolio

universe u v

namespace Json

mutual

/-- The value with every string emptied. -/
def form : Json → Json
  | str _ => str ""
  | arr items => arr (formItems items)
  | obj members => obj (formMembers members)
  | null => null
  | bool b => bool b
  | num n => num n

def formItems : List Json → List Json
  | [] => []
  | v :: vs => form v :: formItems vs

def formMembers : List (String × Json) → List (String × Json)
  | [] => []
  | (name, v) :: rest => (name, form v) :: formMembers rest

end

theorem formMembers_eq (members : List (String × Json)) :
    formMembers members = Entries.mapValues form members := by
  induction members with
  | nil => rfl
  | cons m rest ih =>
    obtain ⟨name, v⟩ := m
    rw [formMembers, ih]
    rfl

theorem get?_formMembers (name : String) (members : List (String × Json)) :
    Entries.get? name (formMembers members) = (Entries.get? name members).map form := by
  rw [formMembers_eq, Entries.get?_mapValues]

end Json

open Json (form formItems formMembers get?_formMembers)

/-- Two steps succeed together if their first parts do, and their second parts whatever the first
ones give. -/
theorem isSome_bind_congr {α : Type u} {β : Type v} {a b : Option α} {f g : α → Option β}
    (h : a.isSome = b.isSome) (hfg : ∀ x y, (f x).isSome = (g y).isSome) :
    (a.bind f).isSome = (b.bind g).isSome := by
  cases a with
  | none =>
    cases b with
    | none => rfl
    | some y => cases h
  | some x =>
    cases b with
    | none => cases h
    | some y => exact hfg x y

theorem isSome_map_congr {α : Type u} {β : Type v} {a b : Option α} {f g : α → β}
    (h : a.isSome = b.isSome) : (a.map f).isSome = (b.map g).isSome := by
  rw [Option.isSome_map, Option.isSome_map, h]

namespace Record

/-- Whether something reads depends on its form only. -/
def ByForm {α : Type u} (read : Json → Option α) : Prop :=
  ∀ v, (read v.form).isSome = (read v).isSome

variable {α : Type u} {β : Type v} {read : Json → Option α}

theorem ByForm.isSome_eq (h : ByForm read) {v w : Json} (hform : v.form = w.form) :
    (read v).isSome = (read w).isSome := by
  rw [← h v, hform, h w]

theorem byForm_some : ByForm some := fun _ => rfl

theorem byForm_text? : ByForm Json.text? := fun v => by cases v <;> rfl

theorem byForm_bool? : ByForm Json.bool? := fun v => by cases v <;> rfl

theorem byForm_items? : ByForm Json.items? := fun v => by cases v <;> rfl

/-! ## Fields -/

section Fields

variable (h : ByForm read) (members : List (String × Json)) (name : String)

include h

theorem ByForm.withDefault? (default : α) :
    (withDefault? (formMembers members) name default read).isSome =
      (withDefault? members name default read).isSome := by
  unfold Record.withDefault?
  rw [get?_formMembers]
  cases Entries.get? name members with
  | none => rfl
  | some v => exact h v

theorem ByForm.optional? :
    (optional? (formMembers members) name read).isSome =
      (optional? members name read).isSome := by
  unfold Record.optional?
  rw [get?_formMembers]
  cases Entries.get? name members with
  | none => rfl
  | some v =>
    cases v with
    | null => rfl
    | _ => exact isSome_map_congr (h _)

theorem ByForm.mapM (items : List Json) :
    ((formItems items).mapM read).isSome = (items.mapM read).isSome := by
  induction items with
  | nil => rfl
  | cons v vs ih =>
    rw [formItems, List.mapM_cons, List.mapM_cons]
    exact isSome_bind_congr (h v) fun _ _ => isSome_bind_congr ih fun _ _ => rfl

theorem ByForm.readList? : ByForm (readList? read) := fun v => by
  cases v with
  | arr items => exact h.mapM items
  | _ => rfl

theorem ByForm.traverse :
    (Entries.traverse read (formMembers members)).isSome =
      (Entries.traverse read members).isSome := by
  induction members with
  | nil => rfl
  | cons m rest ih =>
    obtain ⟨name, v⟩ := m
    exact isSome_bind_congr (h v) fun _ _ => isSome_bind_congr ih fun _ _ => rfl

theorem ByForm.readDict? : ByForm (readDict? read) := fun v => by
  cases v with
  | obj members => exact isSome_map_congr (h.traverse members)
  | _ => rfl

theorem ByForm.list? :
    (list? (formMembers members) name read).isSome = (list? members name read).isSome :=
  h.readList?.withDefault? members name []

theorem ByForm.dict? :
    (dict? (formMembers members) name read).isSome = (dict? members name read).isSome :=
  h.readDict?.withDefault? members name ∅

end Fields

/-! ## Records -/

theorem zip?_formItems (layout : Layout) (items : List Json) :
    zip? layout (formItems items) = (zip? layout items).map formMembers := by
  induction layout generalizing items with
  | nil => cases items <;> rfl
  | cons field fields ih =>
    cases items with
    | nil =>
      show (if _ then some [] else none) = Option.map formMembers (if _ then some [] else none)
      split <;> rfl
    | cons v vs =>
      show Option.map _ (zip? fields (formItems vs)) = Option.map _ (Option.map _ (zip? fields vs))
      rw [ih vs, Option.map_map, Option.map_map]
      rfl

theorem members?_form (layout : Layout) (v : Json) :
    members? layout v.form = (members? layout v).map formMembers := by
  cases v with
  | arr items => exact zip?_formItems layout items
  | _ => rfl

/-- A record reads by its form if its members do. -/
theorem ByForm.record {layout : Layout} {f : List (String × Json) → Option β}
    (h : ∀ members, (f (formMembers members)).isSome = (f members).isSome) :
    ByForm fun v => (members? layout v).bind f := fun v => by
  show ((members? layout v.form).bind f).isSome = ((members? layout v).bind f).isSome
  rw [members?_form]
  cases members? layout v with
  | none => rfl
  | some members => exact h members

/-- A record that is an object reads by its form if its members do. -/
theorem ByForm.object {f : List (String × Json) → Option β}
    (h : ∀ members, (f (formMembers members)).isSome = (f members).isSome) :
    ByForm fun v => v.members?.bind f := fun v => by
  cases v with
  | obj members => exact h members
  | _ => rfl

theorem ByForm.referable (h : ByForm read) : ByForm (OpenApi.Referable.ofJson? read) := fun v => by
  have hpointer : (OpenApi.Referable.pointerOf? v.form).isSome =
      (OpenApi.Referable.pointerOf? v).isSome := by
    cases v with
    | obj members =>
      show (Option.bind (Entries.get? "$ref" (formMembers members)) Json.text?).isSome =
        (Option.bind (Entries.get? "$ref" members) Json.text?).isSome
      rw [get?_formMembers]
      cases Entries.get? "$ref" members with
      | none => rfl
      | some w => exact byForm_text? w
    | _ => rfl
  unfold OpenApi.Referable.ofJson?
  cases hv : OpenApi.Referable.pointerOf? v with
  | none =>
    have hform : OpenApi.Referable.pointerOf? v.form = none := by
      simpa [hv] using hpointer
    rw [hform]
    exact isSome_map_congr (h v)
  | some pointer =>
    rw [hv] at hpointer
    obtain ⟨p, hp⟩ := Option.isSome_iff_exists.1 hpointer
    rw [hp]
    rfl

end Record

end ApiFolio

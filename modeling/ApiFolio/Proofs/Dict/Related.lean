import ApiFolio.Proofs.Dict.Lookup
import Mathlib.Data.List.Forall2

/-!
# Tables with related values

Two lists of entries are related if they have the same keys in the same order and related values.
Sorting and filtering by value keep this.
-/

namespace ApiFolio

universe u v

namespace Entries

variable {α : Type u} {β : Type v} {A : α → α → Prop} {B : β → β → Prop}

/-- The same keys in the same order, with related values. -/
def Related (A : α → α → Prop) : List (String × α) → List (String × α) → Prop :=
  List.Forall₂ fun e f => e.1 = f.1 ∧ A e.2 f.2

namespace Related

theorem refl (hA : ∀ x, A x x) (entries : List (String × α)) : Related A entries entries :=
  List.forall₂_same.2 fun e _ => ⟨rfl, hA e.2⟩

/-- Entries that differ in the value of one of them. -/
theorem replaced (hA : ∀ x, A x x) (before after : List (String × α)) (key : String) {x y : α}
    (h : A x y) : Related A (before ++ (key, x) :: after) (before ++ (key, y) :: after) :=
  List.rel_append (refl hA before) (.cons ⟨rfl, h⟩ (refl hA after))

theorem get? {a b : List (String × α)} (h : Related A a b) {key : String} {x : α}
    (hx : Entries.get? key a = some x) : ∃ y, Entries.get? key b = some y ∧ A x y := by
  induction h with
  | nil => cases hx
  | @cons e f _ _ hef _ ih =>
    obtain ⟨k, v⟩ := e
    obtain ⟨k', w⟩ := f
    obtain ⟨rfl, hvw⟩ := hef
    rw [get?_cons] at hx ⊢
    split at hx
    · rename_i hk
      cases hx
      rw [if_pos hk]
      exact ⟨w, rfl, hvw⟩
    · rename_i hk
      rw [if_neg hk]
      exact ih hx

theorem insert {a b : List (String × α)} (h : Related A a b) (key : String) {x y : α}
    (hxy : A x y) : Related A (Entries.insert key x a) (Entries.insert key y b) := by
  induction h with
  | nil => exact .cons ⟨rfl, hxy⟩ .nil
  | @cons e f _ _ hef hrest ih =>
    obtain ⟨k, v⟩ := e
    obtain ⟨k', w⟩ := f
    obtain ⟨rfl, hvw⟩ := hef
    unfold Entries.insert
    split
    · exact .cons ⟨rfl, hxy⟩ (.cons ⟨rfl, hvw⟩ hrest)
    · split
      · exact .cons ⟨rfl, hxy⟩ hrest
      · exact .cons ⟨rfl, hvw⟩ ih

theorem sort {a b : List (String × α)} (h : Related A a b) :
    Related A (Entries.sort a) (Entries.sort b) := by
  suffices hfold : ∀ s t : List (String × α), Related A s t →
      Related A (a.foldl (fun table e => Entries.insert e.1 e.2 table) s)
        (b.foldl (fun table e => Entries.insert e.1 e.2 table) t) from hfold [] [] .nil
  induction h with
  | nil => exact fun s t hst => hst
  | @cons e f _ _ hef _ ih =>
    obtain ⟨k, v⟩ := e
    obtain ⟨k', w⟩ := f
    obtain ⟨rfl, hvw⟩ := hef
    exact fun s t hst => ih _ _ (hst.insert k hvw)

theorem filterMapValues {f : String → α → Option β} {a b : List (String × α)}
    (h : Related A a b) (hf : ∀ key x y, A x y → Option.Rel B (f key x) (f key y)) :
    Related B (Entries.filterMapValues f a) (Entries.filterMapValues f b) := by
  induction h with
  | nil => exact .nil
  | @cons e g _ _ hef _ ih =>
    obtain ⟨k, v⟩ := e
    obtain ⟨k', w⟩ := g
    obtain ⟨rfl, hvw⟩ := hef
    have hrel := hf k v w hvw
    unfold Entries.filterMapValues
    cases hv : f k v with
    | none =>
      rw [hv] at hrel
      cases hw : f k w with
      | none => exact ih
      | some y => rw [hw] at hrel; cases hrel
    | some x =>
      rw [hv] at hrel
      cases hw : f k w with
      | none => rw [hw] at hrel; cases hrel
      | some y =>
        rw [hw] at hrel
        cases hrel with
        | some hxy => exact .cons ⟨rfl, hxy⟩ ih

theorem mapValues {f : α → β} {g : α → β} {a b : List (String × α)} (h : Related A a b)
    (hf : ∀ x y, A x y → B (f x) (g y)) :
    Related B (Entries.mapValues f a) (Entries.mapValues g b) := by
  induction h with
  | nil => exact .nil
  | cons hef _ ih => exact .cons ⟨hef.1, hf _ _ hef.2⟩ ih

theorem eq {a b : List (String × α)} (h : Related A a b) (hA : ∀ x y, A x y → x = y) : a = b := by
  induction h with
  | nil => rfl
  | cons hef _ ih => rw [ih, Prod.ext hef.1 (hA _ _ hef.2)]

end Related

end Entries

/-- Tables with the same keys and related values. -/
def Dict.Related {α : Type u} (A : α → α → Prop) (a b : Dict α) : Prop :=
  Entries.Related A a.entries b.entries

end ApiFolio

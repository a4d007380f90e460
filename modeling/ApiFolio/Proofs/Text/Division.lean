import Mathlib.Data.List.Basic

/-!
# Texts with a separator

Where two texts with a separator in the middle are equal, they are divided at one place, or one of
them goes on with what the other is divided into (`append_cons_eq_iff`).
-/

namespace ApiFolio.Text

/-- Two lists with a separator that are equal are divided at one place, or one goes on with what
the other is divided into. -/
theorem append_cons_eq_iff {α : Type} {c : α} {p s q t : List α} :
    p ++ c :: s = q ++ c :: t ↔
      p = q ∧ s = t ∨ (∃ u, q = p ++ c :: u ∧ s = u ++ c :: t) ∨
        ∃ u, p = q ++ c :: u ∧ t = u ++ c :: s := by
  constructor
  · intro h
    rcases List.append_eq_append_iff.1 h with ⟨u, hq, hs⟩ | ⟨u, hp, ht⟩
    · cases u with
      | nil =>
        rw [List.append_nil] at hq
        exact .inl ⟨hq.symm, (List.cons.inj hs).2⟩
      | cons d u =>
        obtain ⟨rfl, hrest⟩ := List.cons.inj hs
        exact .inr (.inl ⟨u, hq, hrest⟩)
    · cases u with
      | nil =>
        rw [List.append_nil] at hp
        exact .inl ⟨hp, (List.cons.inj ht).2.symm⟩
      | cons d u =>
        obtain ⟨rfl, hrest⟩ := List.cons.inj ht
        exact .inr (.inr ⟨u, hp, hrest⟩)
  · rintro (⟨rfl, rfl⟩ | ⟨u, rfl, rfl⟩ | ⟨u, rfl, rfl⟩)
    · rfl
    · rw [List.append_assoc, List.cons_append]
    · rw [List.append_assoc, List.cons_append]

/-- If no separator stands after the place of division, there is only one such place. -/
theorem append_cons_inj_of_notMem_right {α : Type} {c : α} {p s q t : List α} (hs : c ∉ s)
    (ht : c ∉ t) : p ++ c :: s = q ++ c :: t ↔ p = q ∧ s = t := by
  have hcut {u v : List α} : c ∈ u ++ c :: v := List.mem_append_right _ List.mem_cons_self
  rw [append_cons_eq_iff]
  constructor
  · rintro (h | ⟨u, -, rfl⟩ | ⟨u, -, rfl⟩)
    · exact h
    · exact absurd hcut hs
    · exact absurd hcut ht
  · exact .inl

/-- If no separator stands before the place of division, there is only one such place. -/
theorem append_cons_inj_of_notMem_left {α : Type} {c : α} {p s q t : List α} (hp : c ∉ p)
    (hq : c ∉ q) : p ++ c :: s = q ++ c :: t ↔ p = q ∧ s = t := by
  have hcut {u v : List α} : c ∈ u ++ c :: v := List.mem_append_right _ List.mem_cons_self
  rw [append_cons_eq_iff]
  constructor
  · rintro (h | ⟨u, rfl, -⟩ | ⟨u, rfl, -⟩)
    · exact h
    · exact absurd hcut hq
    · exact absurd hcut hp
  · exact .inl

end ApiFolio.Text

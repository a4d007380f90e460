import ApiFolio.Text.Basic

/-!
# How texts begin and end

What follows a known beginning is told by the whole text (`dropBeginning?_eq_some_iff`). A text
begins in one of two ways that diverge (`Diverge.not_startsWith`), and ends in one of two ways that
do (`append_ne_append`).
-/

namespace ApiFolio.Text

theorem dropChars?_eq_some_iff {a s rest : List Char} :
    dropChars? a s = some rest ↔ s = a ++ rest := by
  induction a generalizing s with
  | nil => exact ⟨fun h => Option.some.inj h, fun h => congrArg some h⟩
  | cons b a ih =>
    cases s with
    | nil =>
      constructor
      · intro h
        cases h
      · intro h
        cases h
    | cons c s =>
      unfold dropChars?
      rw [List.cons_append, List.cons_eq_cons]
      split
      · rename_i heq
        rw [ih]
        exact ⟨fun h => ⟨heq.symm, h⟩, fun h => h.2⟩
      · rename_i hne
        constructor
        · intro h
          cases h
        · intro h
          exact absurd h.1.symm hne

theorem dropBeginning?_eq_some_iff {beginning s rest : String} :
    dropBeginning? beginning s = some rest ↔ s = beginning ++ rest := by
  unfold dropBeginning?
  rw [Option.map_eq_some_iff]
  constructor
  · rintro ⟨cs, hcs, rfl⟩
    rw [dropChars?_eq_some_iff] at hcs
    apply String.toList_inj.1
    rw [hcs, String.toList_append, String.toList_ofList]
  · rintro rfl
    refine ⟨rest.toList, ?_, String.ofList_toList⟩
    rw [dropChars?_eq_some_iff, String.toList_append]

@[simp] theorem dropBeginning?_append (beginning rest : String) :
    dropBeginning? beginning (beginning ++ rest) = some rest :=
  dropBeginning?_eq_some_iff.2 rfl

theorem startsWith_append (beginning rest : String) :
    startsWith beginning (beginning ++ rest) = true := by
  unfold startsWith
  rw [List.isPrefixOf_iff_prefix, String.toList_append]
  exact List.prefix_append _ _

theorem startsWith_iff {beginning s : String} :
    startsWith beginning s = true ↔ beginning.toList <+: s.toList :=
  List.isPrefixOf_iff_prefix

theorem startsWith_iff_exists {beginning s : String} :
    startsWith beginning s = true ↔ ∃ rest, s = beginning ++ rest := by
  constructor
  · intro h
    obtain ⟨rest, hrest⟩ := startsWith_iff.1 h
    refine ⟨String.ofList rest, String.toList_inj.1 ?_⟩
    rw [← hrest, String.toList_append, String.toList_ofList]
  · rintro ⟨rest, rfl⟩
    exact startsWith_append _ _

theorem dropBeginning?_eq_none_iff {beginning s : String} :
    dropBeginning? beginning s = none ↔ ¬startsWith beginning s = true := by
  rw [startsWith_iff_exists, Option.eq_none_iff_forall_ne_some]
  simp only [ne_eq, dropBeginning?_eq_some_iff, not_exists]

/-- Two beginnings none of which goes on as the other. -/
def Diverge (a b : String) : Prop := ¬a.toList <+: b.toList ∧ ¬b.toList <+: a.toList

instance (a b : String) : Decidable (Diverge a b) := inferInstanceAs (Decidable (_ ∧ _))

theorem Diverge.not_startsWith {a b s : String} (h : Diverge a b)
    (ha : startsWith a s = true) : ¬startsWith b s = true := fun hb =>
  (List.prefix_or_prefix_of_prefix (startsWith_iff.1 ha) (startsWith_iff.1 hb)).elim h.1 h.2

/-- Texts differ if none of their endings ends as the other. -/
theorem append_ne_append {a b c d : String} (hc : ¬c.toList <:+ d.toList)
    (hd : ¬d.toList <:+ c.toList) : a ++ c ≠ b ++ d := by
  intro h
  have hlist : a.toList ++ c.toList = b.toList ++ d.toList := by
    rw [← String.toList_append, ← String.toList_append, h]
  have hleft : c.toList <:+ b.toList ++ d.toList := hlist ▸ List.suffix_append _ _
  have hright : d.toList <:+ b.toList ++ d.toList := List.suffix_append _ _
  exact (List.suffix_or_suffix_of_suffix hleft hright).elim hc hd

end ApiFolio.Text

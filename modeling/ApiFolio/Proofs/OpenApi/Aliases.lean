import ApiFolio.OpenApi.Aliases
import ApiFolio.Proofs.Dict.Lookup
import Mathlib.Data.List.Nodup

/-!
# Where chains of aliases end

The pointers on a chain that ends are all different, so such a chain has no more steps than there
are aliases (`EndsAfter.le_size`). What is looked for within this bound is therefore the end of the
chain, and is missed only where there is none (`target?_resolve_eq_some_iff`).
-/

namespace ApiFolio.OpenApi.Aliases

/-- The chain of aliases from a pointer ends at a pointer that is no alias after so many steps. -/
inductive EndsAfter (aliases : Aliases) : Nat → String → String → Prop
  | here {pointer : String} (h : aliases.targets.get? pointer = none) :
      EndsAfter aliases 0 pointer pointer
  | next {steps : Nat} {pointer target stop : String}
      (h : aliases.targets.get? pointer = some target)
      (rest : EndsAfter aliases steps target stop) : EndsAfter aliases (steps + 1) pointer stop

variable {aliases : Aliases} {steps fuel : Nat} {pointer stop : String}

namespace EndsAfter

/-- A chain has one end and one length. -/
theorem unique {steps' : Nat} {stop' : String} (h : EndsAfter aliases steps pointer stop)
    (h' : EndsAfter aliases steps' pointer stop') : steps = steps' ∧ stop = stop' := by
  induction h generalizing steps' with
  | here hnone =>
    cases h' with
    | here => exact ⟨rfl, rfl⟩
    | next hsome => rw [hnone] at hsome; cases hsome
  | next hsome _ ih =>
    cases h' with
    | here hnone => rw [hnone] at hsome; cases hsome
    | next hsome' rest' =>
      rw [hsome] at hsome'
      cases hsome'
      obtain ⟨rfl, hstop⟩ := ih rest'
      exact ⟨rfl, hstop⟩

theorem get?_stop (h : EndsAfter aliases steps pointer stop) :
    aliases.targets.get? stop = none := by
  induction h with
  | here hnone => exact hnone
  | next _ _ ih => exact ih

/-- A chain that has a step ends at what an alias stands for. -/
theorem exists_alias (h : EndsAfter aliases (steps + 1) pointer stop) :
    ∃ last, aliases.targets.get? last = some stop := by
  induction steps generalizing pointer with
  | zero =>
    cases h with
    | next hsome rest =>
      cases rest with
      | here => exact ⟨_, hsome⟩
  | succ steps ih =>
    cases h with
    | next _ rest => exact ih rest

/-- The aliases on a chain that ends are as many as its steps, and all different: their own chains
to the same end have different lengths. -/
theorem exists_nodup (h : EndsAfter aliases steps pointer stop) :
    ∃ keys : List String, keys.length = steps ∧ keys.Nodup ∧ ∀ key ∈ keys,
      key ∈ aliases.targets.keys ∧ ∃ left ≤ steps, EndsAfter aliases left key stop := by
  induction h with
  | here => exact ⟨[], rfl, List.nodup_nil, fun _ hkey => absurd hkey List.not_mem_nil⟩
  | @next steps pointer target stop hsome rest ih =>
    obtain ⟨keys, hlength, hnodup, hkeys⟩ := ih
    have hpointer : pointer ∉ keys := by
      intro hmem
      obtain ⟨-, left, hle, hleft⟩ := hkeys pointer hmem
      have heq := (hleft.unique (.next hsome rest)).1
      omega
    refine ⟨pointer :: keys, ?_, List.nodup_cons.2 ⟨hpointer, hnodup⟩, fun key hkey => ?_⟩
    · rw [List.length_cons, hlength]
    · rcases List.mem_cons.1 hkey with rfl | hkey
      · exact ⟨List.mem_map_of_mem (Entries.mem_of_get? hsome), steps + 1, Nat.le_refl _,
          .next hsome rest⟩
      · obtain ⟨hmem, left, hle, hleft⟩ := hkeys key hkey
        exact ⟨hmem, left, by omega, hleft⟩

/-- A chain that ends has no more steps than there are aliases. -/
theorem le_size (h : EndsAfter aliases steps pointer stop) : steps ≤ aliases.size := by
  obtain ⟨keys, rfl, hnodup, hkeys⟩ := h.exists_nodup
  have hle : keys.length ≤ aliases.targets.keys.length :=
    hnodup.length_le_of_subset fun key hkey => (hkeys key hkey).1
  have hsize : aliases.targets.keys.length = aliases.size := List.length_map _
  omega

end EndsAfter

/-- Following within a bound gives the end of a chain that is shorter than the bound. -/
theorem follow_eq_some_iff :
    aliases.follow fuel pointer = some stop ↔
      ∃ steps < fuel, EndsAfter aliases steps pointer stop := by
  induction fuel generalizing pointer with
  | zero => simp [follow]
  | succ fuel ih =>
    unfold follow
    cases hget : aliases.targets.get? pointer with
    | none =>
      constructor
      · rintro ⟨⟩
        exact ⟨0, by omega, .here hget⟩
      · rintro ⟨steps, -, h⟩
        rw [(h.unique (.here hget)).2]
    | some target =>
      show aliases.follow fuel target = some stop ↔ _
      rw [ih]
      constructor
      · rintro ⟨steps, hlt, rest⟩
        exact ⟨steps + 1, by omega, .next hget rest⟩
      · rintro ⟨steps, hlt, h⟩
        cases h with
        | here hnone => rw [hget] at hnone; cases hnone
        | next hsome rest =>
          rw [hget] at hsome
          cases hsome
          exact ⟨_, by omega, rest⟩

theorem end?_eq_some_iff :
    aliases.end? pointer = some stop ↔ ∃ steps, EndsAfter aliases steps pointer stop := by
  unfold end?
  rw [follow_eq_some_iff]
  constructor
  · rintro ⟨steps, -, h⟩
    exact ⟨steps, h⟩
  · rintro ⟨steps, h⟩
    exact ⟨steps, Nat.lt_succ_of_le h.le_size, h⟩

theorem target?_resolve (aliases : Aliases) (pointer : String) :
    aliases.resolve.target? pointer = aliases.end? pointer := by
  have hends : aliases.resolve.ends.get? pointer =
      (aliases.targets.get? pointer).map fun _ => aliases.end? pointer := by
    show Entries.get? pointer (Entries.filterMapValues _ aliases.targets.entries) = _
    rw [Entries.get?_filterMapValues _ aliases.targets.sorted]
    show (aliases.targets.get? pointer).bind _ = _
    cases aliases.targets.get? pointer <;> rfl
  unfold AliasEnds.target?
  rw [hends]
  cases hget : aliases.targets.get? pointer with
  | none => exact (end?_eq_some_iff.2 ⟨0, .here hget⟩).symm
  | some target => rfl

/-- After all chains are followed a pointer leads to the end of its chain, and nowhere if its chain
has no end. -/
theorem target?_resolve_eq_some_iff :
    aliases.resolve.target? pointer = some stop ↔
      ∃ steps, EndsAfter aliases steps pointer stop := by
  rw [target?_resolve, end?_eq_some_iff]

end ApiFolio.OpenApi.Aliases

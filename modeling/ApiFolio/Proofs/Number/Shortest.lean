import ApiFolio.Number.Text
import ApiFolio.Proofs.Number.Rounding

/-!
# The size of a shortest decimal

The shortest decimal of a double is no greater than the upper end of its rounding interval. For all
finite doubles but the two greatest this end leaves room for what three roundings may add, before
the result is infinite (`value_shortest_le`).
-/

namespace ApiFolio

/-- The number that a decimal writes. -/
def Decimal.value (x : Decimal) : ℚ := x.digits * 10 ^ x.exponent

namespace Binary64

/-- Below this bound a decimal is read as a finite double, though each of three roundings on the
way may add to it: it is short of the middle above the greatest double by one part in `2 ^ 52`. -/
def ceiling : ℚ := (2 ^ 55 - 10) * 2 ^ 969

variable {x : Binary64}

theorem significand_lt (x : Binary64) : x.significand < 2 * exponentBit := by
  unfold significand exponentBit
  split <;> omega

theorem significand_pos (h : x.isZero = false) : 0 < x.significand := by
  have hne : x.pattern ≠ 0 := by simpa [isZero] using h
  unfold significand exponentBit
  split <;> omega

theorem exponent_le (h : x.isFinite = true) : x.exponent ≤ 971 := by
  have hlt : x.pattern < infinityPattern := of_decide_eq_true h
  unfold exponent infinityPattern exponentBit at *
  omega

/-- A point of a grid that stands for a number is in its rounding interval. -/
theorem gridPoint?_spec {p : Int} {c : Nat} (h : x.gridPoint? p = some c) :
    (x.lowerEnd : ℚ) * 2 ^ (x.exponent - 2) ≤ c * 10 ^ p ∧
      (c * 10 ^ p : ℚ) ≤ x.upperEnd * 2 ^ (x.exponent - 2) := by
  unfold gridPoint? at h
  extract_lets q num den value inside below above at h
  have hbounds {n : Nat} (hn : inside n = true) :
      x.lowerEnd * num ≤ n * den ∧ n * den ≤ x.upperEnd * num := by
    unfold inside at hn
    split at hn
    · exact of_decide_eq_true hn
    · exact (of_decide_eq_true hn).imp le_of_lt le_of_lt
  have hc : x.lowerEnd * num ≤ c * den ∧ c * den ≤ x.upperEnd * num := by
    split at h
    · rename_i hbelow
      split at h
      · rename_i habove
        split at h
        · exact Option.some.inj h ▸ hbounds hbelow
        · exact Option.some.inj h ▸ hbounds habove
      · exact Option.some.inj h ▸ hbounds hbelow
    · split at h
      · rename_i habove
        exact Option.some.inj h ▸ hbounds habove
      · cases h
  -- both comparisons are of multiples of one number, which is cancelled
  have htwo : (2 : ℚ) ^ q * scaleDown q = scaleUp q := by
    rw [← scaleUp_div_scaleDown, div_mul_cancel₀]
    exact_mod_cast (scaleDown_pos q).ne'
  have hten : (10 : ℚ) ^ p * (Nat.pow 10 (-p).toNat : Nat) = (Nat.pow 10 p.toNat : Nat) := by
    have hdiv : (10 : ℚ) ^ p = (Nat.pow 10 p.toNat : Nat) / (Nat.pow 10 (-p).toNat : Nat) :=
      zpow_eq_div 10 (by decide) p
    rw [hdiv, div_mul_cancel₀]
    exact_mod_cast (Nat.pow_pos (by decide : 0 < 10)).ne'
  have hpos : (0 : ℚ) < scaleDown q * (Nat.pow 10 (-p).toNat : Nat) := by
    exact_mod_cast Nat.mul_pos (scaleDown_pos q) (Nat.pow_pos (by decide))
  have hend (n : Nat) : (n : ℚ) * 2 ^ q * (scaleDown q * (Nat.pow 10 (-p).toNat : Nat)) =
      (n * num : Nat) := by
    unfold num
    rw [Nat.cast_mul, Nat.cast_mul, ← htwo]
    ring
  have hpoint : (c : ℚ) * 10 ^ p * (scaleDown q * (Nat.pow 10 (-p).toNat : Nat)) =
      (c * den : Nat) := by
    unfold den
    rw [Nat.cast_mul, Nat.cast_mul, ← hten]
    ring
  constructor
  · refine le_of_mul_le_mul_right ?_ hpos
    rw [hend, hpoint]
    exact_mod_cast hc.1
  · refine le_of_mul_le_mul_right ?_ hpos
    rw [hend, hpoint]
    exact_mod_cast hc.2

/-- A grid has a point for a number, or four times the significand is left over. -/
theorem coarsest_cases (n : Nat) (p : Int) :
    (∃ c k, x.gridPoint? k = some c ∧ x.coarsest n p = ⟨c, k⟩) ∨
      x.coarsest n p = ⟨4 * x.significand, p - n⟩ := by
  induction n generalizing p with
  | zero => exact .inr (by simp [coarsest])
  | succ n ih =>
    unfold coarsest
    split
    · rename_i c hc
      exact .inl ⟨c, p, hc, rfl⟩
    · obtain h | h := ih (p - 1)
      · exact .inl h
      · right
        rw [h]
        congr 1
        push_cast
        ring

section Finite

variable (hfinite : x.isFinite = true)

include hfinite

theorem decimalBound_le : x.decimalBound ≤ 309 := by
  have hexponent := exponent_le hfinite
  have hlog : x.significand.log2 < 53 := by
    rcases Nat.eq_zero_or_pos x.significand with h | h
    · rw [h]
      decide
    · exact (Nat.log2_lt h.ne').2 x.significand_lt
  unfold decimalBound
  omega

/-- The shortest decimal is no greater than the upper end of the rounding interval, unless no grid
has a point in it; then it is much less than the greatest double. -/
theorem value_shortest_le_upperEnd :
    x.shortest.value ≤ x.upperEnd * 2 ^ (x.exponent - 2) ∨
      x.shortest.value ≤ 2 ^ 55 * 10 ^ 287 := by
  unfold shortest
  obtain ⟨c, k, hc, h⟩ | h := @coarsest_cases x 22 x.decimalBound
  · rw [h]
    exact .inl (gridPoint?_spec hc).2
  · rw [h]
    have hsignificand : ((4 * x.significand : Nat) : ℚ) ≤ 2 ^ 55 := by
      have hlt := x.significand_lt
      unfold exponentBit at hlt
      exact_mod_cast (by omega : 4 * x.significand ≤ 2 ^ 55)
    have hbound := decimalBound_le hfinite
    have hpow : (10 : ℚ) ^ (x.decimalBound - (22 : Nat)) ≤ 10 ^ (287 : Nat) := by
      rw [← zpow_natCast]
      exact zpow_le_zpow_right₀ (by norm_num) (by push_cast; omega)
    right
    unfold Decimal.value
    gcongr

/-- The shortest decimal of a finite double, other than the two greatest, is small enough to be read
without an overflow on the way. -/
theorem value_shortest_le (h : x.exponent < 971 ∨ x.significand ≤ 2 ^ 53 - 3) :
    x.shortest.value ≤ ceiling := by
  obtain hvalue | hvalue := value_shortest_le_upperEnd hfinite
  · refine hvalue.trans ?_
    have hexponent := exponent_le hfinite
    have hlt := x.significand_lt
    unfold ceiling upperEnd exponentBit at *
    rcases hexponent.lt_or_eq with hexponent | hexponent
    · have hpow : (2 : ℚ) ^ (x.exponent - 2) ≤ 2 ^ (968 : Nat) := by
        rw [← zpow_natCast]
        exact zpow_le_zpow_right₀ one_le_two (by push_cast; omega)
      have hend : ((4 * x.significand + 2 : Nat) : ℚ) ≤ 2 ^ 55 := by
        exact_mod_cast (by omega : 4 * x.significand + 2 ≤ 2 ^ 55)
      calc ((4 * x.significand + 2 : Nat) : ℚ) * 2 ^ (x.exponent - 2)
          ≤ 2 ^ 55 * 2 ^ 968 := by gcongr
        _ ≤ (2 ^ 55 - 10) * (2 * 2 ^ 968) := by
          rw [← mul_assoc]
          gcongr
          norm_num
        _ = (2 ^ 55 - 10) * 2 ^ 969 := by rw [← pow_succ']
    · have hpow : (2 : ℚ) ^ (x.exponent - 2) = 2 ^ (969 : Nat) := by
        rw [hexponent]
        rfl
      have hend : ((4 * x.significand + 2 : Nat) : ℚ) ≤ 2 ^ 55 - 10 := by
        have hend : ((4 * x.significand + 2 + 10 : Nat) : ℚ) ≤ (2 ^ 55 : Nat) := by
          exact_mod_cast (by omega : 4 * x.significand + 2 + 10 ≤ 2 ^ 55)
        push_cast at hend ⊢
        linarith
      rw [hpow]
      gcongr
  · refine hvalue.trans ?_
    have hle : ((2 ^ 55 * 10 ^ 287 + 10 * 2 ^ 969 : Nat) : ℚ) ≤ (2 ^ 55 * 2 ^ 969 : Nat) :=
      Nat.cast_le.2 (by decide +kernel)
    simp only [Nat.cast_add, Nat.cast_mul, Nat.cast_pow, Nat.cast_ofNat] at hle
    unfold ceiling
    rw [sub_mul]
    exact le_sub_iff_add_le.2 hle

end Finite

theorem digits_shortest_pos (hzero : x.isZero = false) : 0 < x.shortest.digits := by
  have hsignificand := significand_pos hzero
  unfold shortest
  obtain ⟨c, k, hc, h⟩ | h := @coarsest_cases x 22 x.decimalBound
  · rw [h]
    have hlow : 0 < x.lowerEnd := by
      unfold lowerEnd
      split <;> omega
    have hlow : (0 : ℚ) < x.lowerEnd * 2 ^ (x.exponent - 2) :=
      mul_pos (by exact_mod_cast hlow) (two_zpow_pos _)
    have hpos : (0 : ℚ) < c * 10 ^ k := hlow.trans_le (gridPoint?_spec hc).1
    show 0 < c
    by_contra hc
    rw [Nat.eq_zero_of_not_pos hc, Nat.cast_zero, zero_mul] at hpos
    exact hpos.false
  · rw [h]
    show 0 < 4 * x.significand
    omega

end Binary64

end ApiFolio

import ApiFolio.Proofs.Json.InRange
import ApiFolio.Proofs.Number.Digits

/-!
# Numbers that are read are in range

A whole number is only what fits 64 bits. A double is divided by numbers that are at least one, so
it stays finite, and where it is multiplied an infinite product is refused
(`Number.inRange_of_read?`).
-/

namespace ApiFolio

namespace Binary64

variable {x y : Binary64}

theorem magnitude_lt_overflow (h : x.isFinite = true) : x.magnitude < overflow := by
  have hsignificand : (x.significand : ℚ) ≤ 2 ^ 53 - 1 := by
    have hlt : x.significand + 1 ≤ 2 ^ 53 := significand_lt x
    have hlt : (x.significand : ℚ) + 1 ≤ 2 ^ 53 := by exact_mod_cast hlt
    linarith
  have hpow : (2 : ℚ) ^ x.exponent ≤ 2 ^ (971 : Int) :=
    zpow_le_zpow_right₀ one_le_two (exponent_le h)
  have hsplit : (2 : ℚ) ^ (971 : Int) = 2 * 2 ^ 970 := by
    rw [← pow_succ']
    rfl
  calc x.magnitude ≤ (2 ^ 53 - 1) * 2 ^ (971 : Int) :=
        mul_le_mul hsignificand hpow (by positivity) (by norm_num)
    _ = (2 ^ 54 - 2) * 2 ^ 970 := by
        have hdouble : ((2 : ℚ) ^ 53 - 1) * 2 = 2 ^ 54 - 2 := by norm_num
        rw [hsplit, ← mul_assoc, hdouble]
    _ < overflow := mul_lt_mul_of_pos_right (by norm_num) (by positivity)

/-- A quotient is finite if the divisor is at least one. -/
theorem isFinite_divMagnitude (hx : x.isFinite = true) (hy : 1 ≤ y.magnitude) :
    (x.divMagnitude y).isFinite = true := by
  have hpos : 0 < y.significand := by
    refine Nat.pos_of_ne_zero fun hzero => ?_
    unfold magnitude at hy
    rw [hzero, Nat.cast_zero, zero_mul] at hy
    exact absurd hy (by norm_num)
  refine isFinite_ofRatio (Nat.mul_pos hpos (scaleDown_pos _)) ?_ false
  have hquotient : ((x.significand * scaleUp (x.exponent - y.exponent) : Nat) /
      (y.significand * scaleDown (x.exponent - y.exponent) : Nat) : ℚ) =
        x.magnitude / y.magnitude := by
    push_cast
    rw [mul_div_mul_comm, scaleUp_div_scaleDown, zpow_sub₀ two_ne_zero, div_mul_div_comm]
    rfl
  rw [hquotient]
  exact (div_le_self (by unfold magnitude; positivity) hy).trans_lt (magnitude_lt_overflow hx)

theorem isFinite_ofPattern {p : Nat} (hp : p < infinityPattern) (negative : Bool) :
    (ofPattern negative p).isFinite = true := by
  have hpattern := pattern_ofPattern (hp.trans (by decide)) negative
  unfold isFinite
  rw [hpattern]
  exact decide_eq_true hp

theorem isFinite_negate (h : x.isFinite = true) : x.negate.isFinite = true :=
  isFinite_ofPattern (of_decide_eq_true h) _

end Binary64

namespace Number

open Binary64 (overflow)

theorem ten_pow_lt_overflow {e : Nat} (he : e ≤ 308) : ((Nat.pow 10 e : Nat) : ℚ) < overflow := by
  have hlt : ∀ k < 309, Nat.pow 10 k < 18014398509481983 * 2 ^ 970 := by decide +kernel
  refine (Nat.cast_lt.2 (hlt e (by omega))).trans_le (le_of_eq ?_)
  unfold overflow
  rw [Nat.cast_mul, Nat.cast_pow, Nat.cast_ofNat, Nat.cast_ofNat]
  norm_num only

theorem isFinite_ofNat {n : Nat} (h : n ≤ greatestWhole) : (Binary64.ofNat n).isFinite = true := by
  have hle : (n : ℚ) ≤ (Nat.pow 10 20 : Nat) := by
    refine Nat.cast_le.2 ?_
    unfold greatestWhole at h
    exact Int.ofNat_le.1 (h.trans (by decide))
  refine Binary64.isFinite_ofRatio Nat.one_pos ?_ false
  rw [Nat.cast_one, div_one]
  exact hle.trans_lt (ten_pow_lt_overflow (by decide))

/-- Dividing by a power of ten leaves a double finite. -/
theorem isFinite_dividePow10 {x : Binary64} (hx : x.isFinite = true) (e : Nat) :
    (dividePow10 x e).isFinite = true := by
  have hquotient {x : Binary64} (hx : x.isFinite = true) {k : Nat} (hk : k ≤ 308) :
      (x.divMagnitude (.ofNat (Nat.pow 10 k))).isFinite = true :=
    Binary64.isFinite_divMagnitude hx
      (Binary64.magnitude_ofNat (Nat.pow_pos (by decide)) (ten_pow_lt_overflow hk)).1
  induction e using Nat.strongRecOn generalizing x with
  | ind e ih =>
    rw [dividePow10]
    split
    · exact hx
    · split
      · rename_i he
        exact hquotient hx he
      · refine ih (e - 308) (by omega) ?_
        generalize 308 = step at *
        exact hquotient hx le_rfl

theorem isFinite_of_scaled? {s : Nat} (hs : s ≤ greatestWhole) {e : Int} {x : Binary64}
    (h : scaled? s e = some x) : x.isFinite = true := by
  unfold scaled? at h
  simp only at h
  split at h
  · cases h
    exact isFinite_dividePow10 (isFinite_ofNat hs) _
  · split at h
    · cases h
      exact isFinite_ofNat hs
    · split at h
      · split at h
        · rename_i hfinite
          cases h
          exact hfinite
        · cases h
      · cases h

theorem inRange_of_ofWritten? {w : Written} {n : Number} (h : ofWritten? w = some n) :
    n.InRange := by
  have hzero : ((0 : Nat) : Int) ≤ greatestWhole := by decide
  obtain ⟨hwhole, -, -⟩ := gather_spec hzero w.whole
  obtain ⟨hfraction, -, -⟩ := gather_spec hwhole (w.fraction.getD [])
  unfold ofWritten? at h
  simp only at h
  generalize gather 0 w.whole = gathered at *
  split at h
  · rename_i hints
    obtain ⟨-, -, -, hsign⟩ := hints
    cases h
    show leastWhole ≤ _ ∧ _ ≤ greatestWhole
    unfold leastWhole greatestWhole at *
    split
    · rename_i hnegative
      rcases hsign with hsign | hsign
      · rw [hsign] at hnegative
        cases hnegative
      · omega
    · omega
  · obtain ⟨x, hx, rfl⟩ := Option.map_eq_some_iff.1 h
    have hfinite := isFinite_of_scaled? hfraction hx
    show Binary64.isFinite _ = true
    split
    · exact Binary64.isFinite_negate hfinite
    · exact hfinite

/-- Every number that is read fits 64 bits or is a finite double. -/
theorem inRange_of_read? {cs : List Char} {n : Number} (h : read? cs = some n) : n.InRange := by
  obtain ⟨w, -, hw⟩ := Option.bind_eq_some_iff.1 h
  exact inRange_of_ofWritten? hw

end Number

end ApiFolio

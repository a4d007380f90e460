import ApiFolio.Number.Binary64
import Mathlib.Algebra.Order.Field.Power
import Mathlib.Data.Nat.Log
import Mathlib.Data.Rat.Cast.Order
import Mathlib.Tactic.FieldSimp
import Mathlib.Tactic.Linarith
import Mathlib.Tactic.Positivity
import Mathlib.Tactic.Ring

/-!
# Rounding

The pattern of a ratio has a significand within a half of the ratio in units of its last place. So
a double is no more than one part in `2 ^ 53` above the natural number that it was made from
(`magnitude_ofNat`), and a ratio gives a finite double while it is below the middle between the
greatest finite double and the next power of two (`patternOfRatio_lt_infinityPattern`).
-/

namespace ApiFolio.Binary64

/-- The magnitude of a finite double. -/
def magnitude (x : Binary64) : ℚ := x.significand * 2 ^ x.exponent

/-! ## Powers of two -/

theorem scaleUp_pos (e : Int) : 0 < scaleUp e := Nat.pow_pos (by decide)

theorem scaleDown_pos (e : Int) : 0 < scaleDown e := Nat.pow_pos (by decide)

/-- A power of a base is the ratio of a power that is one for negative exponents and of a power
that is one for the others. -/
theorem zpow_eq_div (base : Nat) (hbase : 0 < base) (e : Int) :
    (base : ℚ) ^ e = (Nat.pow base e.toNat : Nat) / (Nat.pow base (-e).toNat : Nat) := by
  have hne : (base : ℚ) ≠ 0 := by exact_mod_cast hbase.ne'
  have hsplit : e = (e.toNat : Int) - ((-e).toNat : Int) := by omega
  conv_lhs => rw [hsplit]
  rw [zpow_sub₀ hne, zpow_natCast, zpow_natCast]
  push_cast [Nat.pow_eq]
  rfl

theorem scaleUp_div_scaleDown (e : Int) : (scaleUp e : ℚ) / scaleDown e = 2 ^ e :=
  (zpow_eq_div 2 (by decide) e).symm

theorem two_zpow_pos (e : Int) : (0 : ℚ) < 2 ^ e := by positivity

/-! ## The pattern of a ratio -/

section Ratio

variable {num den : Nat} (hnum : 0 < num) (hden : 0 < den)

include hnum hden

/-- The power of two is at most the ratio, and the next one is above it. -/
theorem floorLog2_spec :
    (2 : ℚ) ^ floorLog2 num den ≤ num / den ∧ (num / den : ℚ) < 2 ^ (floorLog2 num den + 1) := by
  have hden' : (0 : ℚ) < den := by exact_mod_cast hden
  have hlow : (2 : ℚ) ^ num.log2 ≤ num := by exact_mod_cast Nat.log2_self_le hnum.ne'
  have hhigh : (num : ℚ) < 2 ^ (num.log2 + 1) := by exact_mod_cast Nat.lt_log2_self
  have hdlow : (2 : ℚ) ^ den.log2 ≤ den := by exact_mod_cast Nat.log2_self_le hden.ne'
  have hdhigh : (den : ℚ) < 2 ^ (den.log2 + 1) := by exact_mod_cast Nat.lt_log2_self
  generalize hk : ((num.log2 : Int) - (den.log2 : Int)) = k
  have hpow : (2 : ℚ) ^ k * 2 ^ den.log2 = 2 ^ num.log2 := by
    rw [← zpow_natCast, ← zpow_natCast, ← zpow_add₀ two_ne_zero, ← hk, Int.sub_add_cancel]
  have htest : num * scaleDown k < den * scaleUp k ↔ (num / den : ℚ) < 2 ^ k := by
    have hdown : (0 : ℚ) < scaleDown k := by exact_mod_cast scaleDown_pos k
    rw [← scaleUp_div_scaleDown, div_lt_div_iff₀ hden' hdown, mul_comm (scaleUp k : ℚ)]
    exact_mod_cast Iff.rfl
  unfold floorLog2
  simp only [hk]
  split
  · rename_i hbelow
    rw [htest] at hbelow
    refine ⟨?_, by rwa [Int.sub_add_cancel]⟩
    rw [le_div_iff₀ hden', zpow_sub_one₀ two_ne_zero]
    rw [pow_succ] at hdhigh
    nlinarith [two_zpow_pos k]
  · rename_i hbelow
    rw [htest, not_lt] at hbelow
    refine ⟨hbelow, ?_⟩
    rw [div_lt_iff₀ hden', zpow_add_one₀ two_ne_zero]
    rw [pow_succ] at hhigh
    nlinarith [two_zpow_pos k]

omit hnum in
/-- Rounding goes up by a half at most. -/
theorem roundRatio_le : (roundRatio num den : ℚ) ≤ num / den + 1 / 2 := by
  have hden' : (0 : ℚ) < den := by exact_mod_cast hden
  have hdiv := Nat.div_add_mod num den
  have hround : 2 * den * roundRatio num den ≤ 2 * num + den := by
    unfold roundRatio
    generalize num / den = low at *
    generalize num % den = rest at *
    subst hdiv
    simp only
    split
    · linarith
    · split
      · linarith
      · have hodd : low % 2 ≤ 1 := by omega
        nlinarith
  have hround' : 2 * (den : ℚ) * roundRatio num den ≤ 2 * num + den := by exact_mod_cast hround
  rw [div_add' _ _ _ hden'.ne', le_div_iff₀ hden']
  linarith

omit hnum in
/-- Rounding does not go below the whole numbers under a ratio. -/
theorem le_roundRatio {n : Nat} (h : (n : ℚ) ≤ num / den) : n ≤ roundRatio num den := by
  have hden' : (0 : ℚ) < den := by exact_mod_cast hden
  have hdiv : n ≤ num / den := by
    rw [le_div_iff₀ hden'] at h
    exact (Nat.le_div_iff_mul_le hden).2 (by exact_mod_cast h)
  unfold roundRatio
  simp only
  split
  · exact hdiv
  · split <;> omega

end Ratio

/-- The middle between the greatest finite double and the power of two above it. -/
def overflow : ℚ := (2 ^ 54 - 1) * 2 ^ 970

theorem overflow_lt : overflow < 2 ^ (1024 : Int) := by
  have hsplit : (2 : ℚ) ^ (1024 : Int) = 2 ^ 54 * 2 ^ 970 := by
    rw [← pow_add]
    rfl
  rw [hsplit]
  unfold overflow
  gcongr
  norm_num

theorem overflow_div : overflow / 2 ^ (971 : Int) = 2 ^ 53 - 1 / 2 := by
  have hsplit : (2 : ℚ) ^ (971 : Int) = 2 * 2 ^ 970 := by
    rw [← pow_succ']
    rfl
  rw [hsplit]
  unfold overflow
  rw [mul_div_mul_right _ _ (by positivity)]
  norm_num

/-- The power of two that the significand of a ratio counts. -/
def unit (num den : Nat) : Int := max (floorLog2 num den - 52) (-1074)

/-- The significand of a ratio. -/
def rounded (num den : Nat) : Nat :=
  roundRatio (num * scaleDown (unit num den)) (den * scaleUp (unit num den))

theorem patternOfRatio_eq {num : Nat} (hnum : 0 < num) (den : Nat) :
    patternOfRatio num den =
      min infinityPattern ((unit num den + 1074).toNat * exponentBit + rounded num den) :=
  if_neg hnum.ne'

section Pattern

variable {num den : Nat} (hnum : 0 < num) (hden : 0 < den)

omit hnum hden in
theorem scaled_ratio (e : Int) :
    ((num * scaleDown e : Nat) / (den * scaleUp e : Nat) : ℚ) = num / den / 2 ^ e := by
  have hdown : (scaleDown e : ℚ) ≠ 0 := by exact_mod_cast (scaleDown_pos e).ne'
  have hup : (scaleUp e : ℚ) ≠ 0 := by exact_mod_cast (scaleUp_pos e).ne'
  rw [← scaleUp_div_scaleDown]
  push_cast
  field_simp

include hden

theorem rounded_le : (rounded num den : ℚ) ≤ num / den / 2 ^ unit num den + 1 / 2 := by
  rw [← scaled_ratio]
  exact roundRatio_le (Nat.mul_pos hden (scaleUp_pos _))

include hnum

theorem rounded_le_exponentBit : rounded num den ≤ 2 * exponentBit := by
  obtain ⟨-, hhigh⟩ := floorLog2_spec hnum hden
  have hunit : (num / den / 2 ^ unit num den : ℚ) < 2 ^ 53 := by
    rw [div_lt_iff₀ (two_zpow_pos _), ← zpow_natCast, ← zpow_add₀ two_ne_zero]
    refine hhigh.trans_le (zpow_le_zpow_right₀ one_le_two ?_)
    unfold unit
    push_cast
    omega
  have h : (rounded num den : ℚ) < 2 ^ 53 + 1 := by
    linarith [@rounded_le num den hden]
  have h : rounded num den < 2 ^ 53 + 1 := by exact_mod_cast h
  exact Nat.lt_succ_iff.1 h

/-- A ratio below the middle has a finite double. -/
theorem patternOfRatio_lt_infinityPattern (h : (num / den : ℚ) < overflow) :
    (unit num den + 1074).toNat * exponentBit + rounded num den < infinityPattern := by
  obtain ⟨hlow, -⟩ := floorLog2_spec hnum hden
  have hlog : floorLog2 num den < 1024 := by
    have hpow : (2 : ℚ) ^ floorLog2 num den < 2 ^ (1024 : Int) :=
      (hlow.trans_lt h).trans overflow_lt
    exact (zpow_lt_zpow_iff_right₀ one_lt_two).1 hpow
  have hunit : unit num den ≤ 971 := by
    unfold unit
    omega
  have hrounded := rounded_le_exponentBit hnum hden
  unfold infinityPattern exponentBit at *
  rcases hunit.lt_or_eq with hunit | hunit
  · omega
  · have hle := @rounded_le num den hden
    rw [hunit] at hle ⊢
    have hbelow : (rounded num den : ℚ) < 2 ^ 53 := by
      have hscaled : (num / den / 2 ^ (971 : Int) : ℚ) < overflow / 2 ^ (971 : Int) :=
        div_lt_div_of_pos_right h (two_zpow_pos _)
      rw [overflow_div] at hscaled
      linarith
    have hbelow : rounded num den < 2 ^ 53 := by exact_mod_cast hbelow
    omega

end Pattern

/-! ## Doubles by their patterns -/

theorem pattern_ofPattern {p : Nat} (hp : p < signBit) (negative : Bool) :
    (ofPattern negative p).pattern = p := by
  unfold signBit at hp
  cases negative
  · show (UInt64.ofNat p).toNat % signBit = p
    rw [UInt64.toNat_ofNat']
    unfold signBit
    omega
  · show (UInt64.ofNat (signBit + p)).toNat % signBit = p
    rw [UInt64.toNat_ofNat']
    unfold signBit
    omega

/-- The magnitude of a pattern whose significand has its highest bit; one bit more is carried. -/
theorem magnitude_of_pattern {x : Binary64} {e m : Nat} (h : x.pattern = e * exponentBit + m)
    (hlow : exponentBit ≤ m) (hhigh : m ≤ 2 * exponentBit) :
    x.magnitude = m * 2 ^ ((e : Int) - 1074) := by
  unfold magnitude significand exponent
  rw [h]
  unfold exponentBit at *
  rcases hhigh.lt_or_eq with hhigh | rfl
  · have hdiv : (e * 0x10000000000000 + m) / 0x10000000000000 = e + 1 := by omega
    have hmod : 0x10000000000000 + (e * 0x10000000000000 + m) % 0x10000000000000 = m := by omega
    have hexponent : ((max 1 (e + 1) : Nat) : Int) - 1075 = (e : Int) - 1074 := by omega
    rw [hdiv, if_neg (Nat.succ_ne_zero e), hmod, hexponent]
  · have hdiv : (e * 0x10000000000000 + 2 * 0x10000000000000) / 0x10000000000000 = e + 2 := by
      omega
    have hmod : (e * 0x10000000000000 + 2 * 0x10000000000000) % 0x10000000000000 = 0 := by omega
    have hexponent : ((max 1 (e + 2) : Nat) : Int) - 1075 = (e : Int) - 1074 + 1 := by omega
    rw [hdiv, if_neg (Nat.succ_ne_zero _), hmod, hexponent, zpow_add_one₀ two_ne_zero]
    push_cast
    ring

/-! ## Products and natural numbers -/

theorem pattern_ofRatio {num den : Nat} (hnum : 0 < num) (hden : 0 < den)
    (h : (num / den : ℚ) < overflow) (negative : Bool) :
    (ofRatio negative num den).pattern =
      (unit num den + 1074).toNat * exponentBit + rounded num den := by
  have hfinite := patternOfRatio_lt_infinityPattern hnum hden h
  unfold ofRatio
  rw [patternOfRatio_eq hnum, min_eq_right hfinite.le,
    pattern_ofPattern (hfinite.trans (by decide))]

theorem isFinite_ofRatio {num den : Nat} (hden : 0 < den) (h : (num / den : ℚ) < overflow)
    (negative : Bool) : (ofRatio negative num den).isFinite = true := by
  refine decide_eq_true ?_
  rcases num.eq_zero_or_pos with rfl | hnum
  · have hzero : patternOfRatio 0 den = 0 := if_pos rfl
    unfold ofRatio
    rw [hzero, pattern_ofPattern (by decide)]
    decide
  · rw [pattern_ofRatio hnum hden h]
    exact patternOfRatio_lt_infinityPattern hnum hden h

theorem isFinite_mulMagnitude {x y : Binary64} (h : x.magnitude * y.magnitude < overflow) :
    (x.mulMagnitude y).isFinite = true := by
  refine isFinite_ofRatio (scaleDown_pos _) ?_ false
  have hproduct : ((x.significand * y.significand * scaleUp (x.exponent + y.exponent) : Nat) /
      scaleDown (x.exponent + y.exponent) : ℚ) = x.magnitude * y.magnitude := by
    push_cast
    rw [mul_div_assoc, scaleUp_div_scaleDown, zpow_add₀ two_ne_zero]
    unfold magnitude
    ring
  rwa [hproduct]

theorem ofNat_zero : (ofNat 0).isZero = true := by decide

section Natural

variable {n : Nat} (hn : 0 < n) (hlimit : (n : ℚ) < overflow)

include hn

theorem unit_natural : 0 ≤ floorLog2 n 1 ∧ unit n 1 = floorLog2 n 1 - 52 := by
  obtain ⟨-, hhigh⟩ := floorLog2_spec hn Nat.one_pos
  have hlog : 0 < floorLog2 n 1 + 1 := by
    have hone : (1 : ℚ) ≤ n := by exact_mod_cast hn
    rw [Nat.cast_one, div_one] at hhigh
    exact (one_lt_zpow_iff_right₀ one_lt_two).1 (hone.trans_lt hhigh)
  unfold unit
  omega

include hlimit

/-- A natural number is made a double of at least its power of two, and of at most one part in
`2 ^ 53` more than it is. -/
theorem magnitude_ofNat :
    1 ≤ (ofNat n).magnitude ∧ (ofNat n).magnitude ≤ n * (1 + 1 / 2 ^ 53) := by
  obtain ⟨hlog, hunit⟩ := unit_natural hn
  obtain ⟨hlow, -⟩ := floorLog2_spec hn Nat.one_pos
  have hratio : ((n : ℚ) / (1 : Nat)) = n := by rw [Nat.cast_one, div_one]
  have hpow : (2 : ℚ) ^ unit n 1 * 2 ^ 52 = 2 ^ floorLog2 n 1 := by
    rw [hunit, ← zpow_natCast, ← zpow_add₀ two_ne_zero]
    congr 1
    omega
  rw [hratio] at hlow
  have hrounded : exponentBit ≤ rounded n 1 := by
    refine le_roundRatio (Nat.mul_pos Nat.one_pos (scaleUp_pos _)) ?_
    rw [scaled_ratio, hratio, le_div_iff₀ (two_zpow_pos _), mul_comm]
    have hbit : (exponentBit : ℚ) = 2 ^ 52 := by norm_num [exponentBit]
    rw [hbit, hpow]
    exact hlow
  have hpattern := pattern_ofRatio hn Nat.one_pos (by rwa [hratio]) false
  have hmagnitude : (ofNat n).magnitude = rounded n 1 * 2 ^ unit n 1 := by
    show (ofRatio false n 1).magnitude = _
    rw [magnitude_of_pattern hpattern hrounded (rounded_le_exponentBit hn Nat.one_pos)]
    congr 2
    omega
  have hle := @rounded_le n 1 Nat.one_pos
  rw [hratio] at hle
  have hpos := two_zpow_pos (unit n 1)
  rw [hmagnitude]
  constructor
  · have hbit : (2 : ℚ) ^ 52 ≤ rounded n 1 := by exact_mod_cast hrounded
    have hone : (1 : ℚ) ≤ 2 ^ floorLog2 n 1 := one_le_zpow₀ one_le_two hlog
    nlinarith
  · have hmul : (rounded n 1 : ℚ) * 2 ^ unit n 1 ≤ n + 1 / 2 * 2 ^ unit n 1 := by
      calc (rounded n 1 : ℚ) * 2 ^ unit n 1
          ≤ (n / 2 ^ unit n 1 + 1 / 2) * 2 ^ unit n 1 := by gcongr
        _ = n + 1 / 2 * 2 ^ unit n 1 := by rw [add_mul, div_mul_cancel₀ _ hpos.ne']
    rw [← hpow] at hlow
    nlinarith

end Natural

end ApiFolio.Binary64

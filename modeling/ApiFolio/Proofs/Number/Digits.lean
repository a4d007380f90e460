import ApiFolio.Number.Read
import ApiFolio.Proofs.Number.Shortest

/-!
# Decimals that are read

The reader takes as many digits as fit 64 bits for a whole number, rounds it to a double and
multiplies it with a rounded power of ten. No step makes more of a decimal than one part in
`2 ^ 53`, so every decimal up to `Binary64.ceiling` is read (`isSome_ofWritten?`).
-/

namespace ApiFolio.Number

open Binary64 (ceiling overflow)

/-! ## Digits -/

/-- The number of digits after a number. -/
def append (n : Nat) (ds : List Char) : Nat := ds.foldl (fun n d => 10 * n + (d.toNat - 48)) n

theorem append_cons (n : Nat) (d : Char) (ds : List Char) :
    append n (d :: ds) = append (10 * n + (d.toNat - 48)) ds := by
  unfold append
  rw [List.foldl_cons]

theorem append_append (n : Nat) (ds es : List Char) :
    append n (ds ++ es) = append (append n ds) es :=
  List.foldl_append

theorem mul_pow_le_append (n : Nat) (ds : List Char) : n * 10 ^ ds.length ≤ append n ds := by
  induction ds generalizing n with
  | nil => simp [append]
  | cons d ds ih =>
    rw [append_cons, List.length_cons]
    calc n * 10 ^ (ds.length + 1) = 10 * n * 10 ^ ds.length := by ring
      _ ≤ (10 * n + (d.toNat - 48)) * 10 ^ ds.length := by gcongr; omega
      _ ≤ append (10 * n + (d.toNat - 48)) ds := ih _

theorem le_append (n : Nat) (ds : List Char) : n ≤ append n ds :=
  (Nat.le_mul_of_pos_right n (Nat.pow_pos (by decide))).trans (mul_pow_le_append n ds)

/-- Digits are gathered up to the last if their number fits 64 bits. -/
theorem gather_of_le {n : Nat} {ds : List Char} (h : append n ds ≤ greatestWhole) :
    gather n ds = (append n ds, []) := by
  induction ds generalizing n with
  | nil => rfl
  | cons d ds ih =>
    have hfirst : ((10 * n + (d.toNat - 48) : Nat) : Int) ≤ greatestWhole :=
      (Int.ofNat_le.2 (le_append _ ds)).trans h
    unfold gather
    simp only
    rw [if_pos hfirst]
    exact ih h

/-- What is gathered fits 64 bits, and digits that are left over count for the scale only. -/
theorem gather_spec {n : Nat} (hn : n ≤ greatestWhole) (ds : List Char) :
    (gather n ds).1 ≤ greatestWhole ∧ (gather n ds).2.length ≤ ds.length ∧
      (gather n ds).1 * 10 ^ (gather n ds).2.length ≤ append n ds := by
  induction ds generalizing n with
  | nil => exact ⟨hn, le_rfl, by simp [gather, append]⟩
  | cons d ds ih =>
    unfold gather
    simp only
    split
    · rename_i hfirst
      obtain ⟨hfits, hlength, hle⟩ := ih hfirst
      exact ⟨hfits, hlength.trans (Nat.le_succ _), hle⟩
    · exact ⟨hn, le_rfl, mul_pow_le_append n (d :: ds)⟩

/-! ## Scaling -/

theorem ceiling_pos : 0 < ceiling := by
  unfold ceiling
  exact mul_pos (by norm_num) (by positivity)

theorem ceiling_lt_ten_pow : ceiling < 10 ^ 309 := by
  have hlt : ((2 ^ 55 * 2 ^ 969 : Nat) : ℚ) < (10 ^ 309 : Nat) :=
    Nat.cast_lt.2 (by decide +kernel)
  simp only [Nat.cast_mul, Nat.cast_pow, Nat.cast_ofNat] at hlt
  refine lt_of_le_of_lt ?_ hlt
  unfold ceiling
  gcongr
  norm_num

/-- The bound leaves room for what two roundings add. -/
theorem ceiling_mul_lt : ceiling * (1 + 1 / 2 ^ 53) ^ 2 < overflow := by
  have hsplit : (2 : ℚ) ^ 970 = 2 * 2 ^ 969 := pow_succ' 2 969
  unfold ceiling overflow
  rw [hsplit, ← mul_assoc, mul_right_comm]
  exact mul_lt_mul_of_pos_right (by norm_num) (by positivity)

theorem ceiling_lt_overflow : ceiling < overflow :=
  (le_mul_of_one_le_right ceiling_pos.le (one_le_pow₀ (by norm_num))).trans_lt ceiling_mul_lt

section

variable {s : Nat} (hs : 0 < s)

include hs

theorem exponent_le_of_le_ceiling {e : Int} (h : (s : ℚ) * 10 ^ e ≤ ceiling) : e ≤ 308 := by
  have hone : (1 : ℚ) ≤ s := by exact_mod_cast hs
  have hpow : (10 : ℚ) ^ e < 10 ^ (309 : Int) :=
    ((le_mul_of_one_le_left (by positivity) hone).trans h).trans_lt ceiling_lt_ten_pow
  exact Int.lt_add_one_iff.1 ((zpow_lt_zpow_iff_right₀ (by norm_num)).1 hpow)

/-- A product of two natural numbers up to the bound has a finite double, also if both are made
doubles first. -/
theorem isFinite_mulMagnitude_ofNat {t : Nat} (ht : 0 < t) (h : (s : ℚ) * t ≤ ceiling) :
    ((Binary64.ofNat s).mulMagnitude (.ofNat t)).isFinite = true := by
  have hsone : (1 : ℚ) ≤ s := by exact_mod_cast hs
  have htone : (1 : ℚ) ≤ t := by exact_mod_cast ht
  have hlimit := h.trans_lt ceiling_lt_overflow
  obtain ⟨-, hx⟩ := Binary64.magnitude_ofNat hs
    ((le_mul_of_one_le_right (by positivity) htone).trans_lt hlimit)
  obtain ⟨hone, hy⟩ := Binary64.magnitude_ofNat ht
    ((le_mul_of_one_le_left (by positivity) hsone).trans_lt hlimit)
  refine Binary64.isFinite_mulMagnitude (lt_of_le_of_lt ?_ ceiling_mul_lt)
  calc (Binary64.ofNat s).magnitude * (Binary64.ofNat t).magnitude
      ≤ s * (1 + 1 / 2 ^ 53) * (t * (1 + 1 / 2 ^ 53)) :=
        mul_le_mul hx hy (zero_le_one.trans hone) (by positivity)
    _ = s * t * (1 + 1 / 2 ^ 53) ^ 2 := by ring
    _ ≤ ceiling * (1 + 1 / 2 ^ 53) ^ 2 := by gcongr

end

theorem isSome_scaled? {s : Nat} {e : Int} (h : (s : ℚ) * 10 ^ e ≤ ceiling) :
    (scaled? s e).isSome = true := by
  unfold scaled?
  simp only
  split
  · rfl
  · rename_i he
    split
    · rfl
    · rename_i hzero
      have hpos : 0 < s := by
        by_contra hpos
        rw [Nat.eq_zero_of_not_pos hpos] at hzero
        exact hzero Binary64.ofNat_zero
      rw [if_pos (exponent_le_of_le_ceiling hpos h)]
      obtain ⟨n, rfl⟩ := Int.eq_ofNat_of_zero_le (not_lt.1 he)
      have hten : (10 : ℚ) ^ (n : Int) = (Nat.pow 10 n : Nat) := by
        rw [zpow_natCast, Nat.pow_eq, Nat.cast_pow, Nat.cast_ofNat]
      rw [hten] at h
      have hfinite :=
        @isFinite_mulMagnitude_ofNat s hpos (Nat.pow 10 n) (Nat.pow_pos (by decide)) h
      rw [Int.toNat_natCast, if_pos hfinite]
      rfl

/-! ## Written numbers -/

/-- The magnitude of the number that written parts stand for. -/
def Written.magnitude (w : Written) : ℚ :=
  append 0 (w.whole ++ w.fraction.getD []) *
    10 ^ (w.exponent.getD 0 - (w.fraction.getD []).length)

theorem isSome_ofWritten? {w : Written} (hwhole : append 0 w.whole ≤ greatestWhole)
    (h : w.magnitude ≤ ceiling) : (ofWritten? w).isSome = true := by
  obtain ⟨hfits, hlength, hle⟩ := gather_spec hwhole (w.fraction.getD [])
  unfold ofWritten?
  simp only [gather_of_le hwhole]
  split
  · rfl
  · rw [Option.isSome_map]
    refine isSome_scaled? (le_trans ?_ h)
    unfold Written.magnitude
    rw [append_append]
    generalize gather (append 0 w.whole) (w.fraction.getD []) = gathered at *
    have hscale : (([] : List Char).length : Int) -
          ((w.fraction.getD []).length - gathered.2.length : Nat) + w.exponent.getD 0 =
        gathered.2.length + (w.exponent.getD 0 - (w.fraction.getD []).length) := by
      rw [List.length_nil]
      omega
    have hle : (gathered.1 : ℚ) * 10 ^ gathered.2.length ≤
        append (append 0 w.whole) (w.fraction.getD []) := by exact_mod_cast hle
    rw [hscale, zpow_add₀ (by norm_num), zpow_natCast, ← mul_assoc]
    gcongr

end ApiFolio.Number

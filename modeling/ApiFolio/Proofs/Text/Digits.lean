import ApiFolio.Text.Basic

/-!
# Digits

The digits of a number in a base up to sixteen are hexadecimal digits, so no other character stands
among them (`notMem_digits`). They tell the number that they write (`digitsValue_digits`), so
different numbers have different digits (`digits_injective`).
-/

namespace ApiFolio.Text

/-- The number that digits write in a base. -/
def digitsValue (base : Nat) (ds : List Char) : Nat :=
  ds.foldl (fun n d => base * n + (hexValue? d).getD 0) 0

theorem hexValue?_hexDigit : ∀ d < 16, hexValue? (hexDigit d) = some d := by decide

section

variable {base : Nat} (hbase : 2 ≤ base)
include hbase

theorem mem_digits {n : Nat} {c : Char} (h : c ∈ digits base n) : ∃ d < base, c = hexDigit d := by
  induction n using Nat.strongRecOn with
  | ind n ih =>
    unfold digits at h
    split at h
    · rename_i hn
      exact ⟨n, by omega, List.mem_singleton.1 h⟩
    · rename_i hn
      rcases List.mem_append.1 h with h | h
      · exact ih (n / base) (Nat.div_lt_self (by omega) (by omega)) h
      · exact ⟨n % base, Nat.mod_lt n (by omega), List.mem_singleton.1 h⟩

theorem notMem_digits (hle : base ≤ 16) {c : Char} (hc : ∀ d < 16, hexDigit d ≠ c) (n : Nat) :
    c ∉ digits base n := by
  intro h
  obtain ⟨d, hd, rfl⟩ := mem_digits hbase h
  exact hc d (by omega) rfl

theorem digitsValue_digits (hle : base ≤ 16) (n : Nat) : digitsValue base (digits base n) = n := by
  induction n using Nat.strongRecOn with
  | ind n ih =>
    unfold digits
    split
    · rename_i hn
      show base * 0 + (hexValue? (hexDigit n)).getD 0 = n
      rw [hexValue?_hexDigit n (by omega), Option.getD_some, Nat.mul_zero, Nat.zero_add]
    · rename_i hn
      have hfront := ih (n / base) (Nat.div_lt_self (by omega) (by omega))
      have hlast : n % base < 16 := Nat.lt_of_lt_of_le (Nat.mod_lt n (by omega)) hle
      unfold digitsValue at hfront ⊢
      rw [List.foldl_append, hfront]
      show base * (n / base) + (hexValue? (hexDigit (n % base))).getD 0 = n
      rw [hexValue?_hexDigit _ hlast, Option.getD_some, Nat.div_add_mod]

theorem digits_injective (hle : base ≤ 16) {m n : Nat} (h : digits base m = digits base n) :
    m = n := by
  rw [← digitsValue_digits hbase hle m, h, digitsValue_digits hbase hle]

end

end ApiFolio.Text

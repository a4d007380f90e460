import ApiFolio.Export.Status
import Mathlib.Data.List.DropRight
import Mathlib.Data.Nat.Digits.Defs
import Mathlib.Tactic.IntervalCases

/-!
# Status codes are exact

A key writes an integer if it has at most one sign and then digits between its white space
(`Text.Numeral`). What trimming leaves is the one part of a text between white space that neither
begins nor ends with it (`Text.trimChars_eq_iff`), and reading it succeeds for numerals only
(`signedValue?_eq_some_iff`). So the code of a key is the integer that it writes, or zero if it
writes none that fits 64 bits (`statusCode_eq_iff`).
-/

namespace ApiFolio.Text

/-! ## What stands between white space -/

/-- The characters with the Unicode property White_Space, by their code points. -/
def whiteSpace : List Nat :=
  [0x09, 0x0A, 0x0B, 0x0C, 0x0D, 0x20, 0x85, 0xA0, 0x1680, 0x2000, 0x2001, 0x2002, 0x2003, 0x2004,
    0x2005, 0x2006, 0x2007, 0x2008, 0x2009, 0x200A, 0x2028, 0x2029, 0x202F, 0x205F, 0x3000]

theorem isBlank_iff {c : Char} : isBlank c = true ↔ c.toNat ∈ whiteSpace := by
  simp only [isBlank, whiteSpace, Bool.or_eq_true, Bool.and_eq_true, decide_eq_true_eq,
    beq_iff_eq, List.mem_cons, List.not_mem_nil, or_false]
  omega

theorem isBlank_eq_false_iff {c : Char} : isBlank c = false ↔ c.toNat ∉ whiteSpace := by
  rw [← isBlank_iff, Bool.not_eq_true]

/-- The part of a list of characters between the white space at both ends. -/
structure Trims (cs body : List Char) : Prop where
  between : ∃ before after, cs = before ++ body ++ after ∧
    (∀ c ∈ before, c.toNat ∈ whiteSpace) ∧ ∀ c ∈ after, c.toNat ∈ whiteSpace
  start : ∀ c ∈ body.head?, c.toNat ∉ whiteSpace
  stop : ∀ c ∈ body.getLast?, c.toNat ∉ whiteSpace

theorem trimStartChars_append {before cs : List Char} (hb : ∀ c ∈ before, c.toNat ∈ whiteSpace)
    (hc : ∀ c ∈ cs.head?, c.toNat ∉ whiteSpace) : trimStartChars (before ++ cs) = cs := by
  unfold trimStartChars
  rw [List.dropWhile_append_of_pos fun c h => isBlank_iff.2 (hb c h)]
  cases cs with
  | nil => rfl
  | cons c rest => exact List.dropWhile_cons_of_neg (by simpa [isBlank_iff] using hc)

theorem exists_append_trimStartChars (cs : List Char) :
    (∃ before, cs = before ++ trimStartChars cs ∧ ∀ c ∈ before, c.toNat ∈ whiteSpace) ∧
      ∀ c ∈ (trimStartChars cs).head?, c.toNat ∉ whiteSpace := by
  refine ⟨⟨cs.takeWhile isBlank, List.takeWhile_append_dropWhile.symm,
    fun c hc => isBlank_iff.1 (List.mem_takeWhile_imp hc)⟩, fun c hc => isBlank_eq_false_iff.1 ?_⟩
  have hnot := List.head?_dropWhile_not isBlank cs
  have hhead : (cs.dropWhile isBlank).head? = some c := hc
  rw [hhead] at hnot
  simpa using hnot

theorem trims_trimChars (cs : List Char) : Trims cs (trimChars cs) := by
  obtain ⟨⟨before, hcs, hbefore⟩, hstart⟩ := exists_append_trimStartChars cs
  obtain ⟨⟨after, hfront, hafter⟩, hstop⟩ :=
    exists_append_trimStartChars (trimStartChars cs).reverse
  have hfront : trimStartChars cs = trimChars cs ++ after.reverse := by
    rw [← List.reverse_reverse (trimStartChars cs), hfront, List.reverse_append]
    rfl
  refine ⟨⟨before, after.reverse, ?_, hbefore, fun c hc => hafter c (List.mem_reverse.1 hc)⟩,
    fun c hc => ?_, fun c hc => ?_⟩
  · rw [List.append_assoc, ← hfront]
    exact hcs
  · refine hstart c ?_
    rw [hfront]
    exact List.mem_head?_append_of_mem_head? hc
  · refine hstop c ?_
    unfold trimChars at hc
    rwa [List.getLast?_reverse] at hc

/-- Trimming gives the one part between the white space at both ends. -/
theorem trimChars_eq_iff {cs body : List Char} : trimChars cs = body ↔ Trims cs body := by
  constructor
  · rintro rfl
    exact trims_trimChars cs
  · rintro ⟨⟨before, after, rfl, hbefore, hafter⟩, hstart, hstop⟩
    unfold trimChars
    cases body with
    | nil =>
      -- all is blank, and the first cut takes it away
      have hblank : ∀ c ∈ before ++ after, c.toNat ∈ whiteSpace := fun c hc =>
        (List.mem_append.1 hc).elim (hbefore c) (hafter c)
      have hcut : trimStartChars (before ++ after ++ []) = [] :=
        trimStartChars_append hblank (by simp)
      rw [List.append_nil] at hcut ⊢
      rw [hcut]
      rfl
    | cons c rest =>
      have hfront : trimStartChars (before ++ (c :: rest ++ after)) = c :: rest ++ after :=
        trimStartChars_append hbefore hstart
      rw [List.append_assoc, hfront, List.reverse_append,
        trimStartChars_append (fun d hd => hafter d (List.mem_reverse.1 hd)), List.reverse_reverse]
      rwa [List.head?_reverse]

/-! ## Numerals -/

/-- The digits in the order of their values. -/
def decimalDigits : List Char := ['0', '1', '2', '3', '4', '5', '6', '7', '8', '9']

/-- One or more digits. -/
def IsDigits (ds : List Char) : Prop := ds ≠ [] ∧ ∀ d ∈ ds, d ∈ decimalDigits

/-- The number of digits in positional notation, the last one counting ones. -/
def positional (ds : List Char) : Nat := Nat.ofDigits 10 (ds.reverse.map decimalDigits.idxOf)

/-- At most one sign, then one or more digits, and the integer that they write. -/
inductive Numeral : List Char → Int → Prop where
  | unsigned {ds : List Char} (h : IsDigits ds) : Numeral ds (positional ds)
  | plus {ds : List Char} (h : IsDigits ds) : Numeral ('+' :: ds) (positional ds)
  | minus {ds : List Char} (h : IsDigits ds) : Numeral ('-' :: ds) (-positional ds)

theorem isDigit_iff {c : Char} : isDigit c = true ↔ c ∈ decimalDigits := by
  constructor
  · intro h
    have hrange : 48 ≤ c.toNat ∧ c.toNat ≤ 57 := by
      unfold isDigit at h
      simpa [Char.le_def, UInt32.le_iff_toNat_le] using h
    have hall : ∀ n, 48 ≤ n ∧ n ≤ 57 → Char.ofNat n ∈ decimalDigits := by
      rintro n ⟨hlow, hhigh⟩
      interval_cases n <;> decide
    exact c.ofNat_toNat ▸ hall c.toNat hrange
  · exact List.all_eq_true.1 (show decimalDigits.all isDigit = true from by decide) c

theorem toNat_of_mem : ∀ d ∈ decimalDigits, d.toNat - 48 = decimalDigits.idxOf d := by
  simp [decimalDigits, List.idxOf_cons]

theorem decimalValue_eq {ds : List Char} (h : ∀ d ∈ ds, d ∈ decimalDigits) :
    decimalValue ds = positional ds := by
  induction ds using List.reverseRecOn with
  | nil => rfl
  | append_singleton ds d ih =>
    have hfront := ih fun e he => h e (List.mem_append_left _ he)
    have hlast := toNat_of_mem d (h d (by simp))
    unfold decimalValue positional at hfront ⊢
    rw [List.foldl_append, hfront, List.foldl_cons, List.foldl_nil, hlast, List.reverse_concat,
      List.map_cons, Nat.ofDigits_cons, Nat.add_comm]

end ApiFolio.Text

namespace ApiFolio.Export

open Text (Trims Numeral IsDigits)

theorem digitsValue?_eq_some_iff {ds : List Char} {n : Nat} :
    digitsValue? ds = some n ↔ IsDigits ds ∧ n = Text.positional ds := by
  have hdigits : (ds.isEmpty || !ds.all Text.isDigit) = true ↔ ¬IsDigits ds := by
    simp [IsDigits, ← Text.isDigit_iff, Classical.or_iff_not_imp_left]
  unfold digitsValue?
  split
  · rename_i hnot
    constructor
    · intro h
      cases h
    · exact fun h => absurd h.1 (hdigits.1 hnot)
  · rename_i his
    have hds : IsDigits ds := Classical.not_not.1 fun hnot => his (hdigits.2 hnot)
    rw [Text.decimalValue_eq hds.2, Option.some_inj]
    exact ⟨fun h => ⟨hds, h.symm⟩, fun h => h.2.symm⟩

theorem unsigned_eq_some_iff {ds : List Char} {z : Int} :
    (do let n ← digitsValue? ds; pure (n : Int)) = some z ↔
      IsDigits ds ∧ z = Text.positional ds := by
  constructor
  · intro h
    obtain ⟨n, hn, hz⟩ := Option.bind_eq_some_iff.1 h
    cases hz
    obtain ⟨hds, rfl⟩ := digitsValue?_eq_some_iff.1 hn
    exact ⟨hds, rfl⟩
  · rintro ⟨hds, rfl⟩
    exact Option.bind_eq_some_iff.2 ⟨_, digitsValue?_eq_some_iff.2 ⟨hds, rfl⟩, rfl⟩

theorem signedValue?_of_isDigits {ds : List Char} (h : IsDigits ds) :
    signedValue? ds = (do let n ← digitsValue? ds; pure (n : Int)) := by
  -- digits are no signs, so the last row applies
  have hsign : ∀ c ∈ ['-', '+'], ∀ rest, ds ≠ c :: rest := by
    rintro c hc rest rfl
    have hmem := h.2 c List.mem_cons_self
    revert hc hmem
    simp only [List.mem_cons, List.not_mem_nil, or_false]
    rintro (rfl | rfl) <;> decide
  rw [signedValue?]
  · exact Option.map_id'
  · exact fun rest => hsign '-' (by decide) rest
  · exact fun rest => hsign '+' (by decide) rest

/-- Reading succeeds for numerals only, with the integer that they write. -/
theorem signedValue?_eq_some_iff {cs : List Char} {z : Int} :
    signedValue? cs = some z ↔ Numeral cs z := by
  constructor
  · intro h
    unfold signedValue? at h
    split at h
    all_goals
      obtain ⟨w, hw, rfl⟩ := Option.map_eq_some_iff.1 h
      obtain ⟨hds, rfl⟩ := unsigned_eq_some_iff.1 hw
    · exact .minus hds
    · exact .plus hds
    · exact .unsigned hds
  · rintro (hds | hds | hds)
    · rw [signedValue?_of_isDigits hds]
      exact unsigned_eq_some_iff.2 ⟨hds, rfl⟩
    · exact Option.map_eq_some_iff.2 ⟨_, unsigned_eq_some_iff.2 ⟨hds, rfl⟩, rfl⟩
    · exact Option.map_eq_some_iff.2 ⟨_, unsigned_eq_some_iff.2 ⟨hds, rfl⟩, rfl⟩

/-- The key of a response writes an integer between its white space. -/
def Writes (status : String) (z : Int) : Prop :=
  ∃ body, Trims status.toList body ∧ Numeral body z

theorem writes_iff {status : String} {z : Int} :
    Writes status z ↔ signedValue? (Text.trimChars status.toList) = some z := by
  rw [signedValue?_eq_some_iff]
  constructor
  · rintro ⟨body, hbody, hz⟩
    rwa [Text.trimChars_eq_iff.2 hbody]
  · exact fun h => ⟨_, Text.trims_trimChars _, h⟩

/-- The code of a key is the integer that it writes, if that fits 64 bits with a sign, and zero
otherwise. -/
theorem statusCode_eq_iff (status : String) (z : Int) :
    statusCode status = z ↔
      (Writes status z ∧ -2 ^ 63 ≤ z ∧ z ≤ 2 ^ 63 - 1) ∨
        (z = 0 ∧ ¬∃ w, Writes status w ∧ -2 ^ 63 ≤ w ∧ w ≤ 2 ^ 63 - 1) := by
  simp only [writes_iff]
  unfold statusCode
  cases hvalue : signedValue? (Text.trimChars status.toList) with
  | none => simp [eq_comm]
  | some w =>
    simp only [Option.some_inj, exists_eq_left']
    by_cases hfits : -0x8000000000000000 ≤ w ∧ w ≤ 0x7FFFFFFFFFFFFFFF
    · rw [if_pos hfits]
      omega
    · rw [if_neg hfits]
      omega

/-- The two limits are not alike: the same digits fit with one sign and not with the other. -/
example : statusCode " -009223372036854775808\u2003" = -9223372036854775808 ∧
    statusCode "+9223372036854775808" = 0 := by decide

end ApiFolio.Export

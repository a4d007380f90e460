import ApiFolio.Proofs.Json.InRange
import ApiFolio.Proofs.Number.Digits
import ApiFolio.Proofs.Text.Digits

/-!
# Printed numbers are read

A whole number is printed by its digits, and a double by those of its shortest decimal, with a point
or an exponent where its size asks for them. Each of these forms has the shape of a written number,
and what it writes is the decimal itself (`reads_text`). That may be a little more than the double,
but not so much that reading overflows; only the two greatest doubles come too close for the general
bound, and their texts are read one by one (`Number.isSome_read?_text`).
-/

namespace ApiFolio

open Text (isDigit digits)

/-! ## Digits of a number -/

namespace Text

theorem digits_ne_nil (n : Nat) : digits 10 n ≠ [] := by
  unfold digits
  split <;> simp

theorem isDigit_of_mem_digits {n : Nat} : ∀ c ∈ digits 10 n, isDigit c = true := by
  have hdigit : ∀ d < 10, isDigit (hexDigit d) = true := by decide
  intro c hc
  obtain ⟨d, hd, rfl⟩ := mem_digits (by decide) hc
  exact hdigit d hd

theorem head?_digits {n : Nat} (hn : 0 < n) : (digits 10 n).head? ≠ some '0' := by
  have hdigit : ∀ d < 10, 0 < d → hexDigit d ≠ '0' := by decide
  induction n using Nat.strongRecOn with
  | ind n ih =>
    unfold digits
    split
    · rename_i hsmall
      simpa using hdigit n (by omega) hn
    · rename_i hsmall
      rw [List.head?_append_of_ne_nil _ (digits_ne_nil _)]
      exact ih (n / 10) (by omega) (by omega)

end Text

namespace Number

theorem append_digits (n : Nat) : append 0 (digits 10 n) = n := by
  have hdigit : ∀ d < 10, (Text.hexDigit d).toNat - 48 = d := by decide
  induction n using Nat.strongRecOn with
  | ind n ih =>
    unfold Text.digits
    split
    · rename_i hsmall
      rw [append_cons, hdigit n (by omega)]
      simp [append]
    · rename_i hsmall
      rw [append_append, ih (n / 10) (by omega), append_cons, hdigit _ (by omega)]
      show 10 * (n / 10) + n % 10 = n
      omega

theorem append_zeros (n k : Nat) : append n (List.replicate k '0') = n * 10 ^ k := by
  induction k generalizing n with
  | zero => simp [append]
  | succ k ih =>
    rw [List.replicate_succ, append_cons, ih]
    show (10 * n + 0) * 10 ^ k = n * 10 ^ (k + 1)
    ring

theorem append_lt {ds : List Char} (h : ∀ d ∈ ds, isDigit d = true) (n : Nat) :
    append n ds < (n + 1) * 10 ^ ds.length := by
  induction ds generalizing n with
  | nil => simp [append]
  | cons d ds ih =>
    obtain ⟨hd, hds⟩ := List.forall_mem_cons.1 h
    have hvalue : d.toNat - 48 ≤ 9 := by
      have hd : '0' ≤ d ∧ d ≤ '9' := by simpa [isDigit] using hd
      have hd : d.toNat ≤ 57 := UInt32.le_iff_toNat_le.1 hd.2
      omega
    rw [append_cons, List.length_cons]
    calc append (10 * n + (d.toNat - 48)) ds
        < (10 * n + (d.toNat - 48) + 1) * 10 ^ ds.length := ih hds _
      _ ≤ (10 * (n + 1)) * 10 ^ ds.length := by gcongr; omega
      _ = (n + 1) * 10 ^ (ds.length + 1) := by ring

/-! ## Parts of a text -/

/-- Digits before a point are taken for a whole number: no zero leads unless it is alone. -/
structure IsWhole (ds : List Char) : Prop where
  digits : ∀ d ∈ ds, isDigit d = true
  ne_nil : ds ≠ []
  head : ds.head? = some '0' → ds.length ≤ 1

/-- What follows does not go on with a digit. -/
def EndsDigits (cs : List Char) : Prop := ∀ c ∈ cs.head?, isDigit c = false

section

variable {ds cs : List Char} (hds : ∀ d ∈ ds, isDigit d = true) (hcs : EndsDigits cs)

include hds hcs

theorem takeWhile_digits : (ds ++ cs).takeWhile isDigit = ds := by
  rw [List.takeWhile_append_of_pos hds]
  cases cs with
  | nil => simp
  | cons c cs => rw [List.takeWhile_cons_of_neg (by simp [hcs c rfl]), List.append_nil]

theorem dropWhile_digits : (ds ++ cs).dropWhile isDigit = cs := by
  rw [List.dropWhile_append_of_pos hds]
  cases cs with
  | nil => rfl
  | cons c cs => rw [List.dropWhile_cons_of_neg (by simp [hcs c rfl])]

end

/-- The characters of a sign; a plus sign is not written. -/
def sign (negative : Bool) : List Char := if negative then ['-'] else []

/-- What is read behind the digits before a point. -/
def afterWhole? (negative : Bool) (whole : List Char) : List Char → Option Written
  | '.' :: rest =>
    let fraction := rest.takeWhile isDigit
    if fraction.isEmpty then none
    else
      (readExponent? (rest.dropWhile isDigit)).map fun e => ⟨negative, whole, some fraction, e⟩
  | rest => (readExponent? rest).map fun e => ⟨negative, whole, none, e⟩

/-- What is read behind a sign. -/
theorem readWritten?_sign (negative : Bool) (cs : List Char) (hcs : cs.head? ≠ some '-') :
    readWritten? (sign negative ++ cs) =
      if (cs.takeWhile isDigit).isEmpty = true ∨
          (cs.takeWhile isDigit).head? = some '0' ∧ 1 < (cs.takeWhile isDigit).length then none
      else afterWhole? negative (cs.takeWhile isDigit) (cs.dropWhile isDigit) := by
  cases negative with
  | true => rfl
  | false =>
    show readWritten? cs = _
    unfold readWritten?
    split
    rename_i negative rest heq
    split at heq
    · exact absurd rfl hcs
    · cases heq
      rfl

theorem readWritten?_digits {whole : List Char} (h : IsWhole whole) (negative : Bool)
    {tail : List Char} (htail : EndsDigits tail) :
    readWritten? (sign negative ++ (whole ++ tail)) = afterWhole? negative whole tail := by
  have hwhole : ¬(whole.isEmpty = true ∨ whole.head? = some '0' ∧ 1 < whole.length) := by
    rintro (hempty | ⟨hhead, hlength⟩)
    · exact h.ne_nil (List.isEmpty_iff.1 hempty)
    · exact (h.head hhead).not_gt hlength
  have hsign : (whole ++ tail).head? ≠ some '-' := by
    obtain ⟨d, ds, rfl⟩ := List.exists_cons_of_ne_nil h.ne_nil
    rintro ⟨⟩
    exact absurd (h.digits '-' List.mem_cons_self) (by decide)
  rw [readWritten?_sign negative _ hsign, takeWhile_digits h.digits htail,
    dropWhile_digits h.digits htail, if_neg hwhole]

theorem readWritten?_point {whole fraction : List Char} (h : IsWhole whole)
    (hfraction : ∀ d ∈ fraction, isDigit d = true) (hne : fraction ≠ []) (negative : Bool)
    {tail : List Char} (htail : EndsDigits tail) :
    readWritten? (sign negative ++ (whole ++ '.' :: (fraction ++ tail))) =
      (readExponent? tail).map fun e => ⟨negative, whole, some fraction, e⟩ := by
  rw [readWritten?_digits h negative (fun c hc => by cases hc; rfl)]
  unfold afterWhole?
  simp only [takeWhile_digits hfraction htail, dropWhile_digits hfraction htail]
  rw [if_neg fun hempty => hne (List.isEmpty_iff.1 hempty)]

/-- The text of an exponent. -/
def exponentText (e : Int) : List Char :=
  'e' :: (if e < 0 then '-' else '+') :: digits 10 e.natAbs

theorem endsDigits_exponentText (e : Int) : EndsDigits (exponentText e) := fun c hc => by
  cases hc
  rfl

theorem readExponent?_exponentText (e : Int) : readExponent? (exponentText e) = some (some e) := by
  have hds : ¬((digits 10 e.natAbs).isEmpty || !(digits 10 e.natAbs).all isDigit) = true := by
    have hall : (digits 10 e.natAbs).all isDigit = true :=
      List.all_eq_true.2 Text.isDigit_of_mem_digits
    simp [hall, Text.digits_ne_nil]
  have hvalue : Text.decimalValue (digits 10 e.natAbs) = e.natAbs := append_digits e.natAbs
  unfold readExponent? exponentText
  by_cases he : e < 0
  · simp only [if_pos he, if_neg hds, hvalue, true_or, if_true]
    congr 2
    omega
  · simp only [if_neg he, if_neg hds, hvalue, true_or, if_true, Bool.false_eq_true, if_false]
    congr 2
    omega

theorem readWritten?_exponent {whole : List Char} (h : IsWhole whole) (negative : Bool) (e : Int) :
    readWritten? (sign negative ++ (whole ++ exponentText e)) =
      some ⟨negative, whole, none, some e⟩ := by
  rw [readWritten?_digits h negative (endsDigits_exponentText e)]
  show (readExponent? (exponentText e)).map _ = _
  rw [readExponent?_exponentText, Option.map_some]

theorem readWritten?_whole {whole : List Char} (h : IsWhole whole) (negative : Bool) :
    readWritten? (sign negative ++ whole) = some ⟨negative, whole, none, none⟩ := by
  have h := @readWritten?_digits whole h negative [] fun c hc => by cases hc
  rwa [List.append_nil] at h

/-! ## Whole numbers -/

theorem isWhole_digits (n : Nat) : IsWhole (digits 10 n) where
  digits := Text.isDigit_of_mem_digits
  ne_nil := Text.digits_ne_nil n
  head := by
    intro hhead
    rcases n.eq_zero_or_pos with rfl | hn
    · unfold Text.digits
      exact le_rfl
    · exact absurd hhead (Text.head?_digits hn)

/-- A whole number that fits 64 bits is read as it was printed. -/
theorem read?_decimalText {n : Int} (hlow : leastWhole ≤ n) (hhigh : n ≤ greatestWhole) :
    read? (decimalText n).toList = some (.int n) := by
  have htext : (decimalText n).toList = sign (n < 0) ++ digits 10 n.natAbs := by
    unfold decimalText sign
    rw [String.toList_ofList]
    simp
  have hgather : gather 0 (digits 10 n.natAbs) = (n.natAbs, []) := by
    have h := @gather_of_le 0 (digits 10 n.natAbs)
    rw [append_digits] at h
    refine h ?_
    unfold leastWhole greatestWhole at *
    omega
  unfold read?
  rw [htext, readWritten?_whole (isWhole_digits _)]
  show ofWritten? _ = _
  unfold ofWritten?
  simp only [hgather]
  by_cases hn : n < 0
  · rw [if_pos ⟨rfl, rfl, rfl, .inr ⟨by omega, by omega⟩⟩]
    simp only [hn, decide_true, if_true]
    congr 2
    omega
  · rw [if_pos ⟨rfl, rfl, rfl, .inl (decide_eq_false hn)⟩]
    simp only [hn, decide_false, Bool.false_eq_true, if_false]
    congr 2
    omega

/-! ## Decimals -/

/-- The text is read, with either sign, as a number of this magnitude, and the digits before its
point fit 64 bits. -/
def Reads (cs : List Char) (v : ℚ) : Prop :=
  ∀ negative, ∃ w, readWritten? (sign negative ++ cs) = some w ∧
    append 0 w.whole ≤ greatestWhole ∧ w.magnitude = v

section Reads

variable {whole fraction : List Char} (h : IsWhole whole) (hlength : whole.length ≤ 16)

include h hlength

theorem append_le_greatestWhole : append 0 whole ≤ greatestWhole := by
  have hlt := append_lt h.digits 0
  have hpow : 10 ^ whole.length ≤ 10 ^ 16 := Nat.pow_le_pow_right (by decide) hlength
  unfold greatestWhole
  omega

theorem reads_exponent (e : Int) : Reads (whole ++ exponentText e) (append 0 whole * 10 ^ e) := by
  refine fun negative => ⟨_, readWritten?_exponent h negative e,
    append_le_greatestWhole h hlength, ?_⟩
  simp [Written.magnitude]

variable (hfraction : ∀ d ∈ fraction, isDigit d = true) (hne : fraction ≠ [])

include hfraction hne

theorem reads_point :
    Reads (whole ++ '.' :: fraction)
      (append 0 (whole ++ fraction) * 10 ^ (-(fraction.length : Int))) := by
  intro negative
  have hread := @readWritten?_point whole fraction h hfraction hne negative [] fun c hc => by
    cases hc
  rw [List.append_nil] at hread
  refine ⟨_, hread, append_le_greatestWhole h hlength, ?_⟩
  simp [Written.magnitude]

theorem reads_pointExponent (e : Int) :
    Reads (whole ++ '.' :: (fraction ++ exponentText e))
      (append 0 (whole ++ fraction) * 10 ^ (e - fraction.length)) := by
  intro negative
  have hread := readWritten?_point h hfraction hne negative (endsDigits_exponentText e)
  rw [readExponent?_exponentText, Option.map_some] at hread
  exact ⟨_, hread, append_le_greatestWhole h hlength, rfl⟩

end Reads

/-- Digits of which the first is not zero. -/
structure Leads (ds : List Char) : Prop where
  digits : ∀ d ∈ ds, isDigit d = true
  ne_nil : ds ≠ []
  head : ds.head? ≠ some '0'

namespace Leads

theorem isDigit_zeros (k : Nat) : ∀ d ∈ List.replicate k '0', isDigit d = true := fun d hd => by
  rw [List.eq_of_mem_replicate hd]
  rfl

variable {ds : List Char} (h : Leads ds)

include h

theorem isWhole_append {es : List Char} (hes : ∀ d ∈ es, isDigit d = true) :
    IsWhole (ds ++ es) where
  digits := List.forall_mem_append.2 ⟨h.digits, hes⟩
  ne_nil := List.append_ne_nil_of_left_ne_nil h.ne_nil es
  head := by
    rw [List.head?_append_of_ne_nil _ h.ne_nil]
    exact fun hhead => absurd hhead h.head

/-- All digits stand before the point. -/
theorem reads_large {k : Nat} (hk : ds.length + k ≤ 16) :
    Reads (ds ++ List.replicate k '0' ++ ['.', '0']) (append 0 ds * 10 ^ (k : Int)) := by
  have hreads := reads_point (h.isWhole_append (isDigit_zeros k)) (by simpa using hk)
    (isDigit_zeros 1) (List.cons_ne_nil _ _)
  rw [append_append, append_append, append_zeros, append_zeros, List.length_replicate] at hreads
  have hvalue : (append 0 ds * 10 ^ (k : Int) : ℚ) =
      (append 0 ds * 10 ^ k * 10 ^ 1 : Nat) * 10 ^ (-((1 : Nat) : Int)) := by
    push_cast
    rw [zpow_natCast, zpow_neg_one]
    ring
  rw [hvalue]
  exact hreads

/-- The point stands between the digits. -/
theorem reads_between {i : Nat} (hpos : 0 < i) (hlt : i < ds.length) (hi : i ≤ 16) :
    Reads (ds.take i ++ '.' :: ds.drop i) (append 0 ds * 10 ^ ((i : Int) - ds.length)) := by
  have hwhole : IsWhole (ds.take i) := {
    digits := fun d hd => h.digits d (List.mem_of_mem_take hd)
    ne_nil := fun hnil => (List.take_eq_nil_iff.1 hnil).elim hpos.ne' h.ne_nil
    head := by
      rw [List.head?_take, if_neg hpos.ne']
      exact fun hhead => absurd hhead h.head }
  have hreads := reads_point hwhole (by simp; omega)
    (fun d hd => h.digits d (List.mem_of_mem_drop hd)) (mt List.drop_eq_nil_iff.1 hlt.not_ge)
  have hlength : (i : Int) - ds.length = -((ds.drop i).length : Int) := by
    rw [List.length_drop]
    omega
  rw [List.take_append_drop] at hreads
  rw [hlength]
  exact hreads

/-- All digits stand behind the point, and zeros before them. -/
theorem reads_small (k : Nat) :
    Reads ('0' :: '.' :: (List.replicate k '0' ++ ds))
      (append 0 ds * 10 ^ (-((k + ds.length : Nat) : Int))) := by
  have hwhole : IsWhole ['0'] := ⟨isDigit_zeros 1, List.cons_ne_nil _ _, fun _ => le_rfl⟩
  have hreads := reads_point hwhole (by simp)
    (List.forall_mem_append.2 ⟨isDigit_zeros k, h.digits⟩)
    (List.append_ne_nil_of_right_ne_nil _ h.ne_nil)
  have hvalue : append 0 (['0'] ++ (List.replicate k '0' ++ ds)) = append 0 ds := by
    show append 0 (List.replicate (k + 1) '0' ++ ds) = _
    rw [append_append, append_zeros, Nat.zero_mul]
  rw [hvalue, List.length_append, List.length_replicate] at hreads
  exact hreads

/-- The point stands behind the first digit, if there are more, and an exponent follows. -/
theorem reads_scientific (e : Int) :
    Reads (Decimal.mantissa ds ++ exponentText e)
      (append 0 ds * 10 ^ (e - (ds.length - 1))) := by
  obtain ⟨d, es, rfl⟩ := List.exists_cons_of_ne_nil h.ne_nil
  obtain ⟨hd, hes⟩ := List.forall_mem_cons.1 h.digits
  have hwhole : IsWhole [d] := ⟨by simpa using hd, List.cons_ne_nil _ _, fun _ => le_rfl⟩
  cases es with
  | nil =>
    have hone : (([d].length : Int) - 1) = 0 := rfl
    rw [hone, sub_zero]
    exact reads_exponent hwhole (by simp) e
  | cons f fs =>
    have hlength : ((d :: f :: fs).length : Int) - 1 = (f :: fs).length := by
      rw [List.length_cons]
      omega
    rw [hlength]
    exact reads_pointExponent hwhole (by simp) hes (List.cons_ne_nil f fs) e

end Leads

/-- The text of a decimal is read as its digits and its scale. -/
theorem reads_text {x : Decimal} (hx : 0 < x.digits) : Reads x.text x.value := by
  have hleads : Leads (digits 10 x.digits) :=
    ⟨Text.isDigit_of_mem_digits, Text.digits_ne_nil _, Text.head?_digits hx⟩
  have hvalue := append_digits x.digits
  unfold Decimal.text Decimal.value
  generalize digits 10 x.digits = ds at *
  have hlength := List.length_pos_of_ne_nil hleads.ne_nil
  simp only
  rw [← hvalue]
  split
  · rename_i hform
    have hreads := @Leads.reads_large ds hleads x.exponent.toNat (by omega)
    rwa [Int.toNat_of_nonneg hform.1] at hreads
  · split
    · rename_i hform
      have hscale : (((x.exponent + ds.length - 1).toNat + 1 : Nat) : Int) - ds.length =
          x.exponent := by omega
      have hreads := @Leads.reads_between ds hleads ((x.exponent + ds.length - 1).toNat + 1)
        (Nat.succ_pos _) (by omega) (by omega)
      rwa [hscale] at hreads
    · split
      · rename_i hform
        have hscale : -(((-(x.exponent + ds.length - 1) - 1).toNat + ds.length : Nat) : Int) =
            x.exponent := by omega
        have hreads := hleads.reads_small (-(x.exponent + ds.length - 1) - 1).toNat
        rwa [hscale] at hreads
      · have hscale : x.exponent + ds.length - 1 - (ds.length - 1) = x.exponent := by omega
        have hreads := hleads.reads_scientific (x.exponent + ds.length - 1)
        rwa [hscale] at hreads

/-! ## Doubles -/

theorem isSome_read?_of_reads {cs : List Char} {v : ℚ} (h : Reads cs v)
    (hv : v ≤ Binary64.ceiling) (negative : Bool) :
    (read? (sign negative ++ cs)).isSome = true := by
  obtain ⟨w, hread, hwhole, rfl⟩ := h negative
  unfold read?
  rw [hread]
  exact isSome_ofWritten? hwhole hv

/-- A double is known by its sign and its pattern. -/
theorem eq_ofPattern (x : Binary64) : x = .ofPattern x.isNegative x.pattern := by
  have hlt := x.bits.toNat_lt
  have hbits : x.bits.toNat =
      if x.isNegative then Binary64.signBit + x.pattern else x.pattern := by
    unfold Binary64.isNegative Binary64.pattern Binary64.signBit
    split <;> rename_i hsign <;> simp only [decide_eq_true_eq] at hsign <;> omega
  unfold Binary64.ofPattern
  rw [← hbits, UInt64.ofNat_toNat]

/-- The two greatest finite doubles, of either sign, are read though they are above the bound. -/
theorem isSome_read?_greatest {x : Binary64} (h : x.exponent = 971)
    (hs : 2 ^ 53 - 3 < x.significand) : (read? x.text.toList).isSome = true := by
  have hpattern : x.pattern = 0x7FEFFFFFFFFFFFFE ∨ x.pattern = 0x7FEFFFFFFFFFFFFF := by
    unfold Binary64.significand Binary64.exponent Binary64.exponentBit at *
    split at hs <;> omega
  rw [eq_ofPattern x]
  obtain hpattern | hpattern := hpattern <;> rw [hpattern] <;> cases x.isNegative <;>
    decide +kernel

theorem isSome_read?_float {x : Binary64} (h : x.isFinite = true) :
    (read? x.text.toList).isSome = true := by
  by_cases hgreat : x.exponent = 971 ∧ 2 ^ 53 - 3 < x.significand
  · exact isSome_read?_greatest hgreat.1 hgreat.2
  · have htext : x.text.toList =
        sign x.isNegative ++ if x.isZero then ['0', '.', '0'] else x.shortest.text :=
      String.toList_ofList
    rw [htext]
    split
    · cases x.isNegative <;> decide +kernel
    · rename_i hzero
      have hzero : x.isZero = false := by simpa using hzero
      have hexponent := Binary64.exponent_le h
      refine isSome_read?_of_reads (reads_text (Binary64.digits_shortest_pos hzero))
        (Binary64.value_shortest_le h ?_) _
      omega

end Number

/-- The text of every number that a document can hold is read as a number. -/
theorem Number.isSome_read?_text : {n : Number} → n.InRange → (read? n.text.toList).isSome = true
  | .int n, h => by
    show (read? (decimalText n).toList).isSome = true
    rw [read?_decimalText h.1 h.2]
    rfl
  | .float _, h => isSome_read?_float h

end ApiFolio

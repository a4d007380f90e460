import ApiFolio.Proofs.Text.Digits
import ApiFolio.Text.Quoted
import Mathlib.Tactic.SplitIfs

/-!
# Reading quoted text

Each character between the quotes is read back from its form, whatever follows it
(`unquoteChar?_quotedChar`), and none of these forms begins with a quote. So a quoted text tells
what it quotes and where it ends (`quoted_append_inj`).
-/

namespace ApiFolio.Text

/-- Reads the form of one character, with what follows it. -/
def unquoteChar? : List Char → Option (Char × List Char)
  | [] => none
  | '\\' :: '"' :: cs => some ('"', cs)
  | '\\' :: '\\' :: cs => some ('\\', cs)
  | '\\' :: 'n' :: cs => some ('\n', cs)
  | '\\' :: 'r' :: cs => some ('\r', cs)
  | '\\' :: 't' :: cs => some ('\t', cs)
  | '\\' :: '0' :: cs => some ('\x00', cs)
  | '\\' :: 'u' :: '{' :: cs =>
    some (Char.ofNat (digitsValue 16 (cs.takeWhile (· ≠ '}'))), (cs.dropWhile (· ≠ '}')).tail)
  | c :: cs => some (c, cs)

theorem unquoteChar?_codePoint (c : Char) (cs : List Char) :
    unquoteChar? ('\\' :: 'u' :: '{' :: (digits 16 c.toNat ++ '}' :: cs)) = some (c, cs) := by
  have hdigits : ∀ d ∈ digits 16 c.toNat, decide (d ≠ '}') = true := by
    rintro d hd
    refine decide_eq_true fun heq => ?_
    exact notMem_digits (by decide) (by decide) (by decide) c.toNat (heq ▸ hd)
  have htake : (digits 16 c.toNat ++ '}' :: cs).takeWhile (· ≠ '}') = digits 16 c.toNat := by
    rw [List.takeWhile_append_of_pos hdigits, List.takeWhile_cons_of_neg (by decide),
      List.append_nil]
  have hdrop : (digits 16 c.toNat ++ '}' :: cs).dropWhile (· ≠ '}') = '}' :: cs := by
    rw [List.dropWhile_append_of_pos hdigits, List.dropWhile_cons_of_neg (by decide)]
  rw [unquoteChar?, htake, hdrop, digitsValue_digits (by decide) (by decide), Char.ofNat_toNat]
  rfl

theorem unquoteChar?_cons {c : Char} (hc : c ≠ '\\') (cs : List Char) :
    unquoteChar? (c :: cs) = some (c, cs) := by
  rw [unquoteChar?]
  -- the other rows are those of escapes
  all_goals
    intros
    exact hc ‹_›

/-- The form of a character is read back, whatever follows it. -/
theorem unquoteChar?_quotedChar (c : Char) (cs : List Char) :
    unquoteChar? (quotedChar c ++ cs) = some (c, cs) := by
  unfold quotedChar
  split_ifs with hquote hbackslash hline hreturn htab hnull hhidden
  · subst hquote
    rfl
  · subst hbackslash
    rfl
  · subst hline
    rfl
  · subst hreturn
    rfl
  · subst htab
    rfl
  · subst hnull
    rfl
  · rw [List.append_assoc, List.append_assoc]
    exact unquoteChar?_codePoint c cs
  · exact unquoteChar?_cons hbackslash cs

theorem quotedChar_append_inj {c d : Char} {s t : List Char}
    (h : quotedChar c ++ s = quotedChar d ++ t) : c = d ∧ s = t := by
  have hread := unquoteChar?_quotedChar c s
  rw [h, unquoteChar?_quotedChar] at hread
  exact ⟨(Prod.mk.inj (Option.some.inj hread)).1.symm, (Prod.mk.inj (Option.some.inj hread)).2.symm⟩

/-- No character has a form that begins with a quote. -/
theorem quotedChar_append_ne_quote (c : Char) (s t : List Char) : quotedChar c ++ s ≠ '"' :: t := by
  have hread := unquoteChar?_quotedChar c s
  intro h
  rw [h, unquoteChar?_cons (by decide)] at hread
  obtain ⟨rfl, rfl⟩ := Prod.mk.inj (Option.some.inj hread)
  -- the quote itself is written with a backslash
  cases h

theorem flatMap_quotedChar_inj {a b s t : List Char}
    (h : a.flatMap quotedChar ++ '"' :: s = b.flatMap quotedChar ++ '"' :: t) : a = b ∧ s = t := by
  induction a generalizing b with
  | nil =>
    cases b with
    | nil => exact ⟨rfl, (List.cons.inj h).2⟩
    | cons d b =>
      rw [List.flatMap_cons, List.append_assoc] at h
      exact absurd h.symm (quotedChar_append_ne_quote d _ _)
  | cons c a ih =>
    rw [List.flatMap_cons, List.append_assoc] at h
    cases b with
    | nil => exact absurd h (quotedChar_append_ne_quote c _ _)
    | cons d b =>
      rw [List.flatMap_cons, List.append_assoc] at h
      obtain ⟨rfl, hrest⟩ := quotedChar_append_inj h
      obtain ⟨rfl, hst⟩ := ih hrest
      exact ⟨rfl, hst⟩

/-- A quoted text tells what it quotes, whatever follows it. -/
theorem quoted_append_inj {a b s t : String} (h : quoted a ++ s = quoted b ++ t) :
    a = b ∧ s = t := by
  have hlist : a.toList.flatMap quotedChar ++ '"' :: s.toList =
      b.toList.flatMap quotedChar ++ '"' :: t.toList := by
    have hchars := congrArg String.toList h
    unfold quoted at hchars
    simpa using hchars
  obtain ⟨hab, hst⟩ := flatMap_quotedChar_inj hlist
  exact ⟨String.toList_inj.1 hab, String.toList_inj.1 hst⟩

end ApiFolio.Text

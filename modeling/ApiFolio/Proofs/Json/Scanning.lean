import ApiFolio.Json.Printer
import ApiFolio.Json.Token
import ApiFolio.Proofs.Text.Digits
import Mathlib.Data.List.Forall2

/-!
# Scanning what was printed

Both layouts of a value print the same words, strings and punctuation, its lexemes, and differ in
the white space between them (`spells_render`). The scanner is indifferent to this white space, and
it finds each lexeme whole because no word is followed by a character of words (`Spells.scan`). So
what it finds in a printed text depends on the value alone (`scan?_render`).
-/

namespace ApiFolio.Json

/-- A piece of a text: punctuation, a string, or a word that is not yet given a value. -/
inductive Lexeme where
  | mark (t : Token)
  | text (s : String)
  /-- A number, a truth value or null, as it is written. -/
  | word (cs : List Char)

namespace Lexeme

/-- The token of a lexeme; a word has one if it has a value. -/
def token? : Lexeme → Option Token
  | mark t => some t
  | text s => some (.text s)
  | word cs => (Token.ofWord? cs).map .atom

/-- The tokens of lexemes, if all have one. -/
def tokens? : List Lexeme → Option (List Token)
  | [] => some []
  | l :: ls => (token? l).bind fun t => (tokens? ls).map (t :: ·)

end Lexeme

/-! ## The lexemes of a value -/

mutual

/-- The lexemes that print a value, in either layout. -/
def lexemes : Json → List Lexeme
  | null => [.word ['n', 'u', 'l', 'l']]
  | bool true => [.word ['t', 'r', 'u', 'e']]
  | bool false => [.word ['f', 'a', 'l', 's', 'e']]
  | num n => [.word n.text.toList]
  | str s => [.text s]
  | arr items =>
    .mark .openArray :: ([.mark .comma].intercalate (lexemesItems items) ++ [.mark .closeArray])
  | obj members =>
    .mark .openObject ::
      ([.mark .comma].intercalate (lexemesMembers members) ++ [.mark .closeObject])

def lexemesItems : List Json → List (List Lexeme)
  | [] => []
  | v :: vs => lexemes v :: lexemesItems vs

def lexemesMembers : List (String × Json) → List (List Lexeme)
  | [] => []
  | (k, v) :: rest => (.text k :: .mark .colon :: lexemes v) :: lexemesMembers rest

end

/-! ## Texts that spell lexemes -/

open Token (Scanner isSpace isWord ofPunctuation? ofWord? start?)

/-- The text does not go on with a character of words. -/
def Apart (cs : List Char) : Prop := ∀ c ∈ cs.head?, isWord c = false

theorem Apart.append {cs ds : List Char} (hc : Apart cs) (hd : Apart ds) : Apart (cs ++ ds) := by
  cases cs with
  | nil => exact hd
  | cons c cs => exact hc

/-- The text writes the lexemes one after the other, with white space before and behind any. -/
inductive Spells : List Lexeme → List Char → Prop where
  | done : Spells [] []
  | space {ls : List Lexeme} {c : Char} {cs : List Char} (hc : isSpace c = true)
      (h : Spells ls cs) : Spells ls (c :: cs)
  | mark {ls : List Lexeme} {c : Char} {t : Token} {cs : List Char}
      (hc : ofPunctuation? c = some t) (h : Spells ls cs) : Spells (.mark t :: ls) (c :: cs)
  | text {ls : List Lexeme} {cs : List Char} (s : String) (h : Spells ls cs) :
      Spells (.text s :: ls) ((quoted s).toList ++ cs)
  | word {ls : List Lexeme} {w cs : List Char} (hne : w ≠ [])
      (hw : w.all isWord = true) (hcs : Apart cs) (h : Spells ls cs) :
      Spells (.word w :: ls) (w ++ cs)

namespace Spells

variable {ls ms : List Lexeme} {cs ds : List Char}

theorem append (h : Spells ls cs) (hms : Spells ms ds) (hds : Apart ds) :
    Spells (ls ++ ms) (cs ++ ds) := by
  induction h with
  | done => exact hms
  | space hc _ ih => exact .space hc ih
  | mark hc _ ih => exact .mark hc ih
  | text s _ ih =>
    rw [List.append_assoc]
    exact .text s ih
  | word hne hw hcs _ ih =>
    rw [List.append_assoc]
    exact .word hne hw (hcs.append hds) ih

theorem spaces {gap : List Char} (hgap : gap.all isSpace = true) (h : Spells ls cs) :
    Spells ls (gap ++ cs) := by
  induction gap with
  | nil => exact h
  | cons c gap ih =>
    obtain ⟨hc, hgap⟩ := Bool.and_eq_true_iff.1 hgap
    exact .space hc (ih hgap)

/-- Texts with a separator between them, which may end in white space. -/
theorem intercalate {gap : List Char} (hgap : gap.all isSpace = true)
    {lss : List (List Lexeme)} {css : List (List Char)} (h : List.Forall₂ Spells lss css) :
    Spells ([.mark .comma].intercalate lss) ((',' :: gap).intercalate css) := by
  induction h with
  | nil => exact .done
  | cons hfirst hrest ih =>
    cases hrest with
    | nil =>
      rw [List.intercalate_singleton, List.intercalate_singleton]
      exact hfirst
    | cons hsecond hrest =>
      rw [List.intercalate_cons_cons, List.intercalate_cons_cons, List.append_assoc,
        List.append_assoc]
      exact hfirst.append (.mark rfl (ih.spaces hgap)) fun c hc => by cases hc; rfl

end Spells

/-! ## Scanning a spelled text -/

namespace Token

/-- The tokens of the rest of a text. -/
def goOn? (s : Scanner) (cs : List Char) : Option (List Token) := cs.foldlM step? s >>= finish?

theorem goOn?_cons (s : Scanner) (c : Char) (cs : List Char) :
    goOn? s (c :: cs) = (step? s c).bind fun t => goOn? t cs := by
  unfold goOn?
  rw [List.foldlM_cons]
  exact Option.bind_assoc _ _ _

theorem goOn?_of_step? {s t : Scanner} {c : Char} (h : step? s c = some t) (cs : List Char) :
    goOn? s (c :: cs) = goOn? t cs := by
  rw [goOn?_cons, h, Option.bind_some]

theorem step?_of_isSpace {c : Char} (hc : isSpace c = true) (found : List Token) :
    step? ⟨.between, found⟩ c = some ⟨.between, found⟩ := by
  show start? found c = _
  unfold start?
  rw [if_pos hc]

theorem ofPunctuation?_cases {c : Char} {t : Token} (h : ofPunctuation? c = some t) :
    c = '[' ∨ c = ']' ∨ c = '{' ∨ c = '}' ∨ c = ',' ∨ c = ':' := by
  unfold ofPunctuation? at h
  repeat'
    split at h
    · simp [*]
  cases h

theorem step?_of_ofPunctuation? {c : Char} {t : Token} (h : ofPunctuation? c = some t)
    (found : List Token) : step? ⟨.between, found⟩ c = some ⟨.between, t :: found⟩ := by
  have hstep : step? ⟨.between, found⟩ c =
      (ofPunctuation? c).map fun t => ⟨.between, t :: found⟩ := by
    obtain rfl | rfl | rfl | rfl | rfl | rfl := ofPunctuation?_cases h <;> rfl
  rw [hstep, h, Option.map_some]

theorem isSpace_eq_false {c : Char} (hc : isWord c = true) : isSpace c = false := by
  rw [← Bool.not_eq_true]
  intro hspace
  simp only [isSpace, Bool.or_eq_true, beq_iff_eq] at hspace
  obtain ((rfl | rfl) | rfl) | rfl := hspace <;> cases hc

theorem step?_of_isWord {c : Char} (hc : isWord c = true) (found : List Token) :
    step? ⟨.between, found⟩ c = some ⟨.word [c], found⟩ := by
  have hquote : c ≠ '"' := by
    rintro rfl
    cases hc
  show start? found c = _
  unfold start?
  rw [isSpace_eq_false hc, if_neg Bool.false_ne_true, if_neg hquote, if_pos hc]

/-- A word goes on for as long as there are characters of words. -/
theorem goOn?_word {w : List Char} (hw : w.all isWord = true) (seen : List Char)
    (found : List Token) (cs : List Char) :
    goOn? ⟨.word seen, found⟩ (w ++ cs) = goOn? ⟨.word (w.reverse ++ seen), found⟩ cs := by
  induction w generalizing seen with
  | nil => rfl
  | cons c w ih =>
    obtain ⟨hc, hw⟩ := Bool.and_eq_true_iff.1 hw
    have hstep : step? ⟨.word seen, found⟩ c = some ⟨.word (c :: seen), found⟩ := if_pos hc
    rw [List.cons_append, goOn?_of_step? hstep, ih hw, List.reverse_cons, List.append_assoc]
    rfl

/-- A word ends before any other character, and then it has to have a value. -/
theorem goOn?_wordEnd {cs : List Char} (hcs : Apart cs) (seen : List Char)
    (found : List Token) :
    goOn? ⟨.word seen, found⟩ cs =
      (ofWord? seen.reverse).bind fun v => goOn? ⟨.between, atom v :: found⟩ cs := by
  cases cs with
  | nil => cases h : ofWord? seen.reverse <;> simp [goOn?, finish?, h]
  | cons c cs =>
    have hc : step? ⟨.word seen, found⟩ c =
        (ofWord? seen.reverse).bind fun v => start? (atom v :: found) c :=
      if_neg (by simp [hcs c rfl])
    rw [goOn?_cons, hc, Option.bind_assoc]
    refine congrArg _ (funext fun v => ?_)
    rw [goOn?_cons]
    rfl

/-- The four digits of a code unit below the space give the character of that number. -/
theorem goOn?_control {n : Nat} (hn : n < 0x20) (seen : List Char) (found : List Token)
    (cs : List Char) :
    goOn? ⟨.code seen none 0 0, found⟩
        ('0' :: '0' :: Text.hexDigit (n / 16) :: Text.hexDigit (n % 16) :: cs) =
      goOn? ⟨.text (Char.ofNat n :: seen), found⟩ cs := by
  have hthird : step? ⟨.code seen none 0 2, found⟩ (Text.hexDigit (n / 16)) =
      some ⟨.code seen none (n / 16) 3, found⟩ := by
    simp [step?, Text.hexValue?_hexDigit (n / 16) (by omega)]
  have hunit : 16 * (n / 16) + n % 16 = n := Nat.div_add_mod n 16
  have hlast : step? ⟨.code seen none (n / 16) 3, found⟩ (Text.hexDigit (n % 16)) =
      codeUnit? found seen none n := by
    simp [step?, Text.hexValue?_hexDigit (n % 16) (by omega), hunit]
  have hcharacter : codeUnit? found seen none n =
      some ⟨.text (Char.ofNat n :: seen), found⟩ := by
    unfold codeUnit?
    rw [if_neg (by omega), if_neg (by omega)]
  have hzero (count : Nat) (hcount : count < 3) : step? ⟨.code seen none 0 count, found⟩ '0' =
      some ⟨.code seen none 0 (count + 1), found⟩ := if_neg (by omega)
  rw [goOn?_of_step? (hzero 0 (by omega)), goOn?_of_step? (hzero 1 (by omega)),
    goOn?_of_step? hthird, goOn?_of_step? (hlast.trans hcharacter)]

/-- An escaped character adds the character to the string. -/
theorem goOn?_escapedChar (c : Char) (seen : List Char) (found : List Token) (cs : List Char) :
    goOn? ⟨.text seen, found⟩ (escapedChar c ++ cs) = goOn? ⟨.text (c :: seen), found⟩ cs := by
  by_cases hquote : c = '"'
  · subst hquote
    rfl
  by_cases hbackslash : c = '\\'
  · subst hbackslash
    rfl
  unfold escapedChar
  rw [if_neg hquote, if_neg hbackslash]
  iterate 5
    split
    · subst c
      rfl
  split
  · rename_i hcontrol
    have h := goOn?_control hcontrol seen found cs
    rwa [Char.ofNat_toNat] at h
  · rename_i hcontrol
    refine goOn?_of_step? ?_ cs
    simp [step?, hquote, hbackslash, hcontrol]

theorem goOn?_escaped (s : List Char) (seen : List Char) (found : List Token) (cs : List Char) :
    goOn? ⟨.text seen, found⟩ (s.flatMap escapedChar ++ cs) =
      goOn? ⟨.text (s.reverse ++ seen), found⟩ cs := by
  induction s generalizing seen with
  | nil => rfl
  | cons c s ih =>
    rw [List.flatMap_cons, List.append_assoc, goOn?_escapedChar, ih, List.reverse_cons,
      List.append_assoc]
    rfl

theorem goOn?_quoted (s : String) (found : List Token) (cs : List Char) :
    goOn? ⟨.between, found⟩ ((quoted s).toList ++ cs) = goOn? ⟨.between, text s :: found⟩ cs := by
  unfold quoted
  rw [String.toList_ofList, List.cons_append, List.append_assoc,
    goOn?_of_step? (show step? ⟨.between, found⟩ '"' = some ⟨.text [], found⟩ from rfl),
    goOn?_escaped, List.append_nil, List.singleton_append,
    goOn?_of_step? (show step? ⟨.text s.toList.reverse, found⟩ '"' =
      some ⟨.between, text (String.ofList s.toList.reverse.reverse) :: found⟩ from rfl),
    List.reverse_reverse, String.ofList_toList]

end Token

open Token (goOn? goOn?_of_step?)

/-- The tokens of a text are those of the lexemes that it spells. -/
theorem Spells.scan {ls : List Lexeme} {cs : List Char} (h : Spells ls cs)
    (found : List Token) :
    goOn? ⟨.between, found⟩ cs = (Lexeme.tokens? ls).map (found.reverse ++ ·) := by
  induction h generalizing found with
  | done => simp [goOn?, Token.finish?, Lexeme.tokens?]
  | space hc _ ih =>
    rw [goOn?_of_step? (Token.step?_of_isSpace hc found), ih]
  | mark hc _ ih =>
    rw [goOn?_of_step? (Token.step?_of_ofPunctuation? hc found), ih]
    simp [Lexeme.tokens?, Lexeme.token?, Function.comp_def]
  | text s _ ih =>
    rw [Token.goOn?_quoted, ih]
    simp [Lexeme.tokens?, Lexeme.token?, Function.comp_def]
  | @word ls w cs hne hw hcs _ ih =>
    obtain ⟨c, w, rfl⟩ := List.exists_cons_of_ne_nil hne
    obtain ⟨hc, hw⟩ := Bool.and_eq_true_iff.1 hw
    have hseen : (w.reverse ++ [c]).reverse = c :: w := by simp
    rw [List.cons_append, goOn?_of_step? (Token.step?_of_isWord hc found), Token.goOn?_word hw,
      Token.goOn?_wordEnd hcs, hseen]
    cases hvalue : ofWord? (c :: w) with
    | none => simp [Lexeme.tokens?, Lexeme.token?, hvalue]
    | some v => simp [Lexeme.tokens?, Lexeme.token?, hvalue, ih, Function.comp_def]

/-! ## Printed numbers -/

/-- The characters of printed numbers. -/
def numberChars : List Char :=
  ['0', '1', '2', '3', '4', '5', '6', '7', '8', '9', '+', '-', '.', 'e']

/-- Characters of numbers only, and one at least. -/
def IsNumeral (cs : List Char) : Prop := cs ≠ [] ∧ ∀ c ∈ cs, c ∈ numberChars

theorem isWord_of_isNumeral {cs : List Char} (h : IsNumeral cs) : cs.all isWord = true := by
  have hword : numberChars.all isWord = true := by decide
  exact List.all_eq_true.2 fun c hc => List.all_eq_true.1 hword c (h.2 c hc)

theorem ofWord?_of_isNumeral {cs : List Char} (h : IsNumeral cs) :
    ofWord? cs = (Number.read? cs).map .num := by
  have hnot {w : List Char} (c : Char) (hc : c ∈ w) (hno : c ∉ numberChars) : cs ≠ w := by
    rintro rfl
    exact hno (h.2 c hc)
  unfold ofWord?
  rw [if_neg (hnot 'n' (by decide) (by decide)), if_neg (hnot 't' (by decide) (by decide)),
    if_neg (hnot 'f' (by decide) (by decide))]

theorem isNumeral_digits (n : Nat) : IsNumeral (Text.digits 10 n) := by
  have hdigit : ∀ d < 10, Text.hexDigit d ∈ numberChars := by decide
  refine ⟨?_, fun c hc => ?_⟩
  · unfold Text.digits
    split <;> simp
  · obtain ⟨d, hd, rfl⟩ := Text.mem_digits (by decide) hc
    exact hdigit d hd

theorem mantissa_subset {ds : List Char} (h : ∀ c ∈ ds, c ∈ numberChars) :
    ∀ c ∈ Decimal.mantissa ds, c ∈ numberChars := by
  unfold Decimal.mantissa
  split
  · exact h
  · exact h
  · obtain ⟨hd, hds⟩ := List.forall_mem_cons.1 h
    exact List.forall_mem_cons.2 ⟨hd, List.forall_mem_cons.2 ⟨by decide, hds⟩⟩

theorem replicate_zero_subset (n : Nat) : ∀ c ∈ List.replicate n '0', c ∈ numberChars := by
  intro c hc
  rw [List.eq_of_mem_replicate hc]
  decide

theorem isNumeral_decimal (x : Decimal) : IsNumeral x.text := by
  obtain ⟨-, hdigits⟩ := isNumeral_digits x.digits
  unfold Decimal.text
  simp only
  split
  · exact ⟨by simp, List.forall_mem_append.2 ⟨List.forall_mem_append.2
      ⟨hdigits, replicate_zero_subset _⟩, by simp [numberChars]⟩⟩
  · split
    · exact ⟨by simp, List.forall_mem_append.2 ⟨fun c hc => hdigits c (List.mem_of_mem_take hc),
        List.forall_mem_cons.2 ⟨by decide, fun c hc => hdigits c (List.mem_of_mem_drop hc)⟩⟩⟩
    · split
      · exact ⟨by simp, List.forall_mem_cons.2 ⟨by decide, List.forall_mem_cons.2 ⟨by decide,
          List.forall_mem_append.2 ⟨replicate_zero_subset _, hdigits⟩⟩⟩⟩
      · refine ⟨by simp, List.forall_mem_append.2 ⟨mantissa_subset hdigits,
          List.forall_mem_cons.2 ⟨by decide, List.forall_mem_cons.2 ⟨?_,
            (isNumeral_digits _).2⟩⟩⟩⟩
        split <;> decide

theorem IsNumeral.signed {cs : List Char} (h : IsNumeral cs) (negative : Prop)
    [Decidable negative] : IsNumeral ((if negative then ['-'] else []) ++ cs) := by
  refine ⟨by simp [h.1], List.forall_mem_append.2 ⟨?_, h.2⟩⟩
  split <;> simp [numberChars]

theorem isNumeral_text (n : Number) : IsNumeral n.text.toList := by
  cases n with
  | int n =>
    show IsNumeral (decimalText n).toList
    rw [decimalText, String.toList_ofList]
    exact (isNumeral_digits _).signed _
  | float x =>
    show IsNumeral x.text.toList
    rw [Binary64.text, String.toList_ofList]
    refine IsNumeral.signed ?_ _
    split
    · exact ⟨by simp, by simp [numberChars]⟩
    · exact isNumeral_decimal _

/-! ## Printed values -/

theorem Spells.ofWord {w : List Char} (hne : w ≠ []) (hw : w.all isWord = true) :
    Spells [.word w] w := by
  have hspells := Spells.word hne hw (fun c hc => by cases hc) .done
  rwa [List.append_nil] at hspells

theorem Spells.ofText (s : String) : Spells [.text s] (quoted s).toList := by
  have hspells := Spells.text s .done
  rwa [List.append_nil] at hspells

theorem apart_cons {c : Char} (hc : isSpace c = true ∨ (ofPunctuation? c).isSome)
    (cs : List Char) : Apart (c :: cs) := by
  intro d hd
  cases hd
  rw [← Bool.not_eq_true]
  intro hword
  rcases hc with hc | hc
  · rw [Token.isSpace_eq_false hword] at hc
    cases hc
  · obtain ⟨t, ht⟩ := Option.isSome_iff_exists.1 hc
    obtain rfl | rfl | rfl | rfl | rfl | rfl := Token.ofPunctuation?_cases ht <;> cases hword

/-- A text between brackets, with white space inside of both. -/
theorem Spells.enclose {before after : List Char} (hbefore : before.all isSpace = true)
    (hafter : after.all isSpace = true) {first last : Char} {t u : Token}
    (hfirst : ofPunctuation? first = some t) (hlast : ofPunctuation? last = some u)
    {ls : List Lexeme} {cs : List Char} (h : Spells ls cs) :
    Spells (.mark t :: (ls ++ [.mark u])) (first :: (before ++ (cs ++ (after ++ [last])))) := by
  refine .mark hfirst (.spaces hbefore (h.append (.spaces hafter (.mark hlast .done)) ?_))
  cases after with
  | nil => exact apart_cons (.inr (by rw [hlast]; rfl)) []
  | cons c after => exact apart_cons (.inl (Bool.and_eq_true_iff.1 hafter).1) _

/-- A string, a colon with white space behind it, and a text. -/
theorem Spells.member {gap : List Char} (hgap : gap.all isSpace = true) (name : String)
    {ls : List Lexeme} {cs : List Char} (h : Spells ls cs) :
    Spells (.text name :: .mark .colon :: ls) ((quoted name).toList ++ ':' :: (gap ++ cs)) :=
  .text name (.mark rfl (h.spaces hgap))

theorem toList_inBraces (s : String) : (inBraces s).toList = '{' :: (s.toList ++ ['}']) := by
  unfold inBraces
  rw [String.toList_append, String.toList_append, String.toList_singleton,
    String.toList_singleton, List.append_assoc, List.singleton_append]

mutual

theorem spells_compact : (v : Json) → Spells v.lexemes (compact v).toList
  | null => .ofWord (by decide) (by decide)
  | bool true => .ofWord (by decide) (by decide)
  | bool false => .ofWord (by decide) (by decide)
  | num n => .ofWord (isNumeral_text n).1 (isWord_of_isNumeral (isNumeral_text n))
  | str s => .ofText s
  | arr items => by
    have hitems := @Spells.intercalate [] rfl _ _ (spells_compactItems items)
    rw [compact, String.toList_append, String.toList_append, Text.join,
      String.toList_intercalate]
    exact @Spells.enclose [] [] rfl rfl '[' ']' _ _ rfl rfl _ _ hitems
  | obj members => by
    have hmembers := @Spells.intercalate [] rfl _ _ (spells_compactMembers members)
    rw [compact, toList_inBraces, Text.join, String.toList_intercalate]
    exact @Spells.enclose [] [] rfl rfl '{' '}' _ _ rfl rfl _ _ hmembers

theorem spells_compactItems :
    (vs : List Json) →
      List.Forall₂ Spells (lexemesItems vs) ((compactItems vs).map String.toList)
  | [] => .nil
  | v :: vs => .cons (spells_compact v) (spells_compactItems vs)

theorem spells_compactMembers :
    (ms : List (String × Json)) →
      List.Forall₂ Spells (lexemesMembers ms) ((compactMembers ms).map String.toList)
  | [] => .nil
  | (name, v) :: rest => by
    refine .cons ?_ (spells_compactMembers rest)
    rw [String.toList_append, String.toList_append, List.append_assoc]
    exact @Spells.member [] rfl name _ _ (spells_compact v)

end

theorem isSpace_margin (level : Nat) : (margin level).toList.all isSpace = true := by
  rw [margin, String.toList_ofList, List.all_eq_true]
  intro c hc
  rw [List.eq_of_mem_replicate hc]
  rfl

mutual

theorem spells_indented : (level : Nat) → (v : Json) → Spells v.lexemes (indented level v).toList
  | _, null => by
    rw [indented]
    exact .ofWord (by decide) (by decide)
  | _, bool true => by
    rw [indented]
    exact .ofWord (by decide) (by decide)
  | _, bool false => by
    rw [indented]
    exact .ofWord (by decide) (by decide)
  | _, num n => .ofWord (isNumeral_text n).1 (isWord_of_isNumeral (isNumeral_text n))
  | _, str s => .ofText s
  | _, arr [] => by
    rw [indented]
    exact .mark rfl (.mark rfl .done)
  | level, arr (v :: vs) => by
    have hitems := @Spells.intercalate ['\n'] rfl _ _
      (spells_indentedItems (level + 1) (v :: vs))
    have hafter : ('\n' :: (margin level).toList).all isSpace = true := isSpace_margin level
    rw [indented]
    simp only [String.toList_append, Text.join, String.toList_intercalate, List.append_assoc]
    exact @Spells.enclose ['\n'] _ rfl hafter '[' ']' _ _ rfl rfl _ _ hitems
  | _, obj [] => by
    rw [indented]
    exact .mark rfl (.mark rfl .done)
  | level, obj (m :: ms) => by
    have hmembers := @Spells.intercalate ['\n'] rfl _ _
      (spells_indentedMembers (level + 1) (m :: ms))
    have hafter : ('\n' :: (margin level).toList).all isSpace = true := isSpace_margin level
    rw [indented, toList_inBraces]
    simp only [String.toList_append, Text.join, String.toList_intercalate, List.append_assoc]
    exact @Spells.enclose ['\n'] _ rfl hafter '{' '}' _ _ rfl rfl _ _ hmembers

theorem spells_indentedItems :
    (level : Nat) → (vs : List Json) →
      List.Forall₂ Spells (lexemesItems vs) ((indentedItems level vs).map String.toList)
  | _, [] => .nil
  | level, v :: vs => by
    refine .cons ?_ (spells_indentedItems level vs)
    rw [String.toList_append]
    exact (spells_indented level v).spaces (isSpace_margin level)

theorem spells_indentedMembers :
    (level : Nat) → (ms : List (String × Json)) →
      List.Forall₂ Spells (lexemesMembers ms) ((indentedMembers level ms).map String.toList)
  | _, [] => .nil
  | level, (name, v) :: rest => by
    refine .cons ?_ (spells_indentedMembers level rest)
    simp only [String.toList_append, List.append_assoc]
    exact (@Spells.member [' '] rfl name _ _ (spells_indented level v)).spaces
      (isSpace_margin level)

end

/-- Both layouts of a value spell its lexemes. -/
theorem spells_render (pretty : Bool) (v : Json) : Spells v.lexemes (v.render pretty).toList := by
  cases pretty with
  | true => exact spells_indented 0 v
  | false => exact spells_compact v

/-- What the scanner finds in a printed text does not depend on the layout. -/
theorem scan?_render (pretty : Bool) (v : Json) :
    Token.scan? (v.render pretty).toList = Lexeme.tokens? v.lexemes := by
  have h := (spells_render pretty v).scan []
  simp only [List.reverse_nil, List.nil_append, Option.map_id'] at h
  exact h

end ApiFolio.Json

import ApiFolio.Proofs.OpenApi.Pointer

/-!
# Escapes in pointers

Writing a name as a token is replacing every tilde in it and then every slash, and reading a token
is replacing every `~1` and then every `~0`: in this order no replacement makes or breaks an escape
of the other (`escape_eq_replaced`, `unescape_eq_replaced`). A token without a slash is the one that
is written for the name in it exactly if every tilde begins an escape (`escape_unescape_iff`). So a
pointer to a component names this component and no other, and it is the only pointer that names it
without a lone tilde (`component_faithful`).
-/

namespace ApiFolio.OpenApi.Pointer

open Text

/-! ## One replacement after the other -/

/-- The characters with every place of one character filled by others. -/
def replaced (c : Char) (new : List Char) (cs : List Char) : List Char :=
  cs.flatMap fun d => if d = c then new else [d]

/-- The characters with every place of two characters, from the left, filled by another. -/
def pairReplaced (a b new : Char) : List Char → List Char
  | [] => []
  | [c] => [c]
  | c :: d :: cs =>
    if c = a ∧ d = b then new :: pairReplaced a b new cs else c :: pairReplaced a b new (d :: cs)

theorem escape_eq_replaced (cs : List Char) :
    escape cs = replaced '/' ['~', '1'] (replaced '~' ['~', '0'] cs) := by
  induction cs with
  | nil => rfl
  | cons c cs ih =>
    rw [escape, ih]
    unfold replaced
    rw [List.flatMap_cons, List.flatMap_append]
    by_cases htilde : c = '~'
    · subst htilde
      rfl
    · by_cases hslash : c = '/'
      · subst hslash
        rfl
      · simp [htilde, hslash]

section

variable {a b new c : Char} {cs : List Char}

theorem pairReplaced_pair (a b new : Char) (cs : List Char) :
    pairReplaced a b new (a :: b :: cs) = new :: pairReplaced a b new cs := by
  rw [pairReplaced, if_pos ⟨rfl, rfl⟩]

theorem pairReplaced_cons (h : c = a → cs.head? ≠ some b) :
    pairReplaced a b new (c :: cs) = c :: pairReplaced a b new cs := by
  cases cs with
  | nil => rfl
  | cons d cs =>
    rw [pairReplaced, if_neg]
    rintro ⟨hc, rfl⟩
    exact h hc rfl

theorem head?_pairReplaced {d : Char} (h : (pairReplaced a b new cs).head? = some d) :
    d = new ∨ cs.head? = some d := by
  fun_cases pairReplaced a b new cs with
  | case1 => cases h
  | case2 => exact .inr h
  | case3 c e cs hpair =>
    rw [pairReplaced, if_pos hpair] at h
    exact .inl (Option.some.inj h).symm
  | case4 c e cs hpair =>
    rw [pairReplaced, if_neg hpair] at h
    exact .inr h

end

/-- Where a tilde begins no escape, no escape begins with it after the first replacement either:
what follows it stays, or becomes a slash. -/
theorem unescape_eq_replaced (cs : List Char) :
    unescape cs = pairReplaced '~' '0' '~' (pairReplaced '~' '1' '/' cs) := by
  fun_induction unescape cs with
  | case1 => rfl
  | case2 cs ih =>
    rw [ih, pairReplaced_pair, pairReplaced_cons]
    exact fun h => absurd h (by decide)
  | case3 cs ih =>
    have hone : pairReplaced '~' '1' '/' ('~' :: '0' :: cs) =
        '~' :: '0' :: pairReplaced '~' '1' '/' cs := by
      rw [pairReplaced_cons fun _ => by simp, pairReplaced_cons fun h => absurd h (by decide)]
    rw [ih, hone, pairReplaced_pair]
  | case4 c cs hone hzero ih =>
    have hfirst : c = '~' → cs.head? ≠ some '1' := by
      rintro rfl h
      obtain ⟨rest, rfl⟩ := List.head?_eq_some_iff.1 h
      exact hone rest rfl rfl
    have hsecond : c = '~' → (pairReplaced '~' '1' '/' cs).head? ≠ some '0' := by
      rintro rfl h
      rcases head?_pairReplaced h with h | h
      · exact absurd h (by decide)
      · obtain ⟨rest, rfl⟩ := List.head?_eq_some_iff.1 h
        exact hzero rest rfl rfl
    rw [ih, pairReplaced_cons hfirst, pairReplaced_cons hsecond]

/-! ## Tokens that are written for a name -/

/-- Every tilde begins an escape. -/
def TildesEscape (cs : List Char) : Prop :=
  ∀ front rest, cs = front ++ '~' :: rest → ∃ c tail, rest = c :: tail ∧ (c = '0' ∨ c = '1')

section

variable {c : Char} {cs : List Char}

theorem tildesEscape_cons (hc : c ≠ '~') : TildesEscape (c :: cs) ↔ TildesEscape cs := by
  constructor
  · rintro h front rest rfl
    exact h (c :: front) rest rfl
  · intro h front rest heq
    cases front with
    | nil => exact absurd (List.cons.inj heq).1 hc
    | cons d front => exact h front rest (List.cons.inj heq).2

theorem tildesEscape_pair (hc : c = '0' ∨ c = '1') :
    TildesEscape ('~' :: c :: cs) ↔ TildesEscape cs := by
  have htilde : c ≠ '~' := by
    rintro rfl
    revert hc
    decide
  refine Iff.trans ?_ (tildesEscape_cons htilde)
  constructor
  · rintro h front rest heq
    exact h ('~' :: front) rest (congrArg ('~' :: ·) heq)
  · intro h front rest heq
    cases front with
    | nil => exact ⟨c, cs, (List.cons.inj heq).2.symm, hc⟩
    | cons d front => exact h front rest (List.cons.inj heq).2

theorem TildesEscape.head? (h : TildesEscape ('~' :: cs)) :
    ∃ tail, cs = '0' :: tail ∨ cs = '1' :: tail := by
  obtain ⟨c, tail, rfl, rfl | rfl⟩ := h [] cs rfl
  · exact ⟨tail, .inl rfl⟩
  · exact ⟨tail, .inr rfl⟩

end

theorem escape_cons {c : Char} (htilde : c ≠ '~') (hslash : c ≠ '/') (cs : List Char) :
    escape (c :: cs) = c :: escape cs := by
  rw [escape, if_neg htilde, if_neg hslash]

/-- A token without a slash is written for the name in it if and only if each tilde begins an
escape. -/
theorem escape_unescape_iff {cs : List Char} (hslash : '/' ∉ cs) :
    escape (unescape cs) = cs ↔ TildesEscape cs := by
  fun_induction unescape cs with
  | case1 => simp [escape, TildesEscape]
  | case2 cs ih =>
    have hrest : '/' ∉ cs := fun h => hslash (.tail _ (.tail _ h))
    rw [tildesEscape_pair (.inr rfl), ← ih hrest]
    show '~' :: '1' :: escape (unescape cs) = _ ↔ _
    simp
  | case3 cs ih =>
    have hrest : '/' ∉ cs := fun h => hslash (.tail _ (.tail _ h))
    rw [tildesEscape_pair (.inl rfl), ← ih hrest]
    show '~' :: '0' :: escape (unescape cs) = _ ↔ _
    simp
  | case4 c cs hone hzero ih =>
    by_cases hc : c = '~'
    · subst hc
      -- the tilde is read as itself, but written as an escape
      have hlone (tail : List Char) : ¬(cs = '0' :: tail ∨ cs = '1' :: tail) := by
        rintro (rfl | rfl)
        · exact hzero tail rfl rfl
        · exact hone tail rfl rfl
      constructor
      · intro h
        exact absurd (.inl (List.cons.inj h).2.symm) (hlone (escape (unescape cs)))
      · intro h
        obtain ⟨tail, htail⟩ := h.head?
        exact absurd htail (hlone tail)
    · have hne : c ≠ '/' := fun h => hslash (h ▸ .head _)
      have hrest : '/' ∉ cs := fun h => hslash (.tail _ h)
      rw [tildesEscape_cons hc, escape_cons hc hne, ← ih hrest]
      simp

/-! ## Pointers -/

/-- A component is named by its pointer in its own area and under its own name, whatever characters
are in them. The pointer to the component that a pointer names is this pointer again exactly if
every tilde after the area begins an escape. -/
theorem component_faithful :
    (∀ area other name named, name ≠ "" →
      (name? (component area name) other = some named ↔ area = other ∧ name = named)) ∧
    ∀ pointer area name, name? pointer area = some name →
      (component area name = pointer ↔
        ∀ t, pointer = areaRoot area ++ t → TildesEscape t.toList) := by
  refine ⟨fun area other name named hname => ?_, fun pointer area name h => ?_⟩
  · rw [name?_eq_some_iff, component_eq_areaRoot_append]
    constructor
    · rintro ⟨t, heq, -, hslash, rfl⟩
      obtain ⟨rfl, rfl⟩ := (areaRoot_append_eq_iff (slash_notMem_token name) hslash).1 heq
      exact ⟨rfl, (unescapeText_token name).symm⟩
    · rintro ⟨rfl, rfl⟩
      exact ⟨token name, rfl, token_ne_empty hname, slash_notMem_token name,
        unescapeText_token name⟩
  · obtain ⟨t, rfl, -, hslash, rfl⟩ := name?_eq_some_iff.1 h
    rw [component_eq_areaRoot_append, String.append_right_inj, ← String.toList_inj]
    have htoken : (token (unescapeText t)).toList = escape (unescape t.toList) := by
      unfold token unescapeText
      rw [String.toList_ofList, String.toList_ofList]
    rw [htoken, escape_unescape_iff hslash]
    constructor
    · rintro h t' heq
      rw [← (String.append_right_inj _).1 heq]
      exact h
    · intro h
      exact h t rfl

theorem component_faithful_nestedArea :
    "~1/0" ≠ "" ∧ component "a/b" "~1/0" = "#/components/a/b/~01~10" ∧
      name? (component "a/b" "~1/0") "a/b" = some "~1/0" ∧
      name? (component "a/b" "~1/0") "a" ≠ some "b/~1/0" ∧
      name? "#/components/schemas/a~b" "schemas" = some "a~b" ∧
      component "schemas" "a~b" ≠ "#/components/schemas/a~b" := by
  have hname : "~1/0" ≠ "" := by decide
  have hpointer : name? "#/components/schemas/a~b" "schemas" = some "a~b" := by rfl
  refine ⟨hname, by rfl, (component_faithful.1 _ _ _ _ hname).2 ⟨rfl, rfl⟩, fun h => ?_, hpointer,
    fun h => ?_⟩
  · exact absurd ((component_faithful.1 _ _ _ _ hname).1 h).1 (by decide)
  · -- the tilde is followed by a letter
    obtain ⟨c, tail, htail, hc⟩ :=
      (component_faithful.2 _ _ _ hpointer).1 h "a~b" rfl ['a'] ['b'] rfl
    cases htail
    revert hc
    decide

end ApiFolio.OpenApi.Pointer

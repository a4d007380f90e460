import ApiFolio.Json.Reader
import ApiFolio.Proofs.Json.Scanning
import ApiFolio.Proofs.Number.Printed

/-!
# Reading what was printed

A printed value is read as the same value, whatever the layout, with its members in key order
(`readWithin?_render`). The scanner finds the tokens of the value with every number as its text is
read (`tokens?_lexemes`); on these the reader ends at the canonical value, unless arrays and objects
stand in one another deeper than the limit (`run?_tokens`). The texts of numbers in range are read
(`exists_reread?`).
-/

namespace ApiFolio.Json

mutual

/-- How many arrays and objects stand in one another at most. -/
def depth : Json → Nat
  | null => 0
  | bool _ => 0
  | num _ => 0
  | str _ => 0
  | arr items => depthItems items + 1
  | obj members => depthMembers members + 1

def depthItems : List Json → Nat
  | [] => 0
  | v :: vs => max (depth v) (depthItems vs)

def depthMembers : List (String × Json) → Nat
  | [] => 0
  | (_, v) :: rest => max (depth v) (depthMembers rest)

end

mutual

/-- The tokens of a value. -/
def tokens : Json → List Token
  | null => [.atom null]
  | bool b => [.atom (bool b)]
  | num n => [.atom (num n)]
  | str s => [.text s]
  | arr items => .openArray :: ([.comma].intercalate (tokensItems items) ++ [.closeArray])
  | obj members => .openObject :: ([.comma].intercalate (tokensMembers members) ++ [.closeObject])

def tokensItems : List Json → List (List Token)
  | [] => []
  | v :: vs => tokens v :: tokensItems vs

def tokensMembers : List (String × Json) → List (List Token)
  | [] => []
  | (k, v) :: rest => (.text k :: .colon :: tokens v) :: tokensMembers rest

end

mutual

/-- The value with every number as its text is read, if all of them are. -/
def reread? : Json → Option Json
  | null => some null
  | bool b => some (bool b)
  | num n => (Number.read? n.text.toList).map num
  | str s => some (str s)
  | arr items => (rereadItems? items).map arr
  | obj members => (rereadMembers? members).map obj

def rereadItems? : List Json → Option (List Json)
  | [] => some []
  | v :: vs => (reread? v).bind fun w => (rereadItems? vs).map (w :: ·)

def rereadMembers? : List (String × Json) → Option (List (String × Json))
  | [] => some []
  | (k, v) :: rest => (reread? v).bind fun w => (rereadMembers? rest).map ((k, w) :: ·)

end

/-! ## The tokens of the lexemes -/

theorem intercalate_cons {α : Type} (sep xs : List α) (xss : List (List α)) :
    sep.intercalate (xs :: xss) = xs ++ xss.flatMap (sep ++ ·) := by
  induction xss generalizing xs with
  | nil => simp [List.intercalate_singleton]
  | cons ys yss ih =>
    rw [List.intercalate_cons_cons, ih, List.flatMap_cons, List.append_assoc, List.append_assoc]

theorem Lexeme.tokens?_append (ls ms : List Lexeme) :
    tokens? (ls ++ ms) = (tokens? ls).bind fun ts => (tokens? ms).map (ts ++ ·) := by
  induction ls with
  | nil => simp [tokens?]
  | cons l ls ih =>
    rw [List.cons_append, tokens?, tokens?, ih]
    cases token? l with
    | none => rfl
    | some t => cases tokens? ls <;> simp [Function.comp_def]

/-- The tokens of each of several lists of lexemes. -/
def Lexeme.tokenLists? : List (List Lexeme) → Option (List (List Token))
  | [] => some []
  | ls :: lss => (tokens? ls).bind fun ts => (tokenLists? lss).map (ts :: ·)

theorem Lexeme.tokens?_intercalate (lss : List (List Lexeme)) :
    tokens? ([.mark .comma].intercalate lss) =
      (tokenLists? lss).map ([Token.comma].intercalate ·) := by
  induction lss with
  | nil => rfl
  | cons ls lss ih =>
    cases lss with
    | nil =>
      rw [List.intercalate_singleton, tokenLists?, tokenLists?]
      cases tokens? ls <;> simp [List.intercalate_singleton]
    | cons ms lss =>
      rw [List.intercalate_cons_cons, List.append_assoc, tokens?_append, List.singleton_append,
        tokens?, ih]
      simp only [tokenLists?, token?]
      cases tokens? ls <;> cases tokens? ms <;> cases tokenLists? lss <;>
        simp [List.intercalate_cons_cons]

/-- A list of tokens between brackets. -/
theorem Lexeme.tokens?_enclose (t u : Token) (ls : List Lexeme) :
    tokens? (.mark t :: (ls ++ [.mark u])) = (tokens? ls).map fun ts => t :: (ts ++ [u]) := by
  rw [tokens?, tokens?_append]
  cases tokens? ls <;> rfl

mutual

theorem tokens?_lexemes : (v : Json) → Lexeme.tokens? v.lexemes = v.reread?.map tokens
  | null => rfl
  | bool true => rfl
  | bool false => rfl
  | num n => by
    have hword := ofWord?_of_isNumeral (isNumeral_text n)
    show (((Token.ofWord? n.text.toList).map Token.atom).bind fun t => some [t]) = _
    rw [hword, reread?]
    cases Number.read? n.text.toList <;> rfl
  | str s => rfl
  | arr items => by
    rw [lexemes, Lexeme.tokens?_enclose, Lexeme.tokens?_intercalate, tokenLists?_lexemesItems,
      reread?]
    cases rereadItems? items <;> rfl
  | obj members => by
    rw [lexemes, Lexeme.tokens?_enclose, Lexeme.tokens?_intercalate, tokenLists?_lexemesMembers,
      reread?]
    cases rereadMembers? members <;> rfl

theorem tokenLists?_lexemesItems : (vs : List Json) →
    Lexeme.tokenLists? (lexemesItems vs) = (rereadItems? vs).map tokensItems
  | [] => rfl
  | v :: vs => by
    rw [lexemesItems, Lexeme.tokenLists?, tokens?_lexemes v, tokenLists?_lexemesItems vs,
      rereadItems?]
    cases reread? v <;> cases rereadItems? vs <;> rfl

theorem tokenLists?_lexemesMembers : (ms : List (String × Json)) →
    Lexeme.tokenLists? (lexemesMembers ms) = (rereadMembers? ms).map tokensMembers
  | [] => rfl
  | (k, v) :: rest => by
    rw [lexemesMembers, Lexeme.tokenLists?, tokenLists?_lexemesMembers rest, rereadMembers?,
      Lexeme.tokens?, Lexeme.tokens?, tokens?_lexemes v]
    cases reread? v <;> cases rereadMembers? rest <;> rfl

end

/-! ## Reading the tokens -/

namespace Reader

variable (limit : Nat)

/-- The state after several tokens. -/
def run? (s : State) (ts : List Token) : Option State := ts.foldlM (step? limit) s

theorem run?_cons (s : State) (t : Token) (ts : List Token) :
    run? limit s (t :: ts) = (step? limit s t).bind fun next => run? limit next ts :=
  List.foldlM_cons

/-- A value where the first item of an array may stand is read as anywhere else. -/
theorem run?_itemOrEnd (stack : List Frame) (v : Json) (ts : List Token) :
    run? limit ⟨stack, .itemOrEnd⟩ (v.tokens ++ ts) =
      run? limit ⟨stack, .value⟩ (v.tokens ++ ts) := by
  obtain ⟨t, rest, htokens, hclose⟩ :
      ∃ t rest, v.tokens = t :: rest ∧ close? stack t = none := by
    cases v <;> refine ⟨_, _, rfl, ?_⟩ <;> rcases stack with _ | ⟨_ | _, _⟩ <;> rfl
  have hstep : step? limit ⟨stack, .itemOrEnd⟩ t = begin? limit stack t := by
    show (close? stack t <|> begin? limit stack t) = begin? limit stack t
    rw [hclose]
    rfl
  rw [htokens, List.cons_append, run?_cons, run?_cons, hstep]
  rfl

/-- An array may be opened while the limit is not reached. -/
theorem run?_openArray (stack : List Frame) (ts : List Token) :
    run? limit ⟨stack, .value⟩ (.openArray :: ts) =
      if stack.length + 1 ≤ limit then run? limit ⟨.list [] :: stack, .itemOrEnd⟩ ts else none := by
  rw [run?_cons]
  show (if stack.length + 1 ≤ limit then some _ else none : Option State).bind _ = _
  split <;> rfl

/-- An object may be opened while the limit is not reached. -/
theorem run?_openObject (stack : List Frame) (ts : List Token) :
    run? limit ⟨stack, .value⟩ (.openObject :: ts) =
      if stack.length + 1 ≤ limit then run? limit ⟨.table [] "" :: stack, .nameOrEnd⟩ ts
      else none := by
  rw [run?_cons]
  show (if stack.length + 1 ≤ limit then some _ else none : Option State).bind _ = _
  split <;> rfl

variable {limit}

/-- Two bounds that are checked one after the other are one bound. -/
theorem ite_le_none {α : Type} {a b c : Nat} {x y : Option α}
    (h : a ≤ limit → x = if b ≤ limit then y else none) (hc : c = max a b) :
    (if a ≤ limit then x else none) = if c ≤ limit then y else none := by
  subst hc
  by_cases ha : a ≤ limit
  · rw [if_pos ha, h ha]
    by_cases hb : b ≤ limit
    · rw [if_pos hb, if_pos (Nat.max_le.2 ⟨ha, hb⟩)]
    · rw [if_neg hb, if_neg fun hmax => hb (Nat.max_le.1 hmax).2]
  · rw [if_neg ha, if_neg fun hmax => ha (Nat.max_le.1 hmax).1]

mutual

/-- The tokens of a value, where a value may stand, complete its canonical form. -/
theorem run?_tokens : (v : Json) → ∀ stack : List Frame, stack.length ≤ limit →
    ∀ ts : List Token, run? limit ⟨stack, .value⟩ (v.tokens ++ ts) =
      if stack.length + v.depth ≤ limit then run? limit (complete stack v.canonical) ts else none
  | null => fun _ hstack _ => (if_pos hstack).symm
  | bool _ => fun _ hstack _ => (if_pos hstack).symm
  | num _ => fun _ hstack _ => (if_pos hstack).symm
  | str _ => fun _ hstack _ => (if_pos hstack).symm
  | arr [] => fun stack _ ts => run?_openArray limit stack (.closeArray :: ts)
  | arr (v :: vs) => by
    intro stack hstack ts
    rw [tokens, tokensItems, intercalate_cons, List.cons_append, run?_openArray]
    refine ite_le_none (fun hopen => ?_) (b := stack.length + 1 + max v.depth (depthItems vs)) ?_
    · rw [List.append_assoc, List.append_assoc, run?_itemOrEnd,
        run?_tokens v (.list [] :: stack) hopen]
      refine ite_le_none (fun _ => run?_items vs [v.canonical] stack hopen ts) ?_
      rw [List.length_cons]
      omega
    · simp only [depth, depthItems]
      omega
  | obj [] => fun stack _ ts => run?_openObject limit stack (.closeObject :: ts)
  | obj ((name, v) :: rest) => by
    intro stack hstack ts
    rw [tokens, tokensMembers, intercalate_cons, List.cons_append, run?_openObject]
    refine ite_le_none (fun hopen => ?_)
      (b := stack.length + 1 + max v.depth (depthMembers rest)) ?_
    · rw [List.append_assoc, List.append_assoc]
      show run? limit ⟨.table [] name :: stack, .value⟩ (v.tokens ++ _) = _
      rw [run?_tokens v (.table [] name :: stack) hopen]
      refine ite_le_none (fun _ => run?_members rest [(name, v.canonical)] name stack hopen ts) ?_
      rw [List.length_cons]
      omega
    · simp only [depth, depthMembers]
      omega

/-- The tokens of the items behind the first ones complete the array. -/
theorem run?_items : (vs : List Json) → ∀ (done : List Json) (stack : List Frame),
    stack.length + 1 ≤ limit → ∀ ts : List Token,
    run? limit ⟨.list done :: stack, .separator⟩
        ((tokensItems vs).flatMap ([.comma] ++ ·) ++ ([.closeArray] ++ ts)) =
      if stack.length + 1 + depthItems vs ≤ limit then
        run? limit (complete stack (.arr (done.reverse ++ canonicalItems vs))) ts
      else none
  | [] => by
    intro done stack hopen ts
    rw [depthItems, Nat.add_zero, if_pos hopen, canonicalItems, List.append_nil]
    rfl
  | v :: vs => by
    intro done stack hopen ts
    rw [tokensItems, List.flatMap_cons, List.append_assoc, List.append_assoc]
    show run? limit ⟨.list done :: stack, .value⟩ (v.tokens ++ _) = _
    rw [run?_tokens v (.list done :: stack) hopen]
    refine ite_le_none (fun _ => ?_) (b := stack.length + 1 + depthItems vs) ?_
    · show run? limit ⟨.list (v.canonical :: done) :: stack, .separator⟩ _ = _
      rw [run?_items vs (v.canonical :: done) stack hopen ts, canonicalItems, List.reverse_cons,
        List.append_assoc]
      rfl
    · rw [List.length_cons, depthItems]
      omega

/-- The tokens of the members behind the first ones complete the object. -/
theorem run?_members : (ms : List (String × Json)) →
    ∀ (done : List (String × Json)) (last : String) (stack : List Frame),
    stack.length + 1 ≤ limit → ∀ ts : List Token,
    run? limit ⟨.table done last :: stack, .separator⟩
        ((tokensMembers ms).flatMap ([.comma] ++ ·) ++ ([.closeObject] ++ ts)) =
      if stack.length + 1 + depthMembers ms ≤ limit then
        run? limit (complete stack (.obj ((canonicalMembers ms).foldl
          (fun table e => Entries.insert e.1 e.2 table) done))) ts
      else none
  | [] => by
    intro done last stack hopen ts
    rw [depthMembers, Nat.add_zero, if_pos hopen, canonicalMembers, List.foldl_nil]
    rfl
  | (name, v) :: rest => by
    intro done last stack hopen ts
    rw [tokensMembers, List.flatMap_cons, List.append_assoc, List.append_assoc]
    show run? limit ⟨.table done name :: stack, .value⟩ (v.tokens ++ _) = _
    rw [run?_tokens v (.table done name :: stack) hopen]
    refine ite_le_none (fun _ => ?_) (b := stack.length + 1 + depthMembers rest) ?_
    · exact run?_members rest (Entries.insert name v.canonical done) name stack hopen ts
    · rw [List.length_cons, depthMembers]
      omega

end

end Reader

/-- What the reader makes of the tokens of a value. -/
theorem ofTokens?_tokens (limit : Nat) (v : Json) :
    ofTokens? limit v.tokens = if v.depth ≤ limit then some v.canonical else none := by
  have h := Reader.run?_tokens v [] (Nat.zero_le limit) []
  rw [List.append_nil, List.length_nil, Nat.zero_add] at h
  show (Reader.run? limit ⟨[], .value⟩ v.tokens).bind Reader.finish? = _
  rw [h]
  split <;> rfl

mutual

theorem depth_of_reread? : {v w : Json} → reread? v = some w → w.depth = v.depth
  | null, _, h => by cases h; rfl
  | bool _, _, h => by cases h; rfl
  | num _, _, h => by
    obtain ⟨n, -, rfl⟩ := Option.map_eq_some_iff.1 h
    rfl
  | str _, _, h => by cases h; rfl
  | arr items, _, h => by
    rw [reread?] at h
    obtain ⟨ws, hws, rfl⟩ := Option.map_eq_some_iff.1 h
    rw [depth, depth, depthItems_of_rereadItems? hws]
  | obj members, _, h => by
    rw [reread?] at h
    obtain ⟨ws, hws, rfl⟩ := Option.map_eq_some_iff.1 h
    rw [depth, depth, depthMembers_of_rereadMembers? hws]

theorem depthItems_of_rereadItems? :
    {vs ws : List Json} → rereadItems? vs = some ws → depthItems ws = depthItems vs
  | [], _, h => by cases h; rfl
  | v :: vs, _, h => by
    rw [rereadItems?] at h
    obtain ⟨w, hw, h⟩ := Option.bind_eq_some_iff.1 h
    obtain ⟨ws, hws, rfl⟩ := Option.map_eq_some_iff.1 h
    rw [depthItems, depthItems, depth_of_reread? hw, depthItems_of_rereadItems? hws]

theorem depthMembers_of_rereadMembers? :
    {ms ws : List (String × Json)} → rereadMembers? ms = some ws → depthMembers ws = depthMembers ms
  | [], _, h => by cases h; rfl
  | (_, v) :: ms, _, h => by
    rw [rereadMembers?] at h
    obtain ⟨w, hw, h⟩ := Option.bind_eq_some_iff.1 h
    obtain ⟨ws, hws, rfl⟩ := Option.map_eq_some_iff.1 h
    rw [depthMembers, depthMembers, depth_of_reread? hw, depthMembers_of_rereadMembers? hws]

end

mutual

/-- A value with numbers in range is read again. -/
theorem exists_reread? : {v : Json} → v.InRange → ∃ w, v.reread? = some w
  | null, _ => ⟨_, rfl⟩
  | bool _, _ => ⟨_, rfl⟩
  | num _, h => by
    obtain ⟨m, hm⟩ := Option.isSome_iff_exists.1 (Number.isSome_read?_text h)
    exact ⟨num m, by rw [reread?, hm, Option.map_some]⟩
  | str _, _ => ⟨_, rfl⟩
  | arr _, h => by
    obtain ⟨ws, hws⟩ := exists_rereadItems? h
    exact ⟨arr ws, by rw [reread?, hws, Option.map_some]⟩
  | obj _, h => by
    obtain ⟨ws, hws⟩ := exists_rereadMembers? h
    exact ⟨obj ws, by rw [reread?, hws, Option.map_some]⟩

theorem exists_rereadItems? :
    {vs : List Json} → InRangeItems vs → ∃ ws, rereadItems? vs = some ws
  | [], _ => ⟨_, rfl⟩
  | _ :: _, h => by
    obtain ⟨w, hw⟩ := exists_reread? h.1
    obtain ⟨ws, hws⟩ := exists_rereadItems? h.2
    exact ⟨w :: ws, by rw [rereadItems?, hw, hws, Option.bind_some, Option.map_some]⟩

theorem exists_rereadMembers? :
    {ms : List (String × Json)} → InRangeMembers ms → ∃ ws, rereadMembers? ms = some ws
  | [], _ => ⟨_, rfl⟩
  | (k, _) :: _, h => by
    obtain ⟨w, hw⟩ := exists_reread? h.1
    obtain ⟨ws, hws⟩ := exists_rereadMembers? h.2
    exact ⟨(k, w) :: ws, by rw [rereadMembers?, hw, hws, Option.bind_some, Option.map_some]⟩

end

/-- A printed value is read as the same value in canonical form, with every number as its text is
read, unless it is deeper than the limit; the layout makes no difference. -/
theorem readWithin?_render (limit : Nat) (pretty : Bool) (v : Json) :
    readWithin? limit (v.render pretty) =
      if v.depth ≤ limit then v.reread?.map canonical else none := by
  unfold readWithin?
  rw [scan?_render, tokens?_lexemes]
  cases hreread : v.reread? with
  | none => simp
  | some w =>
    show ofTokens? limit w.tokens = _
    rw [ofTokens?_tokens, depth_of_reread? hreread, Option.map_some]

end ApiFolio.Json

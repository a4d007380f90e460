import Mathlib.Data.List.Infix
import ApiFolio.Proofs.Text.Division
import ApiFolio.Text.Template

/-!
# What filling in makes of each place

Where names stand in braces in a text is told without a walk: a name stands at a place if it is
written there with its braces (`StandsAt`), and no two of them overlap (`StandsAt.unique`). So it is
told at each place what it becomes (`Becomes`): the value at the beginning of a name that has one,
nothing in the rest of this name, and elsewhere the character that stands there. The walk that fills
in the values puts these together, place by place (`fill_eq_flatMap`). It looks ahead by a run, but
steps as if it passed over whole names with a value (`fill_written`) and over single characters
(`fill_cons`).
-/

namespace ApiFolio.Text.Template

/-- No character of a text is a brace. -/
def BraceFree (cs : List Char) : Prop := ∀ c ∈ cs, c ≠ opening ∧ c ≠ closing

/-- A name stands in braces at a place of a text: it is not empty, has no braces, and is written
there between braces. -/
structure StandsAt (text : List Char) (i : Nat) (name : List Char) : Prop where
  ne_nil : name ≠ []
  braceFree : BraceFree name
  here : written name <+: text.drop i

/-- A name that stands at a place reaches over another place. -/
def Covers (text : List Char) (i : Nat) (name : List Char) (j : Nat) : Prop :=
  StandsAt text i name ∧ i ≤ j ∧ j < i + (written name).length

/-- What a place of a text becomes when values are filled in for the names in braces that have one.
Values are taken as they are. -/
inductive Becomes (value? : List Char → Option (List Char)) (text : List Char) :
    Nat → List Char → Prop where
  /-- A name with a value begins here: the value. -/
  | value {i : Nat} {name v : List Char} (h : StandsAt text i name) (hv : value? name = some v) :
      Becomes value? text i v
  /-- A name with a value begins before and reaches over this place: nothing. -/
  | rest {i j : Nat} {name v : List Char} (h : Covers text i name j) (hlt : i < j)
      (hv : value? name = some v) : Becomes value? text j []
  /-- No name with a value reaches over this place: what stands here. -/
  | kept {j : Nat} {c : Char} (hc : text[j]? = some c)
      (h : ∀ i name, Covers text i name j → value? name = none) : Becomes value? text j [c]

variable {value? : List Char → Option (List Char)} {text name other run seen cs : List Char}
  {c : Char} {i j : Nat}

/-! ## Names do not overlap -/

theorem braceFree_cons : BraceFree (c :: cs) ↔ (c ≠ opening ∧ c ≠ closing) ∧ BraceFree cs :=
  List.forall_mem_cons

theorem BraceFree.closing_notMem (h : BraceFree cs) : closing ∉ cs := fun hmem =>
  (h _ hmem).2 rfl

theorem length_written (name : List Char) : (written name).length = name.length + 2 := by
  simp [written]

/-- What is written for a name goes on with no opening brace. -/
theorem getElem?_written_ne (h : BraceFree name) {k : Nat} (hk : 0 < k)
    (hlt : k < (written name).length) : (written name)[k]? ≠ some opening := by
  obtain ⟨k, rfl⟩ := Nat.exists_eq_succ_of_ne_zero hk.ne'
  rw [written, List.getElem?_cons_succ]
  intro hget
  rcases List.mem_append.1 (List.mem_of_getElem? hget) with hmem | hmem
  · exact (h _ hmem).1 rfl
  · exact absurd (List.mem_singleton.1 hmem) (by decide)

theorem StandsAt.getElem? (h : StandsAt text i name) : text[i]? = some opening := by
  obtain ⟨rest, hrest⟩ := h.here
  rw [← List.head?_drop, ← hrest]
  rfl

/-- Two names that stand at one place are the same. -/
theorem StandsAt.eq_name (h : StandsAt text i name) (h' : StandsAt text i other) :
    name = other := by
  obtain ⟨rest, hrest⟩ := h.here
  obtain ⟨rest', hrest'⟩ := h'.here
  have heq := hrest.trans hrest'.symm
  simp only [written, List.cons_append, List.append_assoc, List.nil_append] at heq
  exact ((append_cons_inj_of_notMem_left h.braceFree.closing_notMem
    h'.braceFree.closing_notMem).1 (List.cons.inj heq).2).1

/-- No name begins inside another one. -/
theorem StandsAt.unique (h : Covers text i name j) (h' : StandsAt text j other) :
    i = j ∧ name = other := by
  obtain ⟨hname, hle, hlt⟩ := h
  rcases Nat.eq_or_lt_of_le hle with rfl | hless
  · exact ⟨rfl, hname.eq_name h'⟩
  · obtain ⟨rest, hrest⟩ := hname.here
    have hget := h'.getElem?
    rw [← Nat.add_sub_cancel' hle, ← List.getElem?_drop, ← hrest,
      List.getElem?_append_left (by omega)] at hget
    exact absurd hget (getElem?_written_ne hname.braceFree (by omega) (by omega))

/-- Two names that reach over one place are the same. -/
theorem Covers.unique {i' : Nat} (h : Covers text i name j) (h' : Covers text i' other j) :
    i = i' ∧ name = other := by
  rcases Nat.le_total i i' with hle | hle
  · exact StandsAt.unique ⟨h.1, hle, Nat.lt_of_le_of_lt h'.2.1 h.2.2⟩ h'.1
  · obtain ⟨rfl, rfl⟩ := StandsAt.unique ⟨h'.1, hle, Nat.lt_of_le_of_lt h.2.1 h'.2.2⟩ h.1
    exact ⟨rfl, rfl⟩

theorem StandsAt.covers (h : StandsAt text i name) : Covers text i name i :=
  ⟨h, Nat.le_refl i, by rw [length_written]; omega⟩

/-! ## What places become -/

theorem Becomes.unique {x y : List Char} (hx : Becomes value? text j x)
    (hy : Becomes value? text j y) : x = y := by
  cases hx with
  | value h hv =>
    cases hy with
    | value h' hv' =>
      rw [h.eq_name h', hv'] at hv
      exact (Option.some.inj hv).symm
    | rest h' hlt _ => exact absurd (h'.unique h.covers).1 hlt.ne
    | kept _ hnone => rw [hnone _ _ h.covers] at hv; cases hv
  | rest h hlt hv =>
    cases hy with
    | value h' _ => exact absurd (h.unique h'.covers).1 hlt.ne
    | rest => rfl
    | kept _ hnone => rw [hnone _ _ h] at hv; cases hv
  | kept hc hnone =>
    cases hy with
    | value h hv => rw [hnone _ _ h.covers] at hv; cases hv
    | rest h _ hv => rw [hnone _ _ h] at hv; cases hv
    | kept hc' => rw [Option.some.inj (hc.symm.trans hc')]

theorem exists_becomes (value? : List Char → Option (List Char)) (h : j < text.length) :
    ∃ x, Becomes value? text j x := by
  by_cases hcovered : ∃ i name v, Covers text i name j ∧ value? name = some v
  · obtain ⟨i, name, v, hcovers, hv⟩ := hcovered
    rcases Nat.eq_or_lt_of_le hcovers.2.1 with rfl | hlt
    · exact ⟨v, .value hcovers.1 hv⟩
    · exact ⟨[], .rest hcovers hlt hv⟩
  · refine ⟨_, .kept (List.getElem?_eq_getElem h) fun i name hcovers => ?_⟩
    exact Option.eq_none_iff_forall_ne_some.2 fun v hv => hcovered ⟨i, name, v, hcovers, hv⟩

/-! ## Steps of the walk -/

theorem fill_run (h : BraceFree run) (seen cs : List Char) :
    fill value? (some seen) (run ++ cs) = fill value? (some (run.reverse ++ seen)) cs := by
  induction run generalizing seen with
  | nil => rfl
  | cons d run ih =>
    obtain ⟨⟨hopening, hclosing⟩, hrun⟩ := braceFree_cons.1 h
    rw [List.cons_append, fill, if_neg hopening, if_neg hclosing, ih hrun]
    simp

/-- A name with a value is passed over as a whole. -/
theorem fill_written {v : List Char} (hne : name ≠ []) (h : BraceFree name)
    (hv : value? name = some v) (cs : List Char) :
    fill value? none (written name ++ cs) = v ++ fill value? none cs := by
  rw [written, List.cons_append, fill, if_pos rfl, List.append_assoc, fill_run h]
  simp [fill, hne, hv, show closing ≠ opening by decide]

/-- Unless the run goes on to a name with a value, what was held back is written as it is. -/
theorem fill_some (hseen : BraceFree seen)
    (hnone : ∀ name, name ≠ [] → BraceFree name → name ++ [closing] <+: seen.reverse ++ cs →
      value? name = none) :
    fill value? (some seen) cs = opening :: (seen.reverse ++ fill value? none cs) := by
  induction cs generalizing seen with
  | nil => rw [fill, fill, List.append_nil]
  | cons c cs ih =>
    unfold fill
    by_cases hopening : c = opening
    · rw [if_pos hopening, if_pos hopening]
    · rw [if_neg hopening, if_neg hopening]
      by_cases hclosing : c = closing
      · have hreverse : BraceFree seen.reverse := fun d hd => hseen d (List.mem_reverse.1 hd)
        have hwritten : (if seen.isEmpty then written []
            else (value? seen.reverse).getD (written seen.reverse)) = written seen.reverse := by
          cases seen with
          | nil => rfl
          | cons d seen =>
            rw [hnone _ (by simp) hreverse (by simp [hclosing])]
            rfl
        rw [if_pos hclosing, hwritten, hclosing]
        simp [written]
      · rw [if_neg hclosing,
          ih (braceFree_cons.2 ⟨⟨hopening, hclosing⟩, hseen⟩) (by simpa using hnone)]
        simp

/-- Where no name with a value stands, one character is passed over. -/
theorem fill_cons (h : ∀ name, StandsAt (c :: cs) 0 name → value? name = none) :
    fill value? none (c :: cs) = c :: fill value? none cs := by
  rw [fill]
  split
  · rename_i hopening
    rw [fill_some (fun _ hmem => absurd hmem List.not_mem_nil) fun name hne hfree hprefix => ?_,
      hopening]
    · rfl
    · exact h name ⟨hne, hfree, by rw [hopening]; exact List.cons_prefix_cons.2 ⟨rfl, hprefix⟩⟩
  · rfl

/-! ## The whole walk -/

theorem StandsAt.drop_eq (h : StandsAt text i name) :
    text.drop i = written name ++ text.drop (i + (written name).length) := by
  obtain ⟨rest, hrest⟩ := h.here
  rw [← List.drop_drop, ← hrest, List.drop_left]

/-- No name reaches over the end of one that stands before. -/
theorem StandsAt.not_covers_end {k : Nat} (h : StandsAt text i name)
    (hk : k < i + (written name).length) : ¬Covers text k other (i + (written name).length) := by
  intro hcovers
  rcases Nat.lt_or_ge i k with hlt | hge
  · exact absurd (StandsAt.unique ⟨h, hlt.le, hk⟩ hcovers.1).1 hlt.ne
  · obtain ⟨rfl, rfl⟩ := StandsAt.unique ⟨hcovers.1, hge, by have := hcovers.2.2; omega⟩ h
    exact absurd hcovers.2.2 (Nat.lt_irrefl _)

/-- What the places of a name become, put together, is its value. -/
theorem flatMap_part {part : Nat → List Char} {v : List Char} (h : StandsAt text i name)
    (hv : value? name = some v) (hpart : ∀ j < text.length, Becomes value? text j (part j)) :
    (List.range' i (written name).length).flatMap part = v := by
  have hinside {j : Nat} (hj : j < i + (written name).length) : j < text.length := by
    have hlength := congrArg List.length h.drop_eq
    rw [List.length_append, List.length_drop] at hlength
    rw [length_written] at hj hlength
    omega
  have hfirst : part i = v := (hpart i (hinside h.covers.2.2)).unique (.value h hv)
  have hrest : ∀ j ∈ List.range' (i + 1) (name.length + 1), part j = [] := by
    intro j hj
    obtain ⟨hlt, hend⟩ := List.mem_range'_1.1 hj
    have hcovers : Covers text i name j := ⟨h, by omega, by rw [length_written]; omega⟩
    exact (hpart j (hinside hcovers.2.2)).unique (.rest hcovers hlt hv)
  rw [length_written, List.range'_succ, List.flatMap_cons, hfirst,
    List.flatMap_eq_nil_iff.2 hrest, List.append_nil]

/-- From a place that no name with a value reaches over from before, the walk puts together what
this place and all later ones become. -/
theorem fill_drop {part : Nat → List Char}
    (hpart : ∀ j < text.length, Becomes value? text j (part j)) (left : Nat) :
    ∀ i, i + left = text.length →
      (∀ k name, Covers text k name i → k < i → value? name = none) →
      fill value? none (text.drop i) = (List.range' i left).flatMap part := by
  induction left using Nat.strongRecOn with
  | ind left ih =>
    intro i hi hbefore
    by_cases hname : ∃ name v, StandsAt text i name ∧ value? name = some v
    · -- the walk goes on after the name, and nothing reaches over its end
      obtain ⟨name, v, hstands, hv⟩ := hname
      have hlength := congrArg List.length hstands.drop_eq
      rw [List.length_append, List.length_drop, List.length_drop] at hlength
      obtain ⟨more, rfl⟩ : ∃ more, left = (written name).length + more :=
        ⟨left - (written name).length, by omega⟩
      have hpos : 0 < (written name).length := by rw [length_written]; omega
      rw [hstands.drop_eq, fill_written hstands.ne_nil hstands.braceFree hv,
        ih more (by omega) _ (by omega) fun k _ hcovers hk =>
          absurd hcovers (hstands.not_covers_end hk),
        ← List.range'_append_1, List.flatMap_append, flatMap_part hstands hv hpart]
    · cases left with
      | zero =>
        rw [List.drop_of_length_le (by omega)]
        rfl
      | succ left =>
        have hhere : ∀ k other, Covers text k other i → value? other = none := by
          intro k other hcovers
          rcases Nat.eq_or_lt_of_le hcovers.2.1 with rfl | hlt
          · exact Option.eq_none_iff_forall_ne_some.2 fun v hv =>
              hname ⟨other, v, hcovers.1, hv⟩
          · exact hbefore k other hcovers hlt
        have hi' : i < text.length := by omega
        have hpart' : part i = [text[i]] :=
          (hpart i hi').unique (.kept (List.getElem?_eq_getElem hi') hhere)
        have hdrop := List.drop_eq_getElem_cons hi'
        rw [hdrop, fill_cons fun other h => ?_, ih left (by omega) (i + 1) (by omega) ?_,
          List.range'_succ, List.flatMap_cons, hpart']
        · rfl
        · intro k other hcovers hk
          exact hhere k other ⟨hcovers.1, by omega, by have := hcovers.2.2; omega⟩
        · rw [← hdrop] at h
          exact hhere i other (StandsAt.covers ⟨h.ne_nil, h.braceFree, h.here⟩)

theorem fill_eq_flatMap {part : Nat → List Char}
    (hpart : ∀ j < text.length, Becomes value? text j (part j)) :
    fill value? none text = (List.range text.length).flatMap part := by
  rw [List.range_eq_range', ← fill_drop hpart text.length 0 (Nat.zero_add _)
    fun k _ _ hk => absurd hk (Nat.not_lt_zero k), List.drop_zero]

end ApiFolio.Text.Template

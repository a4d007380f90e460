import Mathlib.Data.List.Basic
import Mathlib.Data.List.DropRight
import Mathlib.Data.List.Induction
import ApiFolio.Export.FolderTree

/-!
# Paths of folders

The segments of a tag are names without slashes, none of them empty (`isName_of_mem_segments`). On
lists of such names the path with slashes loses nothing (`pathOf_injective`, `segments_pathOf`), and
the paths below one folder stand in the order of the names (`pathBelow_lt`).
-/

namespace ApiFolio.Text

/-! ## Splitting -/

theorem splitChars_ne_nil (separator : Char) (cs : List Char) : splitChars separator cs ≠ [] := by
  cases cs with
  | nil => simp [splitChars]
  | cons c cs =>
    unfold splitChars
    split
    · simp
    · split <;> simp

/-- The separator does not stand in a piece. -/
theorem not_mem_of_mem_splitChars {separator : Char} {cs piece : List Char}
    (h : piece ∈ splitChars separator cs) : separator ∉ piece := by
  induction cs generalizing piece with
  | nil =>
    rw [splitChars, List.mem_singleton] at h
    subst h
    exact List.not_mem_nil
  | cons c cs ih =>
    unfold splitChars at h
    split at h
    · rcases List.mem_cons.1 h with rfl | h
      · exact List.not_mem_nil
      · exact ih h
    · rename_i hc
      split at h
      · rename_i hnil
        exact absurd hnil (splitChars_ne_nil separator cs)
      · rename_i first pieces hsplit
        rcases List.mem_cons.1 h with rfl | h
        · have hfirst : separator ∉ first := ih (hsplit ▸ List.mem_cons_self)
          simp [hfirst, Ne.symm hc]
        · exact ih (hsplit ▸ List.mem_cons_of_mem _ h)

theorem splitChars_of_not_mem {separator : Char} {cs : List Char} (h : separator ∉ cs) :
    splitChars separator cs = [cs] := by
  induction cs with
  | nil => rfl
  | cons c cs ih =>
    simp only [List.mem_cons, not_or] at h
    rw [splitChars, if_neg (Ne.symm h.1), ih h.2]

/-- A separator before a piece without one splits that piece off. -/
theorem splitChars_append_separator {separator : Char} (cs : List Char) {piece : List Char}
    (h : separator ∉ piece) :
    splitChars separator (cs ++ separator :: piece) = splitChars separator cs ++ [piece] := by
  induction cs with
  | nil => simp [splitChars, splitChars_of_not_mem h]
  | cons c cs ih =>
    rw [List.cons_append, splitChars, splitChars, ih]
    split
    · rfl
    · cases hs : splitChars separator cs with
      | nil => exact absurd hs (splitChars_ne_nil separator cs)
      | cons first pieces => rfl

/-! ## Trimming -/

theorem mem_of_mem_trimChars {c : Char} {cs : List Char} (h : c ∈ trimChars cs) : c ∈ cs := by
  unfold trimChars trimStartChars at h
  have h := (List.dropWhile_sublist _).subset (List.mem_reverse.1 h)
  exact (List.dropWhile_sublist _).subset (List.mem_reverse.1 h)

theorem trimChars_trimChars (cs : List Char) : trimChars (trimChars cs) = trimChars cs := by
  have hright (l : List Char) : (trimStartChars l.reverse).reverse = l.rdropWhile isBlank := rfl
  unfold trimChars
  rw [hright, hright]
  -- what is left starts as the whole does, so there is nothing more to take off at the start
  have hstart : trimStartChars ((trimStartChars cs).rdropWhile isBlank) =
      (trimStartChars cs).rdropWhile isBlank := by
    have hwhole := List.dropWhile_eq_self_iff.1 (List.dropWhile_idempotent isBlank cs)
    have hbegin := List.rdropWhile_prefix isBlank (trimStartChars cs)
    refine List.dropWhile_eq_self_iff.2 fun hlength => ?_
    rw [hbegin.getElem hlength]
    exact hwhole _
  rw [hstart, List.rdropWhile_idempotent]

theorem trim_trim (s : String) : trim (trim s) = trim s := by
  unfold trim
  rw [String.toList_ofList, trimChars_trimChars]

/-! ## Joining -/

theorem join_append_cons (separator a b : String) (rest : List String) :
    join separator ((a ++ b) :: rest) = a ++ join separator (b :: rest) := by
  unfold join
  cases rest with
  | nil => rw [String.intercalate_singleton, String.intercalate_singleton]
  | cons c rest =>
    rw [String.intercalate_cons_cons, String.intercalate_cons_cons, String.append_assoc,
      String.append_assoc, String.append_assoc]

end ApiFolio.Text

namespace ApiFolio.Export.FolderTree

/-- What can be the name of a folder: a text that is not empty and has no slash. -/
structure IsName (name : String) : Prop where
  ne_empty : name ≠ ""
  not_mem : '/' ∉ name.toList

theorem isName_of_mem_segments {tag name : String} (h : name ∈ segments tag) : IsName name := by
  unfold segments Text.split at h
  obtain ⟨hmem, hne⟩ := List.mem_filter.1 h
  obtain ⟨piece, hpiece, rfl⟩ := List.mem_map.1 hmem
  obtain ⟨cs, hcs, rfl⟩ := List.mem_map.1 hpiece
  refine ⟨by simpa using hne, fun hslash => ?_⟩
  rw [Text.trim, String.toList_ofList, String.toList_ofList] at hslash
  exact Text.not_mem_of_mem_splitChars hcs (Text.mem_of_mem_trimChars hslash)

/-- A segment has no white space around it. -/
theorem trim_of_mem_segments {tag name : String} (h : name ∈ segments tag) :
    Text.trim name = name := by
  obtain ⟨hmem, -⟩ := List.mem_filter.1 h
  obtain ⟨piece, -, rfl⟩ := List.mem_map.1 hmem
  exact Text.trim_trim piece

theorem isName_concat {names : List String} (h : ∀ n ∈ names, IsName n) {name : String}
    (hname : IsName name) : ∀ n ∈ names ++ [name], IsName n :=
  List.forall_mem_append.2 ⟨h, List.forall_mem_singleton.2 hname⟩

/-! ## The path of a list of names -/

/-- The names from the outermost folder to the innermost, with slashes between them. -/
def pathOf (names : List String) : String := names.foldl pathBelow ""

@[simp] theorem pathOf_nil : pathOf [] = "" := rfl

theorem pathOf_concat (names : List String) (name : String) :
    pathOf (names ++ [name]) = pathBelow (pathOf names) name := by
  rw [pathOf, List.foldl_append, List.foldl_cons, List.foldl_nil, pathOf]

theorem pathBelow_ne_empty {parent name : String} (h : name ≠ "") : pathBelow parent name ≠ "" := by
  unfold pathBelow
  split
  · exact h
  · simp

theorem pathOf_eq_empty_iff {names : List String} (h : ∀ n ∈ names, IsName n) :
    pathOf names = "" ↔ names = [] := by
  constructor
  · intro he
    rcases List.eq_nil_or_concat names with rfl | ⟨front, last, rfl⟩
    · rfl
    · rw [List.concat_eq_append] at h he
      rw [pathOf_concat] at he
      exact absurd he (pathBelow_ne_empty (h last (by simp)).ne_empty)
  · rintro rfl
    rfl

/-- Splitting the path of a list of names at the slashes gives the names back. -/
theorem splitChars_pathOf {names : List String} (h : ∀ n ∈ names, IsName n) (hne : names ≠ []) :
    Text.splitChars '/' (pathOf names).toList = names.map String.toList := by
  induction names using List.reverseRecOn with
  | nil => exact absurd rfl hne
  | append_singleton front last ih =>
    have hlast : IsName last := h last (by simp)
    have hfront : ∀ n ∈ front, IsName n := fun n hn => h n (by simp [hn])
    rw [pathOf_concat, pathBelow]
    by_cases hnil : front = []
    · subst hnil
      simp [Text.splitChars_of_not_mem hlast.not_mem]
    · have hpath : (pathOf front).isEmpty = false := by
        simpa using fun he => hnil ((pathOf_eq_empty_iff hfront).1 he)
      rw [hpath, if_neg (by simp), String.toList_append, String.toList_append, List.append_assoc]
      show Text.splitChars '/' ((pathOf front).toList ++ '/' :: last.toList) = _
      rw [Text.splitChars_append_separator _ hlast.not_mem, ih hfront hnil]
      simp

/-- The segments of the path of a list of names are the names, if none has white space around it. -/
theorem segments_pathOf {names : List String} (h : ∀ n ∈ names, IsName n)
    (htrim : ∀ n ∈ names, Text.trim n = n) : segments (pathOf names) = names := by
  by_cases hnil : names = []
  · subst hnil
    rfl
  · have hpieces : (Text.split '/' (pathOf names)).map Text.trim = names := by
      unfold Text.split
      rw [splitChars_pathOf h hnil, List.map_map, List.map_map]
      refine (List.map_congr_left fun n hn => ?_).trans (List.map_id names)
      show Text.trim (String.ofList n.toList) = n
      rw [String.ofList_toList, htrim n hn]
    unfold segments
    rw [hpieces]
    exact List.filter_eq_self.2 fun n hn => by simpa using (h n hn).ne_empty

/-- The path is the names joined with slashes. -/
theorem join_eq_pathOf {names : List String} (h : ∀ n ∈ names, IsName n) :
    Text.join "/" names = pathOf names := by
  cases names with
  | nil => rfl
  | cons first below =>
    show Text.join "/" (first :: below) = below.foldl pathBelow first
    have hfirst := (h first List.mem_cons_self).ne_empty
    clear h
    induction below generalizing first with
    | nil => exact String.intercalate_singleton
    | cons n rest ih =>
      have hbelow : pathBelow first n = first ++ "/" ++ n := by
        unfold pathBelow
        rw [if_neg (by simpa using hfirst)]
      rw [List.foldl_cons, hbelow, ← ih _ (by simp), Text.join_append_cons]
      exact String.intercalate_cons_cons

/-- Names joined with slashes are split into the names again. -/
theorem segments_join {names : List String} (h : ∀ n ∈ names, IsName n)
    (htrim : ∀ n ∈ names, Text.trim n = n) : segments (Text.join "/" names) = names := by
  rw [join_eq_pathOf h, segments_pathOf h htrim]

/-- Two lists of names with the same path are the same list. -/
theorem pathOf_injective {a b : List String} (ha : ∀ n ∈ a, IsName n) (hb : ∀ n ∈ b, IsName n)
    (h : pathOf a = pathOf b) : a = b := by
  by_cases hnil : a = []
  · subst hnil
    exact ((pathOf_eq_empty_iff hb).1 h.symm).symm
  · have hnilb : b ≠ [] := by
      rintro rfl
      exact hnil ((pathOf_eq_empty_iff ha).1 h)
    have hsplit := splitChars_pathOf ha hnil
    rw [h, splitChars_pathOf hb hnilb] at hsplit
    exact (List.map_injective_iff.2 (fun _ _ => String.toList_inj.1) hsplit).symm

/-- A folder inside another has another path than that one. -/
theorem pathOf_append_ne {p q : List String} (h : ∀ n ∈ p ++ q, IsName n) (hq : q ≠ []) :
    pathOf (p ++ q) ≠ pathOf p := by
  intro heq
  have happend : p ++ q = p :=
    pathOf_injective h (fun n hn => h n (List.mem_append_left _ hn)) heq
  exact hq (List.append_right_eq_self.1 happend)

/-- The paths below one folder stand in the order of the names. -/
theorem pathBelow_lt {parent a b : String} (h : a < b) :
    pathBelow parent a < pathBelow parent b := by
  unfold pathBelow
  split
  · exact h
  · simp only [String.lt_iff, String.toList_append]
    exact List.append_left_lt (String.lt_iff.1 h)

/-- Two lists of texts that ascend strictly and have the same members are the same list. -/
theorem eq_of_ascending {a b : List String} (ha : a.Pairwise (· < ·)) (hb : b.Pairwise (· < ·))
    (h : ∀ s, s ∈ a ↔ s ∈ b) : a = b := by
  have hnodup {l : List String} (hl : l.Pairwise (· < ·)) : l.Nodup :=
    List.Pairwise.imp (fun {x y} (hlt : x < y) (heq : x = y) => String.lt_irrefl y (heq ▸ hlt)) hl
  refine List.Perm.eq_of_pairwise (fun x y _ _ hxy hyx => ?_) ha hb
    ((List.perm_ext_iff_of_nodup (hnodup ha) (hnodup hb)).2 h)
  exact absurd (String.lt_trans hxy hyx) (String.lt_irrefl _)

end ApiFolio.Export.FolderTree

import ApiFolio.OpenApi.Components
import ApiFolio.Proofs.Text.Beginnings
import ApiFolio.Proofs.Text.Division

/-!
# Pointers and the names in them

Writing a name as a token of a pointer and reading it back gives the name
(`unescape_escape`). A pointer names something in an area if a token without a slash follows the
area (`name?_eq_some_iff`), and looking it up is looking up this name (`lookUp?_eq_some_iff`). So
the pointer to a component names no other component (`eq_of_name?_component`) and is the pointer to
no other (`component_eq_component_iff`).
-/

namespace ApiFolio

namespace OpenApi.Pointer

open Text

theorem unescape_cons {c : Char} (hc : c ≠ '~') (cs : List Char) :
    unescape (c :: cs) = c :: unescape cs := by
  rw [unescape]
  · rintro cs rfl
    exact absurd rfl hc
  · rintro cs rfl
    exact absurd rfl hc

theorem unescape_escape (cs : List Char) : unescape (escape cs) = cs := by
  induction cs with
  | nil => rfl
  | cons c cs ih =>
    unfold escape
    split
    · rename_i hc
      subst hc
      rw [unescape, ih]
    · rename_i htilde
      split
      · rename_i hc
        subst hc
        rw [unescape, ih]
      · rw [unescape_cons htilde, ih]

theorem slash_notMem_escape (cs : List Char) : '/' ∉ escape cs := by
  induction cs with
  | nil => exact List.not_mem_nil
  | cons c cs ih =>
    unfold escape
    split
    · simp [ih]
    · split
      · simp [ih]
      · rename_i hslash
        rw [List.mem_cons]
        rintro (h | h)
        · exact hslash h.symm
        · exact ih h

theorem escape_eq_nil_iff {cs : List Char} : escape cs = [] ↔ cs = [] := by
  constructor
  · intro h
    rw [← unescape_escape cs, h]
    rfl
  · rintro rfl
    rfl

/-- The token by which a pointer names a part. -/
def token (name : String) : String := String.ofList (escape name.toList)

theorem component_eq_areaRoot_append (area name : String) :
    component area name = areaRoot area ++ token name := rfl

theorem unescapeText_token (name : String) : unescapeText (token name) = name := by
  unfold unescapeText token
  rw [String.toList_ofList, unescape_escape, String.ofList_toList]

/-- A pointer into an area names what its token stands for. -/
theorem name?_areaRoot_append (area : String) {token : String} (hempty : token ≠ "")
    (hslash : '/' ∉ token.toList) :
    name? (areaRoot area ++ token) area = some (unescapeText token) := by
  have hisEmpty : token.isEmpty = false := String.isEmpty_eq_false_iff.2 hempty
  have hcontains : token.toList.contains '/' = false := by
    rw [List.contains_eq_mem, decide_eq_false_iff_not]
    exact hslash
  unfold name?
  rw [dropBeginning?_append]
  simp only [hisEmpty, hcontains, Bool.or_self, Bool.false_eq_true, if_false]

theorem token_ne_empty {name : String} (hname : name ≠ "") : token name ≠ "" := by
  intro h
  have htoken : escape name.toList = [] := by
    rw [← String.toList_ofList (l := escape name.toList)]
    exact congrArg String.toList h
  exact hname (String.toList_eq_nil_iff.1 (escape_eq_nil_iff.1 htoken))

theorem slash_notMem_token (name : String) : '/' ∉ (token name).toList := by
  unfold token
  rw [String.toList_ofList]
  exact slash_notMem_escape _

/-- A pointer names something in an area if a token without a slash follows the area. -/
theorem name?_eq_some_iff {pointer area name : String} :
    name? pointer area = some name ↔
      ∃ t, pointer = areaRoot area ++ t ∧ t ≠ "" ∧ '/' ∉ t.toList ∧ unescapeText t = name := by
  constructor
  · intro h
    unfold name? at h
    split at h
    · cases h
    · rename_i t ht
      split at h
      · cases h
      · rename_i hcond
        rw [Bool.or_eq_true, not_or] at hcond
        refine ⟨t, dropBeginning?_eq_some_iff.1 ht, ?_, ?_, Option.some.inj h⟩
        · rintro rfl
          exact hcond.1 rfl
        · exact fun hmem => hcond.2 (List.contains_iff_mem.2 hmem)
  · rintro ⟨t, rfl, hempty, hslash, rfl⟩
    exact name?_areaRoot_append area hempty hslash

/-- A pointer that names something in one area names nothing in an area that starts otherwise. -/
theorem name?_eq_none_of_name? {pointer area name : String} (other : String)
    (h : name? pointer area = some name)
    (hother : ∀ cs, dropChars? (areaRoot other).toList ((areaRoot area).toList ++ cs) = none) :
    name? pointer other = none := by
  obtain ⟨t, rfl, -⟩ := name?_eq_some_iff.1 h
  have hdrop : dropBeginning? (areaRoot other) (areaRoot area ++ t) = none := by
    unfold dropBeginning?
    rw [String.toList_append, hother]
    rfl
  unfold name?
  rw [hdrop]

/-- The pointer to a component names no other component. -/
theorem eq_of_name?_component {area name other : String}
    (h : name? (component area name) area = some other) : other = name := by
  obtain ⟨t, ht, -, -, rfl⟩ := name?_eq_some_iff.1 h
  rw [component_eq_areaRoot_append, String.append_right_inj] at ht
  rw [← ht, unescapeText_token]

/-- An area and a token without a slash are told by the pointer that they make: the token is what
follows the last slash. -/
theorem areaRoot_append_eq_iff {area area' a b : String} (ha : '/' ∉ a.toList)
    (hb : '/' ∉ b.toList) :
    areaRoot area ++ a = areaRoot area' ++ b ↔ area = area' ∧ a = b := by
  have hchars (area t : String) :
      (areaRoot area ++ t).toList = (root ++ area).toList ++ '/' :: t.toList := by
    unfold areaRoot
    simp only [String.toList_append, List.append_assoc]
    rfl
  rw [← String.toList_inj, hchars, hchars, append_cons_inj_of_notMem_right ha hb, String.toList_inj,
    String.toList_inj, String.append_right_inj]

/-- The pointer to a component tells its area and its name, whatever characters are in them: the
token that is written for a name has no slash. -/
theorem component_eq_component_iff {area area' name name' : String} :
    component area name = component area' name' ↔ area = area' ∧ name = name' := by
  rw [component_eq_areaRoot_append, component_eq_areaRoot_append,
    areaRoot_append_eq_iff (slash_notMem_token _) (slash_notMem_token _)]
  refine and_congr_right fun _ => ⟨fun h => ?_, congrArg token⟩
  rw [← unescapeText_token name, h, unescapeText_token]

theorem component_injective {area a b : String} (h : component area a = component area b) :
    a = b :=
  (component_eq_component_iff.1 h).2

theorem startsWith_of_name? {pointer area name : String} (h : name? pointer area = some name) :
    startsWith (areaRoot area) pointer = true := by
  obtain ⟨t, rfl, -⟩ := name?_eq_some_iff.1 h
  exact startsWith_append _ _

theorem startsWith_root_of_name? {pointer area name : String} (h : name? pointer area = some name) :
    startsWith root pointer = true := by
  have harea := startsWith_of_name? h
  unfold startsWith areaRoot at *
  rw [List.isPrefixOf_iff_prefix, String.toList_append, String.toList_append] at harea
  rw [List.isPrefixOf_iff_prefix]
  rw [List.append_assoc] at harea
  exact (List.prefix_append _ _).trans harea

end OpenApi.Pointer

/-- Looking up a pointer gives the object that stands under the name in it. -/
theorem OpenApi.Components.lookUp?_eq_some_iff {α : Type} {area pointer : String}
    {table : Dict (Referable α)} {x : α} :
    lookUp? area table pointer = some x ↔
      ∃ name, Pointer.name? pointer area = some name ∧ table.get? name = some (.item x) := by
  constructor
  · intro h
    obtain ⟨name, hname, h⟩ := Option.bind_eq_some_iff.1 h
    obtain ⟨entry, hentry, hitem⟩ := Option.bind_eq_some_iff.1 h
    cases entry with
    | ref _ => cases hitem
    | item y =>
      cases hitem
      exact ⟨name, hname, hentry⟩
  · rintro ⟨name, hname, hget⟩
    unfold lookUp?
    rw [hname]
    show (table.get? name).bind _ = _
    rw [hget]
    rfl

end ApiFolio

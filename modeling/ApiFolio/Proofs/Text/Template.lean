import Mathlib.Data.List.Infix
import ApiFolio.Text.Template

/-!
# Which names stand in a template

The walk that collects the names of a template finds exactly the non-empty texts without braces and
slashes that stand between braces in it (`mem_names_iff`). The invariant is on the text that has
been passed over but may still belong to a name: the last opening brace with the run after it
(`pending`).
-/

namespace ApiFolio.Text.Template

/-- No character of a text is a brace or a slash. -/
def Plain (cs : List Char) : Prop := ∀ c ∈ cs, c ≠ opening ∧ c ≠ closing ∧ c ≠ '/'

/-- A text stands in a template as a name: directly between braces, not empty, without braces and
slashes. -/
def IsName (template name : List Char) : Prop :=
  name ≠ [] ∧ Plain name ∧ written name <:+: template

variable {name run cs : List Char} {c : Char}

theorem plain_cons : Plain (c :: cs) ↔ (c ≠ opening ∧ c ≠ closing ∧ c ≠ '/') ∧ Plain cs :=
  List.forall_mem_cons

theorem plain_reverse : Plain cs.reverse ↔ Plain cs := by simp [Plain]

/-- No name in braces starts at another character than an opening brace. -/
theorem written_infix_cons_iff (h : c ≠ opening) :
    written name <:+: c :: cs ↔ written name <:+: cs := by
  rw [List.infix_cons_iff, written, List.cons_prefix_cons]
  exact ⟨fun h' => h'.resolve_left fun hp => h hp.1.symm, .inr⟩

theorem written_infix_append_iff (h : Plain run) :
    written name <:+: run ++ cs ↔ written name <:+: cs := by
  induction run with
  | nil => rfl
  | cons d run ih =>
    rw [List.cons_append, written_infix_cons_iff (plain_cons.1 h).1.1, ih (plain_cons.1 h).2]

/-- A name that is closed ends where the run of plain characters does. -/
theorem closed_prefix_iff (hname : Plain name) (hrun : Plain run)
    (hc : c = opening ∨ c = closing ∨ c = '/') :
    name ++ [closing] <+: run ++ c :: cs ↔ c = closing ∧ name = run := by
  induction name generalizing run with
  | nil =>
    cases run with
    | nil => simp [List.cons_prefix_cons, eq_comm]
    | cons d run =>
      have hd : closing ≠ d := (plain_cons.1 hrun).1.2.1.symm
      simp [List.cons_prefix_cons, hd]
  | cons n name ih =>
    obtain ⟨hn, hname⟩ := plain_cons.1 hname
    cases run with
    | nil =>
      have hne : n ≠ c := by
        rintro rfl
        rcases hc with h | h | h
        · exact hn.1 h
        · exact hn.2.1 h
        · exact hn.2.2 h
      simp [List.cons_prefix_cons, hne]
    | cons d run =>
      rw [List.cons_append, List.cons_append, List.cons_prefix_cons,
        ih hname (plain_cons.1 hrun).2, List.cons.injEq]
      exact and_left_comm

/-- The text that may still belong to a name: an opening brace and the run after it. -/
def pending : Option (List Char) → List Char
  | none => []
  | some seen => opening :: seen.reverse

/-- A walk that is in a run has met plain characters since the opening brace. -/
def PlainRun : Option (List Char) → Prop
  | none => True
  | some seen => Plain seen

/-- A character that ends a run completes the name before it, if it is a closing brace. -/
theorem written_infix_pending_iff {seen : Option (List Char)} (hname : Plain name)
    (hseen : PlainRun seen) (hc : c = opening ∨ c = closing ∨ c = '/') :
    written name <:+: pending seen ++ c :: cs ↔
      c = closing ∧ seen = some name.reverse ∨ written name <:+: c :: cs := by
  cases seen with
  | none => simp [pending]
  | some seen =>
    have hrun : Plain seen.reverse := plain_reverse.2 hseen
    have hreverse : name = seen.reverse ↔ some seen = some name.reverse := by
      rw [Option.some.injEq, eq_comm, List.reverse_eq_iff]
    have hprefix : written name <+: opening :: (seen.reverse ++ c :: cs) ↔
        c = closing ∧ some seen = some name.reverse := by
      rw [written, List.cons_prefix_cons, closed_prefix_iff hname hrun hc, hreverse]
      exact and_iff_right rfl
    rw [pending, List.cons_append, List.infix_cons_iff, hprefix, written_infix_append_iff hrun]

theorem isName_pending_iff {seen : Option (List Char)} (hseen : PlainRun seen)
    (hc : c = opening ∨ c = closing ∨ c = '/') :
    IsName (pending seen ++ c :: cs) name ↔
      c = closing ∧ name ≠ [] ∧ seen = some name.reverse ∨ IsName (c :: cs) name := by
  constructor
  · rintro ⟨hne, hname, h⟩
    rcases (written_infix_pending_iff hname hseen hc).1 h with ⟨hclosing, heq⟩ | h
    · exact .inl ⟨hclosing, hne, heq⟩
    · exact .inr ⟨hne, hname, h⟩
  · rintro (⟨hclosing, hne, rfl⟩ | ⟨hne, hname, h⟩)
    · have hname : Plain name := plain_reverse.1 hseen
      exact ⟨hne, hname, (written_infix_pending_iff hname hseen hc).2 (.inl ⟨hclosing, rfl⟩)⟩
    · exact ⟨hne, hname, (written_infix_pending_iff hname hseen hc).2 (.inr h)⟩

theorem isName_cons_iff (h : c ≠ opening) : IsName (c :: cs) name ↔ IsName cs name := by
  unfold IsName
  rw [written_infix_cons_iff h]

/-- What is pending holds no closing brace, so no name. -/
theorem not_isName_pending {seen : Option (List Char)} (hseen : PlainRun seen) :
    ¬IsName (pending seen) name := by
  intro h
  have hmem : closing ∈ pending seen := h.2.2.subset (by simp [written])
  cases seen with
  | none => cases hmem
  | some seen =>
    rcases List.mem_cons.1 hmem with heq | hmem
    · exact absurd heq (by decide)
    · exact (hseen closing (List.mem_reverse.1 hmem)).2.1 rfl

theorem mem_names_pending_iff (seen : Option (List Char)) (hseen : PlainRun seen) :
    name ∈ names seen cs ↔ IsName (pending seen ++ cs) name := by
  induction cs generalizing seen with
  | nil =>
    rw [names, List.append_nil]
    exact iff_of_false List.not_mem_nil (not_isName_pending hseen)
  | cons c cs ih =>
    unfold names
    split
    · rename_i hopening
      rw [ih (some []) fun _ h => absurd h List.not_mem_nil,
        isName_pending_iff hseen (.inl hopening), hopening]
      exact (or_iff_right fun h => absurd h.1 (by decide)).symm
    · rename_i hopening
      split
      · rename_i hclosing
        rw [isName_pending_iff hseen (.inr (.inl hclosing)), isName_cons_iff hopening]
        split
        · rename_i d ds
          rw [List.mem_cons, ih none trivial]
          refine or_congr ⟨?_, ?_⟩ Iff.rfl
          · rintro rfl
            exact ⟨hclosing, by simp, by simp⟩
          · rintro ⟨-, -, heq⟩
            rw [Option.some.inj heq, List.reverse_reverse]
        · rename_i hseen'
          rw [ih none trivial]
          refine (or_iff_right ?_).symm
          rintro ⟨-, hne, rfl⟩
          obtain ⟨d, ds, hds⟩ := List.exists_cons_of_ne_nil (List.reverse_ne_nil_iff.2 hne)
          exact hseen' d ds (congrArg some hds)
      · rename_i hclosing
        split
        · rename_i hslash
          rw [ih none trivial, isName_pending_iff hseen (.inr (.inr hslash)),
            isName_cons_iff hopening]
          exact (or_iff_right fun h => hclosing h.1).symm
        · rename_i hslash
          cases seen with
          | none =>
            rw [Option.map_none, ih none trivial]
            exact (isName_cons_iff hopening).symm
          | some seen =>
            rw [Option.map_some, ih (some (c :: seen))
              (plain_cons.2 ⟨⟨hopening, hclosing, hslash⟩, hseen⟩)]
            simp [pending]

/-- The names that are found in a template are those that stand in it. -/
theorem mem_names_iff : name ∈ names none cs ↔ IsName cs name :=
  mem_names_pending_iff none trivial

end ApiFolio.Text.Template

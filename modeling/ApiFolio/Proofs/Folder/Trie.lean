import ApiFolio.Proofs.Folder.Path

/-!
# Filing into a tree

Filing seen from the tree: an operation goes down its path from folder to folder, each created in
its place among its siblings if it is missing. The tree keeps its siblings in strictly ascending
order (`Tidy.file`); filing adds one operation at its path and changes nothing else
(`itemsAt?_file`, `placed_file`), and the only new folders are those on the path
(`hasFolder_file`).
-/

namespace ApiFolio.Export

open FolderTree (IsName)

namespace Collection

/-! ## Trees -/

/-- What holds of a folder when it holds of all folders inside it holds of every folder. -/
theorem inside_induction {P : Collection → Prop}
    (h : ∀ name items children, (∀ c ∈ children, P c) → P (.mk name items children)) :
    ∀ c, P c
  | .mk name items children => h name items children fun c _ => inside_induction h c
termination_by c => c
decreasing_by
  rename_i hc
  have := List.sizeOf_lt_of_mem hc
  simp
  omega

mutual

/-- The operations in a folder and in those inside it, each with the names of the folders that
lead down to it. -/
def placed : Collection → List (List String × ApiItem)
  | .mk _ items children => items.map (fun i => ([], i)) ++ placedAll children

/-- The operations in the folders, with the names that lead down to them. -/
def placedAll : List Collection → List (List String × ApiItem)
  | [] => []
  | c :: rest => (placed c).map (fun e => (c.name :: e.1, e.2)) ++ placedAll rest

end

/-- The operations in one of several folders, with the names that lead down to them. -/
def placedIn (c : Collection) : List (List String × ApiItem) :=
  c.placed.map fun e => (c.name :: e.1, e.2)

theorem placedAll_eq (cs : List Collection) : placedAll cs = cs.flatMap placedIn := by
  induction cs with
  | nil => rfl
  | cons c rest ih => rw [placedAll, ih, List.flatMap_cons, placedIn]

theorem placed_eq (c : Collection) :
    c.placed = c.items.map (fun i => ([], i)) ++ c.children.flatMap placedIn := by
  cases c
  rw [placed, placedAll_eq]

/-- There is a folder where the names lead. -/
def HasFolder : List String → Collection → Prop
  | [], _ => True
  | name :: below, c => ∃ d ∈ c.children, d.name = name ∧ HasFolder below d

/-! ## Folders by their names -/

/-- The first folder of a name. -/
def child? (name : String) : List Collection → Option Collection
  | [] => none
  | c :: rest => if c.name = name then some c else child? name rest

/-- The folder where the names lead. -/
def folderAt? : List String → Collection → Option Collection
  | [], c => some c
  | name :: below, c => (child? name c.children).bind (folderAt? below)

/-- The operations of the folder where the names lead. -/
def itemsAt? (names : List String) (c : Collection) : Option (List ApiItem) :=
  (folderAt? names c).map (·.items)

theorem child?_eq_some {name : String} {cs : List Collection} {c : Collection}
    (h : child? name cs = some c) : c ∈ cs ∧ c.name = name := by
  induction cs with
  | nil => simp [child?] at h
  | cons d rest ih =>
    rw [child?] at h
    split at h
    · rename_i hd
      cases h
      exact ⟨List.mem_cons_self, hd⟩
    · exact ⟨List.mem_cons_of_mem _ (ih h).1, (ih h).2⟩

theorem isSome_child?_iff {name : String} {cs : List Collection} :
    (child? name cs).isSome ↔ ∃ c ∈ cs, c.name = name := by
  induction cs with
  | nil => simp [child?]
  | cons d rest ih =>
    rw [child?]
    split
    · rename_i hd
      simp [hd]
    · rename_i hd
      simp [hd, ih]

theorem child?_of_mem {cs : List Collection} (h : cs.Pairwise fun a b => a.name < b.name)
    {c : Collection} (hc : c ∈ cs) : child? c.name cs = some c := by
  induction cs with
  | nil => cases hc
  | cons d rest ih =>
    have hrest := List.pairwise_cons.1 h
    rw [child?]
    rcases List.mem_cons.1 hc with rfl | hc
    · rw [if_pos rfl]
    · rw [if_neg fun heq => String.lt_irrefl _ (heq ▸ hrest.1 c hc), ih hrest.2 hc]

theorem folderAt?_concat (names : List String) (name : String) (c : Collection) :
    folderAt? (names ++ [name]) c = (folderAt? names c).bind fun d => child? name d.children := by
  induction names generalizing c with
  | nil => simp [folderAt?]
  | cons n below ih =>
    simp only [List.cons_append, folderAt?]
    cases child? n c.children with
    | none => rfl
    | some d => exact ih d

/-! ## Tidy trees -/

/-- Siblings stand in strictly ascending order of their names, which have no slash, at every
level. -/
inductive Tidy : Collection → Prop where
  | mk {name : String} {items : List ApiItem} {children : List Collection}
      (ascending : children.Pairwise fun a b => a.name < b.name)
      (names : ∀ c ∈ children, IsName c.name)
      (inside : ∀ c ∈ children, Tidy c) : Tidy (.mk name items children)

namespace Tidy

variable {c : Collection}

theorem ascending_children (h : Tidy c) : c.children.Pairwise fun a b => a.name < b.name := by
  cases h; assumption

theorem isName_child (h : Tidy c) {d : Collection} (hd : d ∈ c.children) : IsName d.name := by
  cases h with | mk _ names _ => exact names d hd

theorem child (h : Tidy c) {d : Collection} (hd : d ∈ c.children) : Tidy d := by
  cases h with | mk _ _ inside => exact inside d hd

theorem empty (name : String) : Tidy { name } :=
  .mk List.Pairwise.nil (by simp) (by simp)

theorem folderAt? (h : Tidy c) {names : List String} {d : Collection}
    (hd : folderAt? names c = some d) : Tidy d ∧ ∀ n ∈ names, IsName n := by
  induction names generalizing c with
  | nil =>
    cases hd
    exact ⟨h, by simp⟩
  | cons n below ih =>
    obtain ⟨e, he, hbelow⟩ := Option.bind_eq_some_iff.1 hd
    obtain ⟨hmem, hname⟩ := child?_eq_some he
    obtain ⟨hd, hnames⟩ := ih (h.child hmem) hbelow
    refine ⟨hd, fun m hm => ?_⟩
    rcases List.mem_cons.1 hm with rfl | hm
    · exact hname ▸ h.isName_child hmem
    · exact hnames m hm

end Tidy

/-! ## Filing -/

/-- Changes the folder of a name, after creating it in its place if it is not there. -/
def change (name : String) (f : Collection → Collection) : List Collection → List Collection
  | [] => [f { name }]
  | c :: rest =>
    if name < c.name then f { name } :: c :: rest
    else if name = c.name then f c :: rest
    else c :: change name f rest

/-- Files an operation where the names lead. -/
def file (item : ApiItem) : List String → Collection → Collection
  | [], c => { c with items := c.items ++ [item] }
  | name :: below, c => { c with children := change name (file item below) c.children }

@[simp] theorem file_name (item : ApiItem) (names : List String) (c : Collection) :
    (file item names c).name = c.name := by
  cases names <;> rfl

section Change

variable {name : String} {f : Collection → Collection}

/-- A folder after the change was there before it, or it is the changed one. -/
theorem mem_change {cs : List Collection} {c : Collection} (h : c ∈ change name f cs) :
    c ∈ cs ∨ ∃ d, c = f d ∧ d.name = name ∧ (d = { name } ∨ d ∈ cs) := by
  induction cs with
  | nil =>
    rw [change, List.mem_singleton] at h
    exact .inr ⟨_, h, rfl, .inl rfl⟩
  | cons e rest ih =>
    rw [change] at h
    split at h
    · rcases List.mem_cons.1 h with rfl | h
      · exact .inr ⟨_, rfl, rfl, .inl rfl⟩
      · exact .inl h
    · split at h
      · rename_i heq
        rcases List.mem_cons.1 h with rfl | h
        · exact .inr ⟨e, rfl, heq.symm, .inr List.mem_cons_self⟩
        · exact .inl (List.mem_cons_of_mem _ h)
      · rcases List.mem_cons.1 h with rfl | h
        · exact .inl List.mem_cons_self
        · rcases ih h with h | ⟨d, hc, hname, rfl | hd⟩
          · exact .inl (List.mem_cons_of_mem _ h)
          · exact .inr ⟨_, hc, hname, .inl rfl⟩
          · exact .inr ⟨d, hc, hname, .inr (List.mem_cons_of_mem _ hd)⟩

/-- A folder from before the change is still there, as it is or changed. -/
theorem mem_change_of_mem {cs : List Collection} {c : Collection} (h : c ∈ cs) :
    c ∈ change name f cs ∨ c.name = name ∧ f c ∈ change name f cs := by
  induction cs with
  | nil => cases h
  | cons e rest ih =>
    rw [change]
    split
    · exact .inl (List.mem_cons_of_mem _ h)
    · split
      · rename_i heq
        rcases List.mem_cons.1 h with rfl | h
        · exact .inr ⟨heq.symm, List.mem_cons_self⟩
        · exact .inl (List.mem_cons_of_mem _ h)
      · rcases List.mem_cons.1 h with rfl | h
        · exact .inl List.mem_cons_self
        · rcases ih h with h | ⟨hname, h⟩
          · exact .inl (List.mem_cons_of_mem _ h)
          · exact .inr ⟨hname, List.mem_cons_of_mem _ h⟩

/-- After the change there is a changed folder of the name. -/
theorem exists_mem_change (cs : List Collection) :
    ∃ d, d.name = name ∧ f d ∈ change name f cs := by
  induction cs with
  | nil => exact ⟨{ name }, rfl, List.mem_cons_self⟩
  | cons e rest ih =>
    rw [change]
    split
    · exact ⟨{ name }, rfl, List.mem_cons_self⟩
    · split
      · rename_i heq
        exact ⟨e, heq.symm, List.mem_cons_self⟩
      · obtain ⟨d, hname, hd⟩ := ih
        exact ⟨d, hname, List.mem_cons_of_mem _ hd⟩

theorem pairwise_change (hf : ∀ c, (f c).name = c.name) {cs : List Collection}
    (h : cs.Pairwise fun a b => a.name < b.name) :
    (change name f cs).Pairwise fun a b => a.name < b.name := by
  induction cs with
  | nil => exact List.pairwise_singleton _ _
  | cons e rest ih =>
    have hrest := List.pairwise_cons.1 h
    rw [change]
    split
    · rename_i hlt
      refine List.pairwise_cons.2 ⟨fun d hd => ?_, h⟩
      rw [hf]
      rcases List.mem_cons.1 hd with rfl | hd
      · exact hlt
      · exact String.lt_trans hlt (hrest.1 d hd)
    · rename_i hlt
      split
      · refine List.pairwise_cons.2 ⟨fun d hd => ?_, hrest.2⟩
        rw [hf]
        exact hrest.1 d hd
      · rename_i hne
        refine List.pairwise_cons.2 ⟨fun d hd => ?_, ih hrest.2⟩
        rcases mem_change hd with hd | ⟨d', rfl, hname, -⟩
        · exact hrest.1 d hd
        · rw [hf, hname]
          exact Entries.lt_of_not_lt_of_ne hlt hne

theorem child?_change (hf : ∀ c, (f c).name = c.name) {cs : List Collection}
    (h : cs.Pairwise fun a b => a.name < b.name) (n : String) :
    child? n (change name f cs) =
      if name = n then some (f ((child? name cs).getD { name })) else child? n cs := by
  induction cs with
  | nil => simp [change, child?, hf]
  | cons e rest ih =>
    have hrest := List.pairwise_cons.1 h
    rw [change]
    split
    · rename_i hlt
      -- every sibling has a greater name, so the name is new
      have hnone : child? name (e :: rest) = none := by
        rw [← Option.not_isSome_iff_eq_none, isSome_child?_iff]
        rintro ⟨d, hd, rfl⟩
        rcases List.mem_cons.1 hd with rfl | hd
        · exact String.lt_irrefl _ hlt
        · exact String.lt_irrefl _ (String.lt_trans hlt (hrest.1 d hd))
      rw [child?, hf, hnone]
      rfl
    · split
      · rename_i heq
        subst heq
        rw [child?, child?, hf, child?, if_pos rfl]
        split <;> rfl
      · rename_i hne
        rw [child?, child?, child?, ih hrest.2, if_neg (Ne.symm hne)]
        by_cases hn : e.name = n
        · rw [if_pos hn, if_pos hn, if_neg (fun hname => hne (hname.trans hn.symm))]
        · rw [if_neg hn, if_neg hn]

theorem flatMap_change_perm {γ : Type} {g : Collection → List γ} {more : List γ}
    (hnew : g { name } = []) (hf : ∀ d, d.name = name → (g (f d)).Perm (g d ++ more))
    (cs : List Collection) :
    ((change name f cs).flatMap g).Perm (cs.flatMap g ++ more) := by
  induction cs with
  | nil =>
    have h := hf { name } rfl
    rw [hnew] at h
    simpa [change] using h
  | cons e rest ih =>
    rw [change]
    split
    · have h := hf { name } rfl
      rw [hnew, List.nil_append] at h
      rw [List.flatMap_cons]
      exact (h.append_right _).trans List.perm_append_comm
    · split
      · rename_i heq
        rw [List.flatMap_cons, List.flatMap_cons, List.append_assoc]
        refine ((hf e heq.symm).append_right _).trans ?_
        rw [List.append_assoc]
        exact List.perm_append_comm.append_left _
      · rw [List.flatMap_cons, List.flatMap_cons, List.append_assoc]
        exact ih.append_left _

end Change

theorem Tidy.file (item : ApiItem) {names : List String} (hn : ∀ n ∈ names, IsName n)
    {c : Collection} (h : Tidy c) : Tidy (Collection.file item names c) := by
  induction names generalizing c with
  | nil => cases h with | mk ascending hnames inside => exact .mk ascending hnames inside
  | cons n below ih =>
    have hbelow {e : Collection} (he : Tidy e) : Tidy (Collection.file item below e) :=
      ih (fun m hm => hn m (List.mem_cons_of_mem _ hm)) he
    refine .mk (pairwise_change (file_name item below) h.ascending_children) (fun d hd => ?_)
      fun d hd => ?_
    · rcases mem_change hd with hd | ⟨e, rfl, hname, -⟩
      · exact h.isName_child hd
      · rw [file_name, hname]
        exact hn n List.mem_cons_self
    · rcases mem_change hd with hd | ⟨e, rfl, -, rfl | he⟩
      · exact h.child hd
      · exact hbelow (Tidy.empty n)
      · exact hbelow (h.child he)

/-- The folders after filing an operation: those on its path exist, the last of them holds it. -/
theorem itemsAt?_file (item : ApiItem) (names : List String) {c : Collection} (h : Tidy c)
    (q : List String) :
    itemsAt? q (file item names c) =
      if q = names then some ((itemsAt? q c).getD [] ++ [item])
      else if q <+: names then some ((itemsAt? q c).getD []) else itemsAt? q c := by
  induction names generalizing c q with
  | nil => cases q <;> simp [itemsAt?, folderAt?, file]
  | cons n below ih =>
    cases q with
    | nil => simp [itemsAt?, folderAt?, file]
    | cons m r =>
      have hstep (d : Collection) :
          itemsAt? (m :: r) d = (child? m d.children).bind (itemsAt? r) := by
        simp only [itemsAt?, folderAt?, Option.map_bind]
        rfl
      rw [hstep, hstep]
      show (child? m (change n (file item below) c.children)).bind (itemsAt? r) = _
      rw [child?_change (file_name item below) h.ascending_children]
      by_cases hm : n = m
      · subst hm
        rw [if_pos rfl, Option.bind_some]
        cases hc : child? n c.children with
        | some d =>
          rw [Option.getD_some, ih (h.child (child?_eq_some hc).1), Option.bind_some]
          simp
        | none =>
          have hnew : itemsAt? r ({ name := n } : Collection) =
              if r = [] then some [] else none := by
            cases r <;> simp [itemsAt?, folderAt?, child?]
          rw [Option.getD_none, ih (Tidy.empty n), hnew, Option.bind_none]
          cases r <;> simp
      · rw [if_neg hm]
        simp [Ne.symm hm]

/-- Filing an operation adds it at its path and moves no other. -/
theorem placed_file (item : ApiItem) (names : List String) (c : Collection) :
    (file item names c).placed.Perm (c.placed ++ [(names, item)]) := by
  induction names generalizing c with
  | nil =>
    rw [placed_eq, placed_eq, file, List.map_append, List.append_assoc, List.append_assoc]
    exact List.perm_append_comm.append_left _
  | cons n below ih =>
    rw [placed_eq, placed_eq, List.append_assoc]
    refine List.Perm.append_left _ (flatMap_change_perm ?_ ?_ _)
    · simp [placedIn, placed, placedAll]
    · rintro d rfl
      have h := (ih d).map fun e => (d.name :: e.1, e.2)
      rw [List.map_append] at h
      rw [placedIn, file_name]
      exact h

/-- Filing an operation creates the folders on its path and no other. -/
theorem hasFolder_file (item : ApiItem) (names q : List String) (c : Collection) :
    HasFolder q (file item names c) ↔ HasFolder q c ∨ q <+: names := by
  induction names generalizing c q with
  | nil => cases q <;> simp [HasFolder, file]
  | cons n below ih =>
    cases q with
    | nil => simp [HasFolder]
    | cons m r =>
      show (∃ d ∈ change n (file item below) c.children, d.name = m ∧ HasFolder r d) ↔ _
      constructor
      · rintro ⟨d, hd, rfl, hr⟩
        rcases mem_change hd with hd | ⟨e, rfl, rfl, he⟩
        · exact .inl ⟨d, hd, rfl, hr⟩
        · rw [file_name]
          rcases (ih _ _).1 hr with hr | hr
          · rcases he with he | he
            · -- a new folder has nothing inside it
              rw [he] at hr
              cases r with
              | nil => exact .inr (by simp)
              | cons m r => simp [HasFolder] at hr
            · exact .inl ⟨e, he, rfl, hr⟩
          · exact .inr (List.cons_prefix_cons.2 ⟨rfl, hr⟩)
      · rintro (⟨d, hd, rfl, hr⟩ | hprefix)
        · rcases mem_change_of_mem hd with hd | ⟨-, hd⟩
          · exact ⟨d, hd, rfl, hr⟩
          · exact ⟨_, hd, file_name .., (ih _ _).2 (.inl hr)⟩
        · obtain ⟨rfl, hr⟩ := List.cons_prefix_cons.1 hprefix
          obtain ⟨d, hname, hd⟩ := @exists_mem_change m (file item below) c.children
          exact ⟨_, hd, (file_name ..).trans hname, (ih _ _).2 (.inr hr)⟩

end Collection

end ApiFolio.Export

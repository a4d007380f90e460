import ApiFolio.Proofs.Folder.Records

/-!
# From records to folders

Taking the folders out of the records one by one gives back the tree that the records stand for
(`Represents.forest`). The folders below a path are listed by an index (`Indexes`); taking one of
them out with all that is inside it touches no record beside it, since paths with different names
differ (`pathOf_injective`).
-/

namespace ApiFolio.Export.FolderTree

open Collection (folderAt? itemsAt? child? Tidy)

/-! ## The index of the paths below each path -/

theorem getD_foldl_pathsBelow (es : List (String × FolderRecord)) (below : Dict (List String))
    (parent : String) :
    ((es.foldl (fun below e =>
        below.insert e.2.parent ((below.get? e.2.parent).getD [] ++ [e.1])) below).get?
        parent).getD [] =
      (below.get? parent).getD [] ++ (es.filter fun e => e.2.parent = parent).map (·.1) := by
  induction es generalizing below with
  | nil => simp
  | cons e rest ih =>
    rw [List.foldl_cons, ih, Dict.get?_insert, List.filter_cons]
    by_cases h : e.2.parent = parent
    · subst h
      simp
    · simp [h]

/-- The index lists the paths whose records name the parent, in the order of the records. -/
theorem getD_pathsBelow (records : Dict FolderRecord) (parent : String) :
    ((pathsBelow records).get? parent).getD [] =
      (records.entries.filter fun e => e.2.parent = parent).map (·.1) := by
  rw [pathsBelow, getD_foldl_pathsBelow]
  rfl

/-- The index of a tree below a path: each folder has the paths of those inside it. -/
def Indexes (below : Dict (List String)) (p : List String) (c : Collection) : Prop :=
  ∀ q d, folderAt? q c = some d →
    (below.get? (pathOf (p ++ q))).getD [] = d.children.map fun e => pathOf (p ++ q ++ [e.name])

theorem Represents.indexes {records : Dict FolderRecord} {root : Collection}
    (h : Represents records root) (ht : Tidy root) : Indexes (pathsBelow records) [] root := by
  intro q d hd
  obtain ⟨hdt, hq⟩ := ht.folderAt? hd
  rw [List.nil_append, getD_pathsBelow]
  have hnames {e : Collection} (he : e ∈ d.children) : ∀ m ∈ q ++ [e.name], IsName m :=
    isName_concat hq (hdt.isName_child he)
  -- both lists of paths ascend strictly
  have hl : ((records.entries.filter fun e => e.2.parent = pathOf q).map (·.1)).Pairwise
      (· < ·) := List.pairwise_map.2 (Entries.sorted_filter _ records.sorted)
  have hr : (d.children.map fun e => pathOf (q ++ [e.name])).Pairwise (· < ·) := by
    refine List.pairwise_map.2 (hdt.ascending_children.imp fun hlt => ?_)
    rw [pathOf_concat, pathOf_concat]
    exact pathBelow_lt hlt
  -- and they have the same members
  have hmem (key : String) :
      key ∈ (records.entries.filter fun e => e.2.parent = pathOf q).map (·.1) ↔
        key ∈ d.children.map fun e => pathOf (q ++ [e.name]) := by
    constructor
    · intro hk
      obtain ⟨⟨k, record⟩, he, rfl⟩ := List.mem_map.1 hk
      obtain ⟨he, hparent⟩ := List.mem_filter.1 he
      have hget := (records.mem_entries).1 he
      obtain ⟨q', n, hq', rfl⟩ := h.key k record hget
      rw [h.get? q' n hq'] at hget
      obtain ⟨items, hitems, rfl⟩ := Option.map_eq_some_iff.1 hget
      have hqq : q' = q := pathOf_injective (fun m hm => hq' m (List.mem_append_left _ hm)) hq
        (by simpa using hparent)
      subst hqq
      obtain ⟨e, he, -⟩ := Option.map_eq_some_iff.1 hitems
      rw [Collection.folderAt?_concat, hd, Option.bind_some] at he
      obtain ⟨hmem, rfl⟩ := Collection.child?_eq_some he
      exact List.mem_map.2 ⟨e, hmem, rfl⟩
    · intro hk
      obtain ⟨e, he, rfl⟩ := List.mem_map.1 hk
      have hget := h.get? q e.name (hnames he)
      rw [itemsAt?, Collection.folderAt?_concat, hd, Option.bind_some,
        Collection.child?_of_mem hdt.ascending_children he] at hget
      refine List.mem_map.2 ⟨_, List.mem_filter.2 ⟨(records.mem_entries).2 hget, ?_⟩, rfl⟩
      simp
  exact eq_of_ascending hl hr hmem

/-! ## Taking folders out of the records -/

theorem build_of_get? (below : Dict (List String)) {records : Dict FolderRecord} {path : String}
    {record : FolderRecord} (h : records.get? path = some record) :
    (build below records path).1 = some {
        name := record.name, items := record.items
        children := (buildAll below (records.erase path) ((below.get? path).getD [])).1 } ∧
      (build below records path).2.1 =
        (buildAll below (records.erase path) ((below.get? path).getD [])).2.1 := by
  rw [build]
  split
  · rename_i hn
    rw [hn] at h
    cases h
  · rename_i r hr
    rw [hr] at h
    cases h
    exact ⟨rfl, rfl⟩

/-- The records hold what stands in the folders below a path. -/
def Holds (records : Dict FolderRecord) (p : List String) (c : Collection) : Prop :=
  ∀ q n d, folderAt? (q ++ [n]) c = some d →
    records.get? (pathOf (p ++ q ++ [n])) = some ⟨n, pathOf (p ++ q), d.items⟩

/-- A key that is not the path of a folder or of one below it. -/
def Outside (key : String) (p : List String) : Prop :=
  ∀ q, (∀ m ∈ q, IsName m) → key ≠ pathOf (p ++ q)

/-- A folder is built from its records: what comes out is the folder, and all other records stay.
-/
def Builds (below : Dict (List String)) (p : List String) (c : Collection) : Prop :=
  ∀ records : Dict FolderRecord,
    records.get? (pathOf (p ++ [c.name])) = some ⟨c.name, pathOf p, c.items⟩ →
    Holds records (p ++ [c.name]) c →
    (build below records (pathOf (p ++ [c.name]))).1 = some c ∧
      ∀ key, Outside key (p ++ [c.name]) →
        (build below records (pathOf (p ++ [c.name]))).2.1.get? key = records.get? key

/-- The folder of one name is outside of that of another. -/
theorem outside_of_ne {p q : List String} {a b : String} (hp : ∀ m ∈ p, IsName m) (ha : IsName a)
    (hb : IsName b) (hq : ∀ m ∈ q, IsName m) (hne : a ≠ b) :
    Outside (pathOf (p ++ [a] ++ q)) (p ++ [b]) := by
  intro q' hq' heq
  have hnames {x : String} (hx : IsName x) {t : List String} (ht : ∀ m ∈ t, IsName m) :
      ∀ m ∈ p ++ [x] ++ t, IsName m :=
    List.forall_mem_append.2 ⟨isName_concat hp hx, ht⟩
  have heq := pathOf_injective (hnames ha hq) (hnames hb hq') heq
  simp only [List.append_assoc, List.append_cancel_left_eq] at heq
  exact hne (List.cons.inj heq).1

/-- Folders next to one another are built one after the other. -/
theorem buildAll_eq {below : Dict (List String)} {p : List String} (hp : ∀ m ∈ p, IsName m)
    {cs : List Collection} (hb : ∀ c ∈ cs, Builds below p c) (hc : ∀ c ∈ cs, Tidy c)
    (hn : ∀ c ∈ cs, IsName c.name) (ha : cs.Pairwise fun a b => a.name < b.name)
    (records : Dict FolderRecord)
    (hr : ∀ c ∈ cs, records.get? (pathOf (p ++ [c.name])) = some ⟨c.name, pathOf p, c.items⟩)
    (hh : ∀ c ∈ cs, Holds records (p ++ [c.name]) c) :
    (buildAll below records (cs.map fun c => pathOf (p ++ [c.name]))).1 = cs ∧
      ∀ key, (∀ c ∈ cs, Outside key (p ++ [c.name])) →
        (buildAll below records (cs.map fun c => pathOf (p ++ [c.name]))).2.1.get? key =
          records.get? key := by
  induction cs generalizing records with
  | nil =>
    rw [List.map_nil, buildAll]
    exact ⟨rfl, fun _ _ => rfl⟩
  | cons c rest ih =>
    obtain ⟨hlt, ha⟩ := List.pairwise_cons.1 ha
    obtain ⟨hfirst, hrest⟩ := hb c List.mem_cons_self records (hr c List.mem_cons_self)
      (hh c List.mem_cons_self)
    have hne {d : Collection} (hd : d ∈ rest) : d.name ≠ c.name :=
      fun h => String.lt_irrefl _ (h ▸ hlt d hd)
    have hout {d : Collection} (hd : d ∈ rest) {q : List String} (hq : ∀ m ∈ q, IsName m) :
        Outside (pathOf (p ++ [d.name] ++ q)) (p ++ [c.name]) :=
      outside_of_ne hp (hn d (List.mem_cons_of_mem _ hd)) (hn c List.mem_cons_self) hq (hne hd)
    -- the records of the other folders are still there
    have ih := ih (fun d hd => hb d (List.mem_cons_of_mem _ hd))
      (fun d hd => hc d (List.mem_cons_of_mem _ hd))
      (fun d hd => hn d (List.mem_cons_of_mem _ hd)) ha
      (build below records (pathOf (p ++ [c.name]))).2.1
      (fun d hd => by
        rw [hrest _ (by simpa using hout hd (q := []) (by simp))]
        exact hr d (List.mem_cons_of_mem _ hd))
      (fun d hd q n e he => by
        have hq := ((hc d (List.mem_cons_of_mem _ hd)).folderAt? he).2
        rw [List.append_assoc _ q, hrest _ (hout hd hq), ← List.append_assoc _ q]
        exact hh d (List.mem_cons_of_mem _ hd) q n e he)
    rw [List.map_cons, buildAll]
    refine ⟨?_, fun key hkey => ?_⟩
    · show (build below records (pathOf (p ++ [c.name]))).1.toList ++ _ = c :: rest
      rw [hfirst, ih.1]
      rfl
    · refine (ih.2 key fun d hd => hkey d (List.mem_cons_of_mem _ hd)).trans ?_
      exact hrest key (hkey c List.mem_cons_self)

/-- Every folder of a tidy tree is built from its records. -/
theorem builds {below : Dict (List String)} {c : Collection} (ht : Tidy c) {p : List String}
    (hp : ∀ m ∈ p, IsName m) (hn : IsName c.name) (hi : Indexes below (p ++ [c.name]) c) :
    Builds below p c := by
  induction ht generalizing p with
  | @mk name items children ascending names inside ih =>
    intro records hrec hh
    have hpn : ∀ m ∈ p ++ [name], IsName m := isName_concat hp hn
    have hdown {d : Collection} (hd : d ∈ children) (q : List String) :
        folderAt? (d.name :: q) (.mk name items children) = folderAt? q d := by
      rw [folderAt?, Collection.child?_of_mem ascending hd, Option.bind_some]
    have hbelow {d : Collection} (hd : d ∈ children) : Builds below (p ++ [name]) d := by
      refine ih d hd hpn (names d hd) fun q e he => ?_
      have h := hi (d.name :: q) e ((hdown hd q).trans he)
      simpa only [List.append_assoc, List.cons_append, List.nil_append] using h
    obtain ⟨hfirst, hrest⟩ := build_of_get? below hrec
    have hpaths : (below.get? (pathOf (p ++ [name]))).getD [] =
        children.map fun d => pathOf (p ++ [name] ++ [d.name]) := by
      simpa using hi [] _ rfl
    rw [hpaths] at hfirst hrest
    -- the folder itself is no longer among the records; those inside it are
    have herase {d : Collection} (hd : d ∈ children) {q : List String} (hq : ∀ m ∈ q, IsName m) :
        (records.erase (pathOf (p ++ [name]))).get? (pathOf (p ++ [name] ++ [d.name] ++ q)) =
          records.get? (pathOf (p ++ [name] ++ [d.name] ++ q)) := by
      have hinside : ∀ m ∈ p ++ [name] ++ ([d.name] ++ q), IsName m :=
        List.forall_mem_append.2 ⟨hpn, List.forall_mem_cons.2 ⟨names d hd, hq⟩⟩
      rw [Dict.get?_erase, if_neg]
      rw [List.append_assoc (p ++ [name])]
      exact pathOf_append_ne hinside (List.cons_ne_nil _ _)
    obtain ⟨hall, hleft⟩ := buildAll_eq hpn (fun d hd => hbelow hd) inside names ascending
      (records.erase (pathOf (p ++ [name])))
      (fun d hd => by
        have h := herase hd (q := []) (by simp)
        rw [List.append_nil] at h
        rw [h]
        simpa using hh [] d.name d (hdown hd []))
      (fun d hd q n e he => by
        have hq := ((inside d hd).folderAt? he).2
        rw [List.append_assoc _ q, herase hd hq]
        have h := hh (d.name :: q) n e ((hdown hd _).trans he)
        simpa only [List.append_assoc, List.cons_append, List.nil_append] using h)
    refine ⟨?_, fun key hkey => ?_⟩
    · rw [hfirst, hall]
    · rw [hrest, hleft, Dict.get?_erase, if_neg]
      · simpa using hkey [] (by simp)
      · intro d hd q hq
        have h := hkey (d.name :: q) (List.forall_mem_cons.2 ⟨names d hd, hq⟩)
        simpa only [List.append_assoc, List.cons_append, List.nil_append] using h

/-- The forest of the records is what stands below the root of the tree that they stand for. -/
theorem Represents.forest {tree : FolderTree} {root : Collection}
    (h : Represents tree.records root) (ht : Tidy root) : tree.forest = root.children := by
  have hi := h.indexes ht
  have hdown {d : Collection} (hd : d ∈ root.children) (q : List String) :
      folderAt? (d.name :: q) root = folderAt? q d := by
    rw [folderAt?, Collection.child?_of_mem ht.ascending_children hd, Option.bind_some]
  have hroots : ((pathsBelow tree.records).get? "").getD [] =
      root.children.map fun d => pathOf ([] ++ [d.name]) := by
    simpa using hi [] root rfl
  have hholds (names : List String) {n : String} {d : Collection}
      (hd : folderAt? (names ++ [n]) root = some d) :
      tree.records.get? (pathOf (names ++ [n])) = some ⟨n, pathOf names, d.items⟩ := by
    rw [h.get? names n (ht.folderAt? hd).2, itemsAt?, hd, Option.map_some, Option.map_some]
  have hbuild {d : Collection} (hd : d ∈ root.children) :
      Builds ((pathsBelow tree.records).erase "") [] d := by
    refine builds (ht.child hd) (by simp) (ht.isName_child hd) fun q e he => ?_
    have hnames := (ht.folderAt? ((hdown hd q).trans he)).2
    -- no folder has the empty path
    rw [Dict.get?_erase, if_neg]
    · simpa using hi (d.name :: q) e ((hdown hd q).trans he)
    · intro hempty
      have h := (pathOf_eq_empty_iff hnames).1 (by simpa using hempty)
      cases h
  rw [FolderTree.forest]
  show (buildAll _ _ (((pathsBelow tree.records).get? "").getD [])).1 = _
  rw [hroots]
  refine (buildAll_eq (by simp) (fun d hd => hbuild hd) (fun d hd => ht.child hd)
    (fun d hd => ht.isName_child hd) ht.ascending_children _ (fun d hd => ?_)
    fun d hd q n e he => ?_).1
  · exact hholds [] (hdown hd [])
  · exact hholds (d.name :: q) ((hdown hd _).trans he)

end ApiFolio.Export.FolderTree

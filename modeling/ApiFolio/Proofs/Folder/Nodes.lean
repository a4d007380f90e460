import Mathlib.Data.List.Nodup
import ApiFolio.Proofs.Folder.Forest
import ApiFolio.Proofs.Folder.Inserts

/-!
# The folders of a forest

Each folder of a forest is listed with the names that lead down to it (`Collection.nodesOf`). The
forest of a tree lists its records, one folder for each (`Represents.nodes_perm`). What stands where
the names lead determines a tidy tree (`Collection.Tidy.children_ext`), so the order in which
operations come matters only among those of one folder (`forest_insertAll`).
-/

namespace ApiFolio.Export

namespace Collection

open FolderTree (IsName)

mutual

/-- The folder and all folders inside it, each with the names that lead down to it. -/
def nodes : Collection → List (List String × Collection)
  | .mk name items children =>
    ([name], .mk name items children) :: (nodesOf children).map fun e => (name :: e.1, e.2)

/-- The folders and all folders inside them, each with the names that lead down to it. -/
def nodesOf : List Collection → List (List String × Collection)
  | [] => []
  | c :: rest => nodes c ++ nodesOf rest

end

theorem nodesOf_eq (cs : List Collection) : nodesOf cs = cs.flatMap nodes := by
  induction cs with
  | nil => rfl
  | cons c rest ih => rw [nodesOf, ih, List.flatMap_cons]

theorem nodes_eq (c : Collection) :
    c.nodes = ([c.name], c) :: (nodesOf c.children).map fun e => (c.name :: e.1, e.2) := by
  cases c
  rw [nodes]

/-- Siblings stand in strictly ascending order of their names. -/
def Ascending (cs : List Collection) : Prop := cs.Pairwise fun a b => a.name < b.name

/-- Siblings in ascending order are told by which folders there are. -/
theorem Ascending.eq_of_mem_iff {a b : List Collection} (ha : Ascending a) (hb : Ascending b)
    (h : ∀ c, c ∈ a ↔ c ∈ b) : a = b := by
  have hnodup {cs : List Collection} (hcs : Ascending cs) : cs.Nodup := by
    refine hcs.imp fun {c d} hlt heq => ?_
    subst heq
    exact String.lt_irrefl _ hlt
  refine List.Perm.eq_of_pairwise (fun c d _ _ hcd hdc => ?_) ha hb
    ((List.perm_ext_iff_of_nodup (hnodup ha) (hnodup hb)).2 h)
  exact absurd (String.lt_trans hcd hdc) (String.lt_irrefl _)

theorem mem_nodes_iff {c d : Collection} {names : List String} :
    (names, d) ∈ c.nodes ↔
      ∃ below, names = c.name :: below ∧
        (below = [] ∧ d = c ∨ (below, d) ∈ nodesOf c.children) := by
  rw [nodes_eq, List.mem_cons, List.mem_map]
  constructor
  · rintro (h | ⟨⟨below, e⟩, he, h⟩)
    · cases h
      exact ⟨[], rfl, .inl ⟨rfl, rfl⟩⟩
    · cases h
      exact ⟨below, rfl, .inr he⟩
  · rintro ⟨below, rfl, ⟨rfl, rfl⟩ | h⟩
    · exact .inl rfl
    · exact .inr ⟨_, h, rfl⟩

theorem ne_nil_of_mem_nodesOf {cs : List Collection} {names : List String} {d : Collection}
    (h : (names, d) ∈ nodesOf cs) : names ≠ [] := by
  rw [nodesOf_eq] at h
  obtain ⟨c, -, h⟩ := List.mem_flatMap.1 h
  obtain ⟨below, rfl, -⟩ := mem_nodes_iff.1 h
  exact List.cons_ne_nil _ _

section Tidy

variable {c d : Collection}

/-- In a tidy tree the folders below the root are those where names lead. -/
theorem Tidy.mem_nodesOf_children_iff (h : Tidy c) {names : List String} :
    (names, d) ∈ nodesOf c.children ↔ names ≠ [] ∧ Collection.folderAt? names c = some d := by
  induction names generalizing c with
  | nil => exact ⟨fun hmem => absurd rfl (ne_nil_of_mem_nodesOf hmem), fun hne => absurd rfl hne.1⟩
  | cons name below ih =>
    have hbelow {e : Collection} (he : e ∈ c.children) :
        (below = [] ∧ d = e ∨ (below, d) ∈ nodesOf e.children) ↔
          Collection.folderAt? below e = some d := by
      rw [ih (h.child he)]
      cases below with
      | nil => simp [Collection.folderAt?, eq_comm]
      | cons m rest => simp
    rw [nodesOf_eq, List.mem_flatMap, Collection.folderAt?]
    constructor
    · rintro ⟨e, he, hmem⟩
      obtain ⟨_, heq, hd⟩ := mem_nodes_iff.1 hmem
      cases heq
      rw [child?_of_mem h.ascending_children he, Option.bind_some]
      exact ⟨List.cons_ne_nil _ _, (hbelow he).1 hd⟩
    · rintro ⟨-, hlead⟩
      obtain ⟨e, he, hd⟩ := Option.bind_eq_some_iff.1 hlead
      obtain ⟨hmem, rfl⟩ := child?_eq_some he
      exact ⟨e, hmem, mem_nodes_iff.2 ⟨below, rfl, (hbelow hmem).2 hd⟩⟩

/-- In a tidy tree no two folders have the same names leading to them. -/
theorem Tidy.nodup_names (h : Tidy c) : ((nodesOf c.children).map (·.1)).Nodup := by
  induction h with
  | @mk name items children ascending _ _ ih =>
    show ((nodesOf children).map (·.1)).Nodup
    rw [nodesOf_eq, List.map_flatMap, List.nodup_flatMap]
    constructor
    · intro d hd
      rw [nodes_eq, List.map_cons, List.map_map, List.nodup_cons]
      constructor
      · rintro hmem
        obtain ⟨⟨below, e⟩, he, heq⟩ := List.mem_map.1 hmem
        have hnil : below = [] := (List.cons.inj heq).2
        exact ne_nil_of_mem_nodesOf he hnil
      · have hcons := (ih d hd).map (f := fun below => d.name :: below) fun a b hab =>
          (List.cons.inj hab).2
        rw [List.map_map] at hcons
        exact hcons
    · -- the first names of siblings differ
      refine ascending.imp fun {a b} hlt names ha hb => ?_
      obtain ⟨⟨_, d⟩, hd, rfl⟩ := List.mem_map.1 ha
      obtain ⟨⟨_, e⟩, he, heq⟩ := List.mem_map.1 hb
      obtain ⟨_, hnames, -⟩ := mem_nodes_iff.1 hd
      obtain ⟨_, hnames', -⟩ := mem_nodes_iff.1 he
      dsimp only at heq
      rw [hnames, hnames'] at heq
      rw [(List.cons.inj heq).1] at hlt
      exact String.lt_irrefl _ hlt

theorem itemsAt?_cons_of_mem (h : Tidy c) {e : Collection} (he : e ∈ c.children)
    (names : List String) : itemsAt? (e.name :: names) c = itemsAt? names e := by
  unfold itemsAt?
  rw [Collection.folderAt?, child?_of_mem h.ascending_children he, Option.bind_some]

/-- Folders of tidy trees that hold the same where the same names lead hold the same folders. -/
theorem Tidy.children_ext (hc : Tidy c) (hd : Tidy d)
    (h : ∀ names, names ≠ [] → itemsAt? names c = itemsAt? names d) : c.children = d.children := by
  induction hc generalizing d with
  | @mk name items children ascending names inside ih =>
    have hc : Tidy (.mk name items children) := .mk ascending names inside
    -- a folder and one of the same name on the other side are the same
    have heq {e f : Collection} (he : e ∈ children) (hf : f ∈ d.children)
        (hname : e.name = f.name) : e = f := by
      have hsame (below : List String) : itemsAt? below e = itemsAt? below f := by
        rw [← itemsAt?_cons_of_mem hc he, ← itemsAt?_cons_of_mem hd hf, hname]
        exact h _ (List.cons_ne_nil _ _)
      have hchildren : e.children = f.children := ih e he (hd.child hf) fun below _ => hsame below
      have hitems : e.items = f.items := Option.some.inj (hsame [])
      cases e
      cases f
      cases hname
      cases hchildren
      cases hitems
      rfl
    -- and there is one for each
    have hother {a b : Collection} (ha : Tidy a) (hb : Tidy b)
        (hab : ∀ names, names ≠ [] → itemsAt? names a = itemsAt? names b) {e : Collection}
        (he : e ∈ a.children) : ∃ f ∈ b.children, f.name = e.name := by
      have hitems : itemsAt? [e.name] b = some e.items := by
        rw [← hab _ (List.cons_ne_nil _ _), itemsAt?_cons_of_mem ha he]
        rfl
      obtain ⟨f, hf, -⟩ := Option.map_eq_some_iff.1 hitems
      obtain ⟨g, hg, -⟩ := Option.bind_eq_some_iff.1 hf
      exact ⟨g, child?_eq_some hg⟩
    refine Ascending.eq_of_mem_iff ascending hd.ascending_children fun e => ?_
    constructor
    · intro he
      obtain ⟨f, hf, hname⟩ := hother hc hd h he
      rw [heq he hf hname.symm]
      exact hf
    · intro hf
      obtain ⟨e, he, hname⟩ := hother hd hc (fun names hne => (h names hne).symm) hf
      rw [← heq he hf hname]
      exact he

end Tidy

end Collection

namespace FolderTree

open Collection (nodesOf placedAll folderAt? itemsAt? fileEach Tidy Ascending)

/-! ## Folders and records -/

/-- The record of a folder to which names lead, under the key that they make. -/
def nodeRecord (node : List String × Collection) : String × FolderRecord :=
  (Text.join "/" node.1,
    { name := node.2.name, parent := Text.join "/" node.1.dropLast, items := node.2.items })

theorem nodeRecord_eq {root d : Collection} (ht : Tidy root) {front : List String} {last : String}
    (hd : folderAt? (front ++ [last]) root = some d) :
    nodeRecord (front ++ [last], d) =
      (pathOf (front ++ [last]), { name := last, parent := pathOf front, items := d.items }) := by
  have hnames := (ht.folderAt? hd).2
  have hname : d.name = last := by
    rw [Collection.folderAt?_concat] at hd
    obtain ⟨_, -, hd⟩ := Option.bind_eq_some_iff.1 hd
    exact (Collection.child?_eq_some hd).2
  unfold nodeRecord
  rw [List.dropLast_concat, join_eq_pathOf hnames,
    join_eq_pathOf fun n hn => hnames n (List.mem_append_left _ hn), hname]

/-- The folders of a forest are those of the records that it is made of, one for each. -/
theorem Represents.nodes_perm {tree : FolderTree} {root : Collection}
    (h : Represents tree.records root) (ht : Tidy root) :
    ((nodesOf tree.forest).map nodeRecord).Perm tree.records.entries := by
  rw [h.forest ht]
  have hkeys : (((nodesOf root.children).map nodeRecord).map (·.1)).Nodup := by
    have hmap : ((nodesOf root.children).map nodeRecord).map (·.1) =
        ((nodesOf root.children).map (·.1)).map (Text.join "/") := by
      rw [List.map_map, List.map_map]
      rfl
    rw [hmap]
    refine ht.nodup_names.map_on fun a ha b hb hab => ?_
    have hnames {names : List String} (hmem : names ∈ (nodesOf root.children).map (·.1)) :
        ∀ n ∈ names, IsName n := by
      obtain ⟨⟨_, d⟩, hd, rfl⟩ := List.mem_map.1 hmem
      exact (ht.folderAt? (ht.mem_nodesOf_children_iff.1 hd).2).2
    rw [join_eq_pathOf (hnames ha), join_eq_pathOf (hnames hb)] at hab
    exact pathOf_injective (hnames ha) (hnames hb) hab
  refine (List.perm_ext_iff_of_nodup (List.Nodup.of_map _ hkeys) tree.records.sorted.nodup).2
    fun ⟨key, record⟩ => ?_
  rw [Dict.mem_entries, List.mem_map]
  constructor
  · rintro ⟨⟨names, d⟩, hmem, heq⟩
    obtain ⟨hne, hd⟩ := ht.mem_nodesOf_children_iff.1 hmem
    obtain ⟨front, last, rfl⟩ := (List.eq_nil_or_concat names).resolve_left hne
    rw [List.concat_eq_append] at hd heq
    rw [nodeRecord_eq ht hd] at heq
    cases heq
    rw [h.get? front last (ht.folderAt? hd).2, itemsAt?, hd]
    rfl
  · intro hget
    obtain ⟨front, last, hnames, rfl⟩ := h.key key record hget
    rw [h.get? front last hnames] at hget
    obtain ⟨items, hitems, rfl⟩ := Option.map_eq_some_iff.1 hget
    obtain ⟨d, hd, rfl⟩ := Option.map_eq_some_iff.1 hitems
    exact ⟨_, ht.mem_nodesOf_children_iff.2 ⟨by simp, hd⟩, nodeRecord_eq ht hd⟩

/-! ## After any insertions -/

variable (calls : List (String × ApiItem))

theorem tidy_fileEach_bySegments : Tidy (fileEach (bySegments calls) { name := "" }) :=
  (Tidy.empty "").fileEach isName_of_mem_bySegments

theorem forest_eq_children :
    (insertAll calls).forest = (fileEach (bySegments calls) { name := "" }).children :=
  (represents_insertAll calls "").forest (tidy_fileEach_bySegments calls)

/-- The folders of the forest hold the operations filed under tags with segments, each where its
segments lead. -/
theorem placedAll_forest :
    (placedAll (insertAll calls).forest).Perm
      ((bySegments calls).filter fun call => call.1 ≠ []) := by
  have hplaced := Collection.placed_fileEach (bySegments calls) { name := "" }
  have htop := Collection.itemsAt?_fileEach (@isName_of_mem_bySegments calls) "" []
  rw [if_pos (.inl rfl)] at htop
  have hitems : (fileEach (bySegments calls) { name := "" }).items =
      ((bySegments calls).filter fun call => call.1 = []).map (·.2) := Option.some.inj htop
  rw [Collection.placed_eq, hitems, List.map_map] at hplaced
  have hhome : ((bySegments calls).filter fun call => call.1 = []).map
      ((fun i => ([], i)) ∘ (·.2)) = (bySegments calls).filter fun call => call.1 = [] := by
    refine (List.map_congr_left fun call hcall => ?_).trans (List.map_id _)
    have hnil : call.1 = [] := by simpa using (List.mem_filter.1 hcall).2
    exact Prod.ext hnil.symm rfl
  -- those without segments are at the top, the others are below it
  have hsplit := List.filter_append_perm (fun call : List String × ApiItem => call.1 = [])
    (bySegments calls)
  rw [hhome] at hplaced
  rw [forest_eq_children, Collection.placedAll_eq]
  refine (List.perm_append_left_iff _).1 (hplaced.trans (hsplit.symm.trans ?_))
  simp

/-- Where the operations under each list of segments come in the same order, the forests are the
same. -/
theorem forest_congr {calls others : List (String × ApiItem)}
    (h : ∀ names, names ≠ [] → itemsUnder names calls = itemsUnder names others) :
    (insertAll calls).forest = (insertAll others).forest := by
  have hway {a b : List (String × ApiItem)}
      (hab : ∀ names, names ≠ [] → itemsUnder names a = itemsUnder names b) {names : List String}
      (hne : names ≠ []) (hcall : ∃ call ∈ a, names <+: segments call.1) :
      ∃ call ∈ b, names <+: segments call.1 := by
    obtain ⟨call, hmem, hway⟩ := hcall
    have hsegments : segments call.1 ≠ [] := fun hnil => hne (List.prefix_nil.1 (hnil ▸ hway))
    have hitem : call.2 ∈ itemsUnder (segments call.1) a :=
      List.mem_map_of_mem (List.mem_filter.2 ⟨hmem, by simp⟩)
    rw [hab _ hsegments] at hitem
    obtain ⟨other, hother, -⟩ := List.mem_map.1 hitem
    obtain ⟨hmem, hsame⟩ := List.mem_filter.1 hother
    exact ⟨other, hmem, of_decide_eq_true hsame ▸ hway⟩
  rw [forest_eq_children, forest_eq_children]
  refine (tidy_fileEach_bySegments calls).children_ext (tidy_fileEach_bySegments others)
    fun names hne => ?_
  rw [itemsAt?_bySegments calls "" hne, itemsAt?_bySegments others "" hne, h names hne]
  exact if_congr ⟨hway h hne, hway (fun q hq => (h q hq).symm) hne⟩ rfl rfl

/-- The forest is the trie of the operations filed under tags. Its folders are those of the records,
one for each, with the operations of the record, under the key that the names from the top make.
Siblings stand in ascending order of their names at every level. No operation is lost or repeated,
and only the order among the operations under the same segments matters. -/
theorem forest_insertAll (calls : List (String × ApiItem)) :
    ((nodesOf (insertAll calls).forest).map nodeRecord).Perm (insertAll calls).records.entries ∧
      Ascending (insertAll calls).forest ∧
      (∀ node ∈ nodesOf (insertAll calls).forest, Ascending node.2.children) ∧
      (placedAll (insertAll calls).forest).Perm
        ((bySegments calls).filter fun call => call.1 ≠ []) ∧
      ∀ others : List (String × ApiItem),
        (∀ names, names ≠ [] → itemsUnder names calls = itemsUnder names others) →
        (insertAll calls).forest = (insertAll others).forest := by
  have htidy := tidy_fileEach_bySegments calls
  refine ⟨(represents_insertAll calls "").nodes_perm htidy, ?_, ?_, placedAll_forest calls,
    fun others h => forest_congr h⟩
  · rw [forest_eq_children]
    exact htidy.ascending_children
  · rw [forest_eq_children]
    rintro ⟨names, d⟩ hmem
    exact (htidy.folderAt? (htidy.mem_nodesOf_children_iff.1 hmem).2).1.ascending_children

end FolderTree

end ApiFolio.Export

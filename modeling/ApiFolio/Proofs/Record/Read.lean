import ApiFolio.Record
import ApiFolio.Proofs.Json.Ordered

/-!
# What readers give

Whatever a reader gives was read from a value inside the value it was given. So if a value has a
property that all values in it have too, then what reading gives from every value with the property
holds of all that is read from it: of the value of a field, of the items of a list, of the values of
a table.
-/

namespace ApiFolio.Record

universe u

variable {α : Type u} {read : Json → Option α} {P : α → Prop}
  {members : List (String × Json)} {name : String}

/-- The value is ordered and no null, so that it is not taken for an absent one. -/
def Solid (v : Json) : Prop := v.Ordered ∧ v ≠ .null

theorem exists_of_mem_mapM {vs : List Json} {xs : List α} (h : vs.mapM read = some xs) {x : α}
    (hx : x ∈ xs) : ∃ v ∈ vs, read v = some x := by
  induction vs generalizing xs with
  | nil =>
    cases h
    cases hx
  | cons v rest ih =>
    rw [List.mapM_cons] at h
    obtain ⟨y, hy, h⟩ := Option.bind_eq_some_iff.1 h
    obtain ⟨ys, hys, h⟩ := Option.bind_eq_some_iff.1 h
    cases h
    rcases List.mem_cons.1 hx with rfl | hx
    · exact ⟨v, List.mem_cons_self, hy⟩
    · obtain ⟨w, hw, hread⟩ := ih hys hx
      exact ⟨w, List.mem_cons_of_mem _ hw, hread⟩

theorem exists_of_mem_traverse {entries : List (String × α)}
    (h : Entries.traverse read members = some entries) {e : String × α} (he : e ∈ entries) :
    ∃ v, (e.1, v) ∈ members ∧ read v = some e.2 := by
  induction members generalizing entries with
  | nil =>
    cases h
    cases he
  | cons m rest ih =>
    obtain ⟨k, v⟩ := m
    obtain ⟨y, hy, h⟩ := Option.bind_eq_some_iff.1 h
    obtain ⟨ys, hys, h⟩ := Option.bind_eq_some_iff.1 h
    cases h
    rcases List.mem_cons.1 he with rfl | he
    · exact ⟨v, List.mem_cons_self, hy⟩
    · obtain ⟨w, hw, hread⟩ := ih hys he
      exact ⟨w, List.mem_cons_of_mem _ hw, hread⟩

/-! ## Members -/

/-- Reading keeps the keys. -/
theorem keys_traverse {entries : List (String × Json)} {out : List (String × α)}
    (h : Entries.traverse read entries = some out) : out.map (·.1) = entries.map (·.1) := by
  induction entries generalizing out with
  | nil =>
    cases h
    rfl
  | cons e rest ih =>
    obtain ⟨x, -, h⟩ := Option.bind_eq_some_iff.1 h
    obtain ⟨xs, hxs, h⟩ := Option.bind_eq_some_iff.1 h
    cases h
    rw [List.map_cons, List.map_cons, ih hxs]

theorem get?_traverse {entries : List (String × Json)} {out : List (String × α)}
    (h : Entries.traverse read entries = some out) {key : String} {v : Json}
    (hv : Entries.get? key entries = some v) :
    ∃ x, read v = some x ∧ Entries.get? key out = some x := by
  induction entries generalizing out with
  | nil => cases hv
  | cons e rest ih =>
    obtain ⟨k, w⟩ := e
    obtain ⟨x, hx, h⟩ := Option.bind_eq_some_iff.1 h
    obtain ⟨xs, hxs, h⟩ := Option.bind_eq_some_iff.1 h
    cases h
    rw [Entries.get?_cons] at hv ⊢
    split at hv
    · rename_i hk
      subst hk
      cases hv
      exact ⟨x, hx, if_pos rfl⟩
    · rename_i hk
      rw [if_neg hk]
      exact ih hxs hv

/-- What stands under a name in a table that was read is what was read of the member of that
name. -/
theorem get?_readDict? {members : List (String × Json)} (hs : Entries.Sorted members)
    {table : Dict α} (h : readDict? read (.obj members) = some table) {key : String} {v : Json}
    (hv : Entries.get? key members = some v) : ∃ x, read v = some x ∧ table.get? key = some x := by
  obtain ⟨out, hout, rfl⟩ := Option.map_eq_some_iff.1 h
  obtain ⟨x, hx, hget⟩ := get?_traverse hout hv
  refine ⟨x, hx, ?_⟩
  show Entries.get? key (Entries.sort out) = some x
  rw [Entries.sort_of_sorted (hs.of_keys (keys_traverse hout)), hget]

section

variable {V : Json → Prop}

theorem zip?_all {layout : Layout} {vs : List Json} (hvs : ∀ v ∈ vs, V v)
    (h : zip? layout vs = some members) : ∀ m ∈ members, V m.2 := by
  induction layout generalizing vs members with
  | nil =>
    cases vs with
    | nil =>
      cases h
      simp
    | cons v rest => cases h
  | cons field fields ih =>
    cases vs with
    | nil =>
      have hempty : members = [] := by
        unfold zip? at h
        split at h
        · exact (Option.some.inj h).symm
        · cases h
      subst hempty
      simp
    | cons v rest =>
      obtain ⟨ms, hms, rfl⟩ := Option.map_eq_some_iff.1 h
      have hrest := ih (fun w hw => hvs w (List.mem_cons_of_mem _ hw)) hms
      intro m hm
      rcases List.mem_cons.1 hm with rfl | hm
      · exact hvs v List.mem_cons_self
      · exact hrest m hm

/-- What holds of a value that writes a record holds of the values of its members. -/
theorem members?_all [Json.Hereditary V] {layout : Layout} {v : Json} (hv : V v)
    (h : members? layout v = some members) : ∀ m ∈ members, V m.2 := by
  cases v with
  | obj ms =>
    cases h
    exact Json.Hereditary.members hv
  | arr items => exact zip?_all (Json.Hereditary.items hv) h
  | _ => cases h

/-! ## Fields -/

theorem exists_of_optional? {x : α} (h : optional? members name read = some (some x)) :
    ∃ v, Entries.get? name members = some v ∧ read v = some x := by
  unfold optional? at h
  split at h
  · cases h
  · cases h
  · rename_i v _ hv
    obtain ⟨y, hy, heq⟩ := Option.map_eq_some_iff.1 h
    obtain rfl := Option.some.inj heq
    exact ⟨v, hv, hy⟩

theorem optional?_all (hmembers : ∀ m ∈ members, V m.2)
    (hread : ∀ v y, V v → read v = some y → P y) {x : Option α}
    (h : optional? members name read = some x) : ∀ y ∈ x, P y := by
  rintro y rfl
  obtain ⟨v, hv, hy⟩ := exists_of_optional? h
  exact hread v y (hmembers _ (Entries.mem_of_get? hv)) hy

theorem withDefault?_all (hmembers : ∀ m ∈ members, V m.2)
    (hread : ∀ v y, V v → read v = some y → P y) {default x : α} (hdefault : P default)
    (h : withDefault? members name default read = some x) : P x := by
  unfold withDefault? at h
  split at h
  · cases h
    exact hdefault
  · rename_i v hv
    exact hread v x (hmembers _ (Entries.mem_of_get? hv)) h

theorem readList?_all [Json.Hereditary V] (hread : ∀ v y, V v → read v = some y → P y) {v : Json}
    (hv : V v) {xs : List α} (h : readList? read v = some xs) : ∀ x ∈ xs, P x := by
  cases v with
  | arr items =>
    intro x hx
    obtain ⟨w, hw, hx⟩ := exists_of_mem_mapM h hx
    exact hread w x (Json.Hereditary.items hv w hw) hx
  | _ => cases h

theorem list?_all [Json.Hereditary V] (hmembers : ∀ m ∈ members, V m.2)
    (hread : ∀ v y, V v → read v = some y → P y) {xs : List α}
    (h : list? members name read = some xs) : ∀ x ∈ xs, P x :=
  @withDefault?_all _ (readList? read) (fun xs => ∀ x ∈ xs, P x) _ _ V hmembers
    (fun _ _ hv hxs => readList?_all hread hv hxs) [] xs (by simp) h

theorem readDict?_all [Json.Hereditary V] (hread : ∀ v y, V v → read v = some y → P y) {v : Json}
    (hv : V v) {table : Dict α} (h : readDict? read v = some table) :
    ∀ e ∈ table.entries, P e.2 := by
  cases v with
  | obj ms =>
    obtain ⟨entries, hentries, rfl⟩ := Option.map_eq_some_iff.1 h
    intro e he
    obtain ⟨w, hw, hx⟩ := exists_of_mem_traverse hentries (Dict.mem_of_mem_ofList he)
    exact hread w e.2 (Json.Hereditary.members hv _ hw) hx
  | _ => cases h

theorem dict?_all [Json.Hereditary V] (hmembers : ∀ m ∈ members, V m.2)
    (hread : ∀ v y, V v → read v = some y → P y) {table : Dict α}
    (h : dict? members name read = some table) : ∀ e ∈ table.entries, P e.2 :=
  @withDefault?_all _ (readDict? read) (fun table => ∀ e ∈ table.entries, P e.2) _ _ V hmembers
    (fun _ _ hv ht => readDict?_all hread hv ht) ∅ table (fun _ he => by cases he) h

/-- Each value of a table was read from the member of its key in the member of the table. -/
theorem exists_of_mem_dict? (ho : ∀ m ∈ members, m.2.Ordered) {table : Dict α}
    (h : dict? members name read = some table) {e : String × α} (he : e ∈ table.entries) :
    ∃ v w, Entries.get? name members = some v ∧ v.get? e.1 = some w ∧ read w = some e.2 := by
  unfold dict? withDefault? at h
  split at h
  · cases h
    cases he
  · rename_i v hv
    cases v with
    | obj ms =>
      obtain ⟨entries, hentries, rfl⟩ := Option.map_eq_some_iff.1 h
      obtain ⟨w, hw, hx⟩ := exists_of_mem_traverse hentries (Dict.mem_of_mem_ofList he)
      have hsorted : Entries.Sorted ms := (ho _ (Entries.mem_of_get? hv)).1
      exact ⟨.obj ms, w, hv, Entries.get?_of_mem hsorted hw, hx⟩
    | _ => cases h

theorem value_all (hmembers : ∀ m ∈ members, V m.2) :
    ∀ v ∈ value members name, V v ∧ v ≠ .null := by
  intro v hv
  unfold value at hv
  split at hv
  · cases hv
  · cases hv
  · rename_i w hnull hw
    cases hv
    exact ⟨hmembers _ (Entries.mem_of_get? hw), hnull⟩

end

/-- The unknown members are those that have no field in the layout. -/
theorem mem_unknown {layout : Layout} {e : String × Json}
    (h : e ∈ (unknown layout members).entries) :
    e ∈ members ∧ Entries.get? e.1 layout = none := by
  obtain ⟨hmem, hnone⟩ := List.mem_filter.1 (Dict.mem_of_mem_ofList h)
  exact ⟨hmem, by simpa using hnone⟩

/-- No member that has a field in the layout is among the unknown ones. -/
theorem get?_unknown_eq_none {layout : Layout} {name : String}
    (hname : Entries.get? name layout ≠ none) : (unknown layout members).get? name = none := by
  cases hget : (unknown layout members).get? name with
  | none => rfl
  | some v => exact absurd (mem_unknown (Entries.mem_of_get? hget)).2 hname

/-- Of an ordered record the members of other names are looked up among the unknown ones. -/
theorem get?_unknown (hs : Entries.Sorted members) (layout : Layout) (name : String) :
    (unknown layout members).get? name =
      if (Entries.get? name layout).isNone then Entries.get? name members else none := by
  show Entries.get? name (Entries.sort _) = _
  rw [Entries.sort_of_sorted (Entries.sorted_filter _ hs)]
  exact Entries.get?_filter (fun key => (Entries.get? key layout).isNone) name members

end ApiFolio.Record

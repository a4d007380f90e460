import Mathlib.Data.List.Nodup
import Mathlib.Data.List.Pairwise
import Mathlib.Data.Set.Card
import ApiFolio.Proofs.Dict.Lookup

/-!
# Lists of what stands at keys

A list may hold what a function gives at some keys, once for each key (`Lists`), as the values of a
table do for its look-up (`Dict.lists_values`). Such lists are put together as their sets of keys
are, and a value stands in one as often as there are keys at which it is given
(`Lists.count_eq_encard`).
-/

namespace ApiFolio

variable {α β γ δ : Type}

/-- A list that is put together from what a function gives for its elements, when it gives nothing
for all but one of them. -/
theorem flatMap_eq_of_unique {l : List α} (hl : l.Nodup) {x : α} (hx : x ∈ l)
    {f : α → List β} (hf : ∀ y ∈ l, y ≠ x → f y = []) : l.flatMap f = f x := by
  induction l with
  | nil => cases hx
  | cons z rest ih =>
    obtain ⟨hz, hrest⟩ := List.nodup_cons.1 hl
    rw [List.flatMap_cons]
    rcases List.mem_cons.1 hx with rfl | hx
    · have hnil : rest.flatMap f = [] := List.flatMap_eq_nil_iff.2 fun y hy =>
        hf y (List.mem_cons_of_mem _ hy) fun heq => hz (heq ▸ hy)
      rw [hnil, List.append_nil]
    · have hnil : f z = [] := hf z List.mem_cons_self fun heq => hz (heq ▸ hx)
      rw [hnil, List.nil_append]
      exact ih hrest hx fun y hy => hf y (List.mem_cons_of_mem _ hy)

/-- A list holds what a function gives at the keys of a set, once for each key where it gives
something. -/
def Lists (keys : Set α) (f : α → Option β) (xs : List β) : Prop :=
  ∃ ks : List α, ks.Nodup ∧ (∀ k, k ∈ ks ↔ k ∈ keys ∧ (f k).isSome) ∧ ks.map f = xs.map some

namespace Lists

variable {keys more : Set α} {f : α → Option β} {xs ys : List β}

theorem nil : Lists keys (fun _ => none : α → Option β) [] :=
  ⟨[], List.nodup_nil, by simp, rfl⟩

/-- What is given at one key is a list. -/
theorem single {k : α} : Lists {k} f (f k).toList := by
  cases hk : f k with
  | none =>
    refine ⟨[], List.nodup_nil, fun l => ?_, rfl⟩
    simp +contextual [hk]
  | some x =>
    refine ⟨[k], List.nodup_singleton k, fun l => ?_, by simp [hk]⟩
    simp +contextual [hk]

/-- A list for a set of keys that has all keys is one for all keys. -/
theorem of_forall (h : Lists keys f xs) (hkeys : ∀ k, k ∈ keys) : Lists Set.univ f xs := by
  rwa [Set.eq_univ_of_forall hkeys] at h

/-- The lists for two sets of keys without a common one make the list for both. -/
theorem append (hxs : Lists keys f xs) (hdisjoint : ∀ k ∈ more, k ∉ keys) (hys : Lists more f ys) :
    Lists (keys ∪ more) f (xs ++ ys) := by
  obtain ⟨ks, hks, hkmem, hkmap⟩ := hxs
  obtain ⟨ls, hls, hlmem, hlmap⟩ := hys
  refine ⟨ks ++ ls, ?_, fun k => ?_, by rw [List.map_append, hkmap, hlmap, List.map_append]⟩
  · refine List.nodup_append.2 ⟨hks, hls, fun k hk l hl heq => ?_⟩
    subst heq
    exact hdisjoint k ((hlmem k).1 hl).1 ((hkmem k).1 hk).1
  · rw [List.mem_append, hkmem, hlmem, Set.mem_union, or_and_right]

/-- Keys may be renamed. -/
theorem image {e : γ → α} (he : Function.Injective e) (h : Lists Set.univ (fun c => f (e c)) xs) :
    Lists (Set.range e) f xs := by
  obtain ⟨ks, hks, hmem, hmap⟩ := h
  refine ⟨ks.map e, hks.map he, fun k => ?_, by rw [List.map_map]; exact hmap⟩
  rw [List.mem_map]
  constructor
  · rintro ⟨c, hc, rfl⟩
    exact ⟨⟨c, rfl⟩, ((hmem c).1 hc).2⟩
  · rintro ⟨⟨c, rfl⟩, hsome⟩
    exact ⟨c, (hmem c).2 ⟨trivial, hsome⟩, rfl⟩

theorem map_filter_isSome (f : α → Option β) (ks : List α) :
    (ks.filter fun k => (f k).isSome).map f = (ks.filterMap f).map some := by
  induction ks with
  | nil => rfl
  | cons k ks ih => cases hk : f k <;> simp [hk, ih]

/-- What is taken from the values is listed at the same keys. -/
theorem filterMap (g : β → Option γ) (h : Lists keys f xs) :
    Lists keys (fun k => (f k).bind g) (xs.filterMap g) := by
  obtain ⟨ks, hks, hmem, hmap⟩ := h
  refine ⟨ks.filter fun k => ((f k).bind g).isSome, hks.filter _, fun k => ?_, ?_⟩
  · rw [List.mem_filter, hmem, and_assoc]
    refine and_congr_right fun _ => and_iff_right_of_imp fun hsome => ?_
    exact Option.isSome_of_isSome_bind hsome
  · calc (ks.filter fun k => ((f k).bind g).isSome).map (fun k => (f k).bind g)
        = (ks.filterMap fun k => (f k).bind g).map some := map_filter_isSome _ ks
      _ = ((ks.map f).filterMap fun o => o.bind g).map some := by
          rw [List.filterMap_map]
          rfl
      _ = (xs.filterMap g).map some := by
          rw [hmap, List.filterMap_map]
          rfl

/-- Where every value has a list of its own, with keys of its own, the lists together are the list
for the pairs of keys. -/
theorem bind {g : β → γ → Option δ} {zs : β → List δ} (h : Lists Set.univ f xs)
    (hg : ∀ x ∈ xs, Lists Set.univ (g x) (zs x)) :
    Lists Set.univ (fun p : α × γ => (f p.1).bind fun x => g x p.2) (xs.flatMap zs) := by
  obtain ⟨ks, hks, hmem, hmap⟩ := h
  choose! ls hls hlmem hlmap using hg
  have hvalue {k : α} {x : β} (hk : f k = some x) : x ∈ xs := by
    have hin : f k ∈ ks.map f := List.mem_map_of_mem ((hmem k).2 ⟨trivial, by rw [hk]; rfl⟩)
    rw [hmap, hk] at hin
    simpa using hin
  -- the keys of the pairs: each key of `f` with all keys of the value that it has
  refine ⟨ks.flatMap fun k => (f k).toList.flatMap fun x => (ls x).map fun l => (k, l), ?_, ?_, ?_⟩
  · refine List.nodup_flatMap.2 ⟨fun k hk => ?_, hks.imp fun {k l} hne p hp hq => ?_⟩
    · cases hfk : f k with
      | none => exact List.nodup_nil
      | some x =>
        simp only [Option.toList_some, List.flatMap_singleton]
        exact (hls x (hvalue hfk)).map fun a b heq => (Prod.mk.inj heq).2
    · simp only [List.mem_flatMap, List.mem_map] at hp hq
      obtain ⟨x, -, c, -, rfl⟩ := hp
      obtain ⟨y, -, d, -, heq⟩ := hq
      exact hne (Prod.mk.inj heq).1.symm
  · rintro ⟨k, l⟩
    simp only [List.mem_flatMap, Option.mem_toList, List.mem_map, Prod.mk.injEq, Set.mem_univ,
      true_and]
    constructor
    · rintro ⟨k', hk', x, hx, l', hl', rfl, rfl⟩
      rw [Option.mem_def.1 hx, Option.bind_some]
      exact ((hlmem x (hvalue hx) l').1 hl').2
    · intro hsome
      obtain ⟨x, hx⟩ := Option.isSome_iff_exists.1 (Option.isSome_of_isSome_bind hsome)
      rw [hx, Option.bind_some] at hsome
      exact ⟨k, (hmem k).2 ⟨trivial, by rw [hx]; rfl⟩, x, hx, l,
        (hlmem x (hvalue hx) l).2 ⟨trivial, hsome⟩, rfl, rfl⟩
  · calc (ks.flatMap fun k => (f k).toList.flatMap fun x => (ls x).map fun l => (k, l)).map
          (fun p => (f p.1).bind fun x => g x p.2)
        = ks.flatMap fun k => (f k).toList.flatMap fun x => (ls x).map (g x) := by
          rw [List.map_flatMap]
          refine List.flatMap_congr fun k _ => ?_
          cases hk : f k with
          | none => rfl
          | some x => simp [hk, Function.comp_def]
      _ = (ks.map f).flatMap fun o => o.toList.flatMap fun x => (ls x).map (g x) := by
          rw [List.flatMap_map]
      _ = xs.flatMap fun x => (ls x).map (g x) := by
          rw [hmap, List.flatMap_map]
          simp
      _ = (xs.flatMap zs).map some := by
          rw [List.map_flatMap]
          exact List.flatMap_congr fun x hx => hlmap x hx

/-- A value stands in the list as often as there are keys at which it is given. -/
theorem count_eq_encard [DecidableEq β] (h : Lists Set.univ f xs) (x : β) :
    (xs.count x : ℕ∞) = {k | f k = some x}.encard := by
  classical
  obtain ⟨ks, hks, hmem, hmap⟩ := h
  have hset : {k | f k = some x} = ↑(ks.filter fun k => f k = some x).toFinset := by
    ext k
    simp only [Set.mem_ofPred_eq, List.coe_toFinset, List.mem_filter, decide_eq_true_eq]
    exact ⟨fun hk => ⟨(hmem k).2 ⟨trivial, by rw [hk]; rfl⟩, hk⟩, fun hk => hk.2⟩
  have hcount : xs.count x = (ks.filter fun k => f k = some x).length := by
    rw [← List.count_map_of_injective xs some (Option.some_injective β), ← hmap,
      List.count_eq_countP, List.countP_map, List.countP_eq_length_filter]
    simp [Function.comp_def, beq_eq_decide]
  rw [hset, Set.encard_coe_eq_coe_finsetCard, List.toFinset_card_of_nodup (hks.filter _), hcount]

/-- Of the values with a property each stands as often as there are keys at which it is given. -/
theorem count_filter_eq_encard [DecidableEq β] (h : Lists Set.univ f xs) (p : β → Bool) (x : β) :
    ((xs.filter p).count x : ℕ∞) = {k | f k = some x ∧ p x = true}.encard := by
  cases hp : p x with
  | false =>
    have hnone : x ∉ xs.filter p := fun hx => by
      rw [(List.mem_filter.1 hx).2] at hp
      cases hp
    simp [List.count_eq_zero_of_not_mem hnone]
  | true =>
    rw [List.count_filter hp, h.count_eq_encard]
    simp

end Lists

theorem lists_getElem? (xs : List β) : Lists Set.univ (fun n : Nat => xs[n]?) xs := by
  refine ⟨List.range xs.length, List.nodup_range, fun n => by simp, ?_⟩
  refine List.ext_getElem? fun n => ?_
  by_cases hn : n < xs.length <;> simp [hn]

/-- The values of a table are listed by its look-up. -/
theorem Dict.lists_values (table : Dict β) : Lists Set.univ table.get? table.values := by
  have hkeys : table.keys.Pairwise (· < ·) := List.pairwise_map.2 table.sorted
  refine ⟨table.keys, hkeys.imp fun {a b} hlt heq => ?_, fun key => ?_, ?_⟩
  · exact String.lt_irrefl _ (heq ▸ hlt)
  · rw [Option.isSome_iff_exists]
    constructor
    · intro h
      obtain ⟨e, he, rfl⟩ := List.mem_map.1 h
      exact ⟨trivial, e.2, (table.mem_entries).1 he⟩
    · rintro ⟨-, x, hx⟩
      exact List.mem_map.2 ⟨(key, x), table.mem_entries.2 hx, rfl⟩
  · unfold keys values
    rw [List.map_map, List.map_map]
    exact List.map_congr_left fun e he => table.mem_entries.1 he

end ApiFolio

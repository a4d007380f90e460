import ApiFolio.Proofs.OpenApi.Aliases
import Mathlib.Data.Finset.Card

/-!
# Walks along recorded aliases

A pointer is recorded as what its last record says, and a walk goes from pointer to pointer along
this map. Where the walk leaves the recorded pointers is where a pointer leads after all chains
have been followed, and it leads nowhere if the walk never leaves them (`target?_recordAll`). There
are only finitely many recorded pointers, so a walk that stays among them comes to one of them a
second time (`exists_met_twice`); one that does so can never leave, because the chain from the
pointer that is met twice would have two lengths.
-/

namespace ApiFolio.OpenApi.Aliases

/-- The aliases after a list of records, made one after the other. -/
def recordAll (calls : List (String × String)) : Aliases :=
  calls.foldl (fun aliases call => aliases.record call.1 call.2) {}

/-- What a pointer is recorded as: the target of its last record. -/
def recorded? (calls : List (String × String)) (pointer : String) : Option String :=
  Entries.last? pointer calls

/-- Where the walk from a pointer stands after so many steps, if it has not left the recorded
pointers before. -/
def walk? (calls : List (String × String)) : Nat → String → Option String
  | 0, pointer => some pointer
  | steps + 1, pointer => (recorded? calls pointer).bind (walk? calls steps)

/-- The walk from a pointer comes to `stop`, which is not recorded. -/
def Leaves (calls : List (String × String)) (pointer stop : String) : Prop :=
  ∃ steps, walk? calls steps pointer = some stop ∧ recorded? calls stop = none

/-- The walk from a pointer stands at a recorded pointer after every number of steps. -/
def Stays (calls : List (String × String)) (pointer : String) : Prop :=
  ∀ steps, ∃ key, walk? calls steps pointer = some key ∧ (recorded? calls key).isSome

/-- The walk from a pointer comes to the same pointer after `i` and after `j` steps. -/
def MeetsTwice (calls : List (String × String)) (pointer : String) (i j : Nat) : Prop :=
  ∃ key, walk? calls i pointer = some key ∧ walk? calls j pointer = some key

variable {calls : List (String × String)} {pointer stop : String} {steps i j : Nat}

theorem get?_recordAll (calls : List (String × String)) (pointer : String) :
    (recordAll calls).targets.get? pointer = recorded? calls pointer := by
  suffices h : ∀ aliases : Aliases,
      (calls.foldl (fun a call => a.record call.1 call.2) aliases).targets.get? pointer =
        (recorded? calls pointer).or (aliases.targets.get? pointer) by
    exact (h {}).trans (Option.or_none)
  induction calls with
  | nil => exact fun aliases => rfl
  | cons call rest ih =>
    intro aliases
    rw [List.foldl_cons, ih]
    show (Entries.last? pointer rest).or ((aliases.targets.insert call.1 call.2).get? pointer) =
      (Entries.last? pointer (call :: rest)).or _
    rw [Dict.get?_insert, Entries.last?_cons, Option.or_assoc]
    by_cases h : call.1 = pointer <;> simp [h]

/-! ## Steps of a walk -/

theorem walk?_add (calls : List (String × String)) (i j : Nat) (pointer : String) :
    walk? calls (i + j) pointer = (walk? calls i pointer).bind (walk? calls j) := by
  induction i generalizing pointer with
  | zero => rw [Nat.zero_add, walk?, Option.bind_some]
  | succ i ih =>
    rw [Nat.succ_add, walk?, walk?, Option.bind_assoc]
    exact congrArg _ (funext ih)

/-- One more step goes to what the pointer is recorded as. -/
theorem walk?_succ (calls : List (String × String)) (steps : Nat) (pointer : String) :
    walk? calls (steps + 1) pointer = (walk? calls steps pointer).bind (recorded? calls) := by
  rw [walk?_add]
  congr 1
  funext key
  show (recorded? calls key).bind some = recorded? calls key
  cases recorded? calls key <;> rfl

theorem endsAfter_recordAll_iff :
    EndsAfter (recordAll calls) steps pointer stop ↔
      walk? calls steps pointer = some stop ∧ recorded? calls stop = none := by
  induction steps generalizing pointer with
  | zero =>
    constructor
    · rintro ⟨h⟩
      rw [get?_recordAll] at h
      exact ⟨rfl, h⟩
    · rintro ⟨hwalk, h⟩
      cases hwalk
      exact .here ((get?_recordAll calls _).trans h)
  | succ steps ih =>
    rw [walk?, Option.bind_eq_some_iff]
    constructor
    · intro h
      cases h with
      | next hsome rest =>
        obtain ⟨hwalk, hstop⟩ := ih.1 rest
        exact ⟨⟨_, (get?_recordAll calls pointer).symm.trans hsome, hwalk⟩, hstop⟩
    · rintro ⟨⟨target, hsome, hwalk⟩, hstop⟩
      exact .next ((get?_recordAll calls pointer).trans hsome) (ih.2 ⟨hwalk, hstop⟩)

/-- A walk that leaves the recorded pointers has at most as many steps as there are of them. -/
theorem le_size_of_leaves (hwalk : walk? calls steps pointer = some stop)
    (hstop : recorded? calls stop = none) : steps ≤ (recordAll calls).size :=
  (endsAfter_recordAll_iff.2 ⟨hwalk, hstop⟩).le_size

/-- Before a walk leaves the recorded pointers, the chain from each pointer on it is so much
shorter. -/
theorem endsAfter_rest (hwalk : walk? calls steps pointer = some stop)
    (hstop : recorded? calls stop = none) {key : String}
    (hkey : walk? calls i pointer = some key) :
    i ≤ steps ∧ EndsAfter (recordAll calls) (steps - i) key stop := by
  have hle : i ≤ steps := by
    by_contra hlt
    obtain ⟨more, rfl⟩ : ∃ more, i = steps + (more + 1) := ⟨i - steps - 1, by omega⟩
    rw [walk?_add, hwalk, Option.bind_some, walk?, hstop] at hkey
    cases hkey
  refine ⟨hle, endsAfter_recordAll_iff.2 ⟨?_, hstop⟩⟩
  rwa [← Nat.add_sub_cancel' hle, walk?_add, hkey, Option.bind_some] at hwalk

/-! ## Walks that stay -/

theorem stays_of_not_leaves (h : ¬∃ stop, Leaves calls pointer stop) : Stays calls pointer := by
  intro steps
  have hrecorded : ∀ {n key}, walk? calls n pointer = some key → (recorded? calls key).isSome := by
    intro n key hkey
    rw [Option.isSome_iff_ne_none]
    exact fun hnone => h ⟨key, n, hkey, hnone⟩
  induction steps with
  | zero => exact ⟨pointer, rfl, hrecorded (n := 0) rfl⟩
  | succ steps ih =>
    obtain ⟨key, hkey, hsome⟩ := ih
    obtain ⟨target, htarget⟩ := Option.isSome_iff_exists.1 hsome
    have hnext : walk? calls (steps + 1) pointer = some target := by
      rw [walk?_succ, hkey, Option.bind_some, htarget]
    exact ⟨target, hnext, hrecorded hnext⟩

/-- Of as many pointers as there are steps up to the number of recorded ones, and one more, two
are the same. -/
theorem exists_met_twice (h : Stays calls pointer) :
    ∃ i j, i < j ∧ j ≤ (recordAll calls).size ∧ MeetsTwice calls pointer i j := by
  have hmaps : ∀ n ∈ Finset.range ((recordAll calls).size + 1),
      walk? calls n pointer ∈ ((recordAll calls).targets.keys.map some).toFinset := by
    intro n _
    obtain ⟨key, hkey, hsome⟩ := h n
    obtain ⟨target, htarget⟩ := Option.isSome_iff_exists.1 hsome
    rw [← get?_recordAll] at htarget
    rw [hkey, List.mem_toFinset]
    exact List.mem_map_of_mem (List.mem_map_of_mem (Entries.mem_of_get? htarget))
  have hcard : ((recordAll calls).targets.keys.map some).toFinset.card <
      (Finset.range ((recordAll calls).size + 1)).card := by
    have hlength : ((recordAll calls).targets.keys.map some).length = (recordAll calls).size := by
      rw [List.length_map]
      exact List.length_map _
    have hle := List.toFinset_card_le ((recordAll calls).targets.keys.map some)
    rw [Finset.card_range]
    omega
  obtain ⟨i, hi, j, hj, hne, heq⟩ :=
    Finset.exists_ne_map_eq_of_card_lt_of_maps_to hcard hmaps
  rw [Finset.mem_range] at hi hj
  obtain ⟨key, hkey, -⟩ := h i
  rcases Nat.lt_or_gt_of_ne hne with hlt | hlt
  · exact ⟨i, j, hlt, by omega, key, hkey, heq ▸ hkey⟩
  · exact ⟨j, i, hlt, by omega, key, heq ▸ hkey, hkey⟩

theorem MeetsTwice.not_leaves (h : MeetsTwice calls pointer i j) (hlt : i < j) :
    ¬∃ stop, Leaves calls pointer stop := by
  rintro ⟨stop, steps, hwalk, hstop⟩
  obtain ⟨key, hi, hj⟩ := h
  obtain ⟨hile, hirest⟩ := endsAfter_rest hwalk hstop hi
  obtain ⟨hjle, hjrest⟩ := endsAfter_rest hwalk hstop hj
  have hsame : steps - i = steps - j := (hirest.unique hjrest).1
  omega

theorem stays_iff_not_leaves : Stays calls pointer ↔ ¬∃ stop, Leaves calls pointer stop := by
  constructor
  · intro h
    obtain ⟨i, j, hlt, -, htwice⟩ := exists_met_twice h
    exact htwice.not_leaves hlt
  · exact stays_of_not_leaves

theorem stays_iff_met_twice :
    Stays calls pointer ↔
      ∃ i j, i < j ∧ j ≤ (recordAll calls).size ∧ MeetsTwice calls pointer i j := by
  constructor
  · exact exists_met_twice
  · rintro ⟨i, j, hlt, -, htwice⟩
    exact stays_of_not_leaves (htwice.not_leaves hlt)

/-! ## Where a pointer leads -/

theorem target?_eq_some_iff_leaves :
    (recordAll calls).resolve.target? pointer = some stop ↔ Leaves calls pointer stop := by
  rw [target?_resolve_eq_some_iff]
  exact exists_congr fun steps => endsAfter_recordAll_iff

theorem target?_eq_none_iff_stays :
    (recordAll calls).resolve.target? pointer = none ↔ Stays calls pointer := by
  rw [stays_iff_not_leaves, Option.eq_none_iff_forall_ne_some, not_exists]
  exact forall_congr' fun stop => not_congr target?_eq_some_iff_leaves

/-- Allowing more steps than there are recorded pointers changes nothing. -/
theorem follow_eq_target? {fuel : Nat} (h : (recordAll calls).size < fuel) :
    (recordAll calls).follow fuel pointer = (recordAll calls).resolve.target? pointer := by
  refine Option.ext fun stop => ?_
  rw [follow_eq_some_iff, target?_resolve_eq_some_iff]
  constructor
  · rintro ⟨steps, -, hends⟩
    exact ⟨steps, hends⟩
  · rintro ⟨steps, hends⟩
    exact ⟨steps, Nat.lt_of_le_of_lt hends.le_size h, hends⟩

/-- After any records, a pointer leads to the pointer at which the walk from it leaves the recorded
ones, and nowhere exactly when it never leaves them, which shows within as many steps as there are
recorded pointers: by then it has left them, or has met one twice. What a pointer leads to leads to
itself. -/
theorem target?_recordAll (calls : List (String × String)) (pointer : String) :
    (∀ stop, (recordAll calls).resolve.target? pointer = some stop ↔
      ∃ steps, walk? calls steps pointer = some stop ∧ recorded? calls stop = none) ∧
    ((recordAll calls).resolve.target? pointer = none ↔
      ∀ steps, ∃ key, walk? calls steps pointer = some key ∧ (recorded? calls key).isSome) ∧
    ((recordAll calls).resolve.target? pointer = none ↔
      ∃ i j, i < j ∧ j ≤ (recordAll calls).size ∧ MeetsTwice calls pointer i j) ∧
    (∀ steps stop, walk? calls steps pointer = some stop → recorded? calls stop = none →
      steps ≤ (recordAll calls).size) ∧
    (∀ fuel, (recordAll calls).size < fuel →
      (recordAll calls).follow fuel pointer = (recordAll calls).resolve.target? pointer) ∧
    ∀ stop, (recordAll calls).resolve.target? pointer = some stop →
      (recordAll calls).resolve.target? stop = some stop := by
  refine ⟨fun stop => target?_eq_some_iff_leaves, target?_eq_none_iff_stays,
    target?_eq_none_iff_stays.trans stays_iff_met_twice, fun steps stop => le_size_of_leaves,
    fun fuel => follow_eq_target?, fun stop h => ?_⟩
  obtain ⟨steps, -, hstop⟩ := target?_eq_some_iff_leaves.1 h
  exact target?_eq_some_iff_leaves.2 ⟨0, rfl, hstop⟩

example : (recordAll [("Entry", "A"), ("A", "C"), ("B", "A"), ("A", "B")]).resolve.target? "Entry" =
    none := by decide

end ApiFolio.OpenApi.Aliases

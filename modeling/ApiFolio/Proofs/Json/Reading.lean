import ApiFolio.Source
import ApiFolio.Proofs.Number.Reading
import ApiFolio.Proofs.Yaml.InRange

/-!
# What readers give

Every value that is read from a text, of either format, is ordered and has its numbers in range
(`InputFormat.given_of_read`). The JSON reader puts each member into its place as it comes; the
invariant is that all values on its stack are like this. A YAML document is put in order when it
becomes JSON.
-/

namespace ApiFolio

theorem foldlM_preserves {α β : Type} {step : β → α → Option β} {P : β → Prop} {Q : α → Prop}
    (hstep : ∀ s a s', P s → Q a → step s a = some s' → P s') {xs : List α}
    (hxs : ∀ a ∈ xs, Q a) {s s' : β} (hs : P s) (h : xs.foldlM step s = some s') : P s' := by
  induction xs generalizing s with
  | nil =>
    cases h
    exact hs
  | cons a rest ih =>
    rw [List.foldlM_cons] at h
    obtain ⟨next, hnext, h⟩ := Option.bind_eq_some_iff.1 h
    exact ih (fun b hb => hxs b (List.mem_cons_of_mem _ hb))
      (hstep s a next hs (hxs a List.mem_cons_self) hnext) h

namespace Json

/-! ## Tokens -/

namespace Token

/-- The value of a token, if it has one, is what readers give. -/
def Given : Token → Prop
  | atom v => v.Given
  | _ => True

theorem given_of_ofWord? {cs : List Char} {v : Json} (h : ofWord? cs = some v) : v.Given := by
  unfold ofWord? at h
  split at h
  · cases h
    exact given_null
  · split at h
    · cases h
      exact given_bool true
    · split at h
      · cases h
        exact given_bool false
      · obtain ⟨n, hn, rfl⟩ := Option.map_eq_some_iff.1 h
        exact given_num (Number.inRange_of_read? hn)

theorem given_of_ofPunctuation? {c : Char} {t : Token} (h : ofPunctuation? c = some t) :
    t.Given := by
  unfold ofPunctuation? at h
  repeat'
    split at h
    · cases h
      trivial
  cases h

theorem given_of_start? {found : List Token} (hfound : ∀ t ∈ found, t.Given) {c : Char}
    {s : Scanner} (h : start? found c = some s) : ∀ t ∈ s.found, t.Given := by
  unfold start? at h
  split at h
  · cases h
    exact hfound
  · split at h
    · cases h
      exact hfound
    · split at h
      · cases h
        exact hfound
      · obtain ⟨t, ht, rfl⟩ := Option.map_eq_some_iff.1 h
        exact List.forall_mem_cons.2 ⟨given_of_ofPunctuation? ht, hfound⟩

theorem found_of_codeUnit? {found : List Token} {seen : List Char} {high : Option Nat} {unit : Nat}
    {s : Scanner} (h : codeUnit? found seen high unit = some s) : s.found = found := by
  unfold codeUnit? at h
  split at h
  · split at h <;> cases h
    rfl
  · split at h
    · cases h
      rfl
    · split at h <;> cases h
      rfl

theorem given_of_step? (s : Scanner) (c : Char) (s' : Scanner) (hs : ∀ t ∈ s.found, t.Given)
    (_ : True) (h : step? s c = some s') : ∀ t ∈ s'.found, t.Given := by
  unfold step? at h
  split at h
  · exact given_of_start? hs h
  · split at h
    · cases h
      exact hs
    · obtain ⟨v, hv, h⟩ := Option.bind_eq_some_iff.1 h
      have hatom : (atom v).Given := given_of_ofWord? hv
      exact given_of_start? (List.forall_mem_cons.2 ⟨hatom, hs⟩) h
  · split at h
    · cases h
      exact List.forall_mem_cons.2 ⟨trivial, hs⟩
    · split at h
      · cases h
        exact hs
      · split at h <;> cases h
        exact hs
  · split at h
    · cases h
      exact hs
    · obtain ⟨e, -, rfl⟩ := Option.map_eq_some_iff.1 h
      exact hs
  · obtain ⟨d, -, h⟩ := Option.bind_eq_some_iff.1 h
    split at h
    · rw [found_of_codeUnit? h]
      exact hs
    · cases h
      exact hs
  · split at h <;> cases h
    exact hs
  · split at h <;> cases h
    exact hs

theorem given_of_scan? {cs : List Char} {ts : List Token} (h : scan? cs = some ts) :
    ∀ t ∈ ts, t.Given := by
  obtain ⟨s, hs, h⟩ := Option.bind_eq_some_iff.1 h
  have hfound : ∀ t ∈ s.found, t.Given :=
    foldlM_preserves given_of_step? (fun _ _ => trivial) (by simp) hs
  unfold finish? at h
  split at h
  · cases h
    simpa using hfound
  · obtain ⟨v, hv, rfl⟩ := Option.map_eq_some_iff.1 h
    intro t ht
    rcases List.mem_cons.1 (List.mem_reverse.1 ht) with rfl | ht
    · exact given_of_ofWord? hv
    · exact hfound t ht
  · cases h

end Token

/-! ## Values -/

namespace Reader

/-- The values in an open array or object are what readers give, and its members are in order. -/
def Frame.Given : Frame → Prop
  | list items => ∀ v ∈ items, v.Given
  | table members _ => (Json.obj members).Given

/-- All values that were read are what readers give. -/
structure State.Given (s : State) : Prop where
  stack : ∀ f ∈ s.stack, f.Given
  result : ∀ v, s.stage = .done v → v.Given

theorem given_insert {members : List (String × Json)} (h : (Json.obj members).Given)
    {name : String} {v : Json} (hv : v.Given) :
    (Json.obj (Entries.insert name v members)).Given := by
  refine given_obj (Entries.sorted_insert name v h.ordered.1) fun m hm => ?_
  rcases Entries.mem_insert hm with rfl | hm
  · exact hv
  · exact Hereditary.members h m hm

theorem given_complete {stack : List Frame} (h : ∀ f ∈ stack, f.Given) {v : Json}
    (hv : v.Given) : (complete stack v).Given := by
  unfold complete
  split
  · exact ⟨by simp, fun w hw => by cases hw; exact hv⟩
  · obtain ⟨hitems, hrest⟩ := List.forall_mem_cons.1 h
    exact ⟨List.forall_mem_cons.2 ⟨List.forall_mem_cons.2 ⟨hv, hitems⟩, hrest⟩,
      fun w hw => by cases hw⟩
  · obtain ⟨hmembers, hrest⟩ := List.forall_mem_cons.1 h
    exact ⟨List.forall_mem_cons.2 ⟨given_insert hmembers hv, hrest⟩, fun w hw => by cases hw⟩

theorem given_of_begin? {limit : Nat} {stack : List Frame} (h : ∀ f ∈ stack, f.Given)
    {t : Token} (ht : t.Given) {s : State} (hs : begin? limit stack t = some s) :
    s.Given := by
  cases t with
  | openArray =>
    simp only [begin?] at hs
    split at hs <;> cases hs
    exact ⟨List.forall_mem_cons.2 ⟨fun v hv => (by cases hv), h⟩, fun w hw => by cases hw⟩
  | openObject =>
    simp only [begin?] at hs
    split at hs <;> cases hs
    exact ⟨List.forall_mem_cons.2 ⟨given_obj .nil (by simp), h⟩, fun w hw => by cases hw⟩
  | text x =>
    cases hs
    exact given_complete h (given_str x)
  | atom v =>
    cases hs
    exact given_complete h ht
  | _ => cases hs

theorem given_of_close? {stack : List Frame} (h : ∀ f ∈ stack, f.Given) {t : Token}
    {s : State} (hs : close? stack t = some s) : s.Given := by
  unfold close? at hs
  split at hs
  · cases hs
    obtain ⟨hitems, hrest⟩ := List.forall_mem_cons.1 h
    exact given_complete hrest (given_arr fun v hv => hitems v (List.mem_reverse.1 hv))
  · cases hs
    obtain ⟨hmembers, hrest⟩ := List.forall_mem_cons.1 h
    exact given_complete hrest hmembers
  · cases hs

theorem given_of_name? {stack : List Frame} (h : ∀ f ∈ stack, f.Given) {t : Token}
    {s : State} (hs : name? stack t = some s) : s.Given := by
  unfold name? at hs
  split at hs
  · cases hs
    obtain ⟨hmembers, hrest⟩ := List.forall_mem_cons.1 h
    exact ⟨List.forall_mem_cons.2 ⟨hmembers, hrest⟩, fun w hw => by cases hw⟩
  · cases hs

theorem given_of_step? {limit : Nat} (s : State) (t : Token) (s' : State) (h : s.Given)
    (ht : t.Given) (hs : step? limit s t = some s') : s'.Given := by
  unfold step? at hs
  split at hs
  · exact given_of_begin? h.stack ht hs
  · cases hclose : close? s.stack t with
    | some next =>
      rw [hclose] at hs
      cases hs
      exact given_of_close? h.stack hclose
    | none =>
      rw [hclose] at hs
      exact given_of_begin? h.stack ht hs
  · cases hclose : close? s.stack t with
    | some next =>
      rw [hclose] at hs
      cases hs
      exact given_of_close? h.stack hclose
    | none =>
      rw [hclose] at hs
      exact given_of_name? h.stack hs
  · exact given_of_name? h.stack hs
  · split at hs
    · cases hs
      exact ⟨h.stack, fun w hw => by cases hw⟩
    · cases hs
  · split at hs
    · rename_i hstack
      cases hs
      exact ⟨hstack ▸ h.stack, fun w hw => by cases hw⟩
    · rename_i hstack
      cases hs
      exact ⟨hstack ▸ h.stack, fun w hw => by cases hw⟩
    · exact given_of_close? h.stack hs
  · cases hs

end Reader

/-- A value that was read from a JSON text is in order, and its numbers are in range. -/
theorem given_of_read? {s : String} {v : Json} (h : read? s = some v) : v.Given := by
  obtain ⟨ts, hts, h⟩ := Option.bind_eq_some_iff.1 h
  obtain ⟨state, hstate, h⟩ := Option.bind_eq_some_iff.1 h
  have hgiven : state.Given := foldlM_preserves Reader.given_of_step?
    (Token.given_of_scan? hts) ⟨by simp, fun w hw => by cases hw⟩ hstate
  unfold Reader.finish? at h
  split at h
  · rename_i hstage
    cases h
    exact hgiven.result v hstage
  · cases h

end Json

/-- What readers give, of either format: a value in order whose numbers are in range. -/
theorem InputFormat.given_of_read {format : InputFormat} {bytes : ByteArray} {v : Json}
    (h : format.read bytes = .ok v) : v.Given := by
  cases format with
  | json =>
    have h : readJson bytes = .ok v := h
    unfold readJson at h
    split at h
    · rename_i w hw
      cases h
      obtain ⟨s, -, hread⟩ := Option.bind_eq_some_iff.1 hw
      exact Json.given_of_read? hread
    · cases h
  | yaml =>
    have h : readYaml bytes = .ok v := h
    unfold readYaml at h
    split at h
    · rename_i w hw
      obtain ⟨s, -, hread⟩ := Option.bind_eq_some_iff.1 hw
      split at h
      · rename_i j hj
        cases h
        exact Yaml.Value.given_of_toJson? (Yaml.inRange_of_read? hread) hj
      · cases h
    · cases h

/-- A value that was read from a text is ordered. -/
theorem InputFormat.ordered_of_read {format : InputFormat} {bytes : ByteArray} {v : Json}
    (h : format.read bytes = .ok v) : v.Ordered :=
  (given_of_read h).ordered

end ApiFolio

import ApiFolio.Record
import ApiFolio.Proofs.Dict.Related

/-!
# Values that differ in one place

A value with one of its parts replaced is read like the value itself if the parts are read alike.
The relations are built from the inside out, one for each way in which a part stands in a value:
an item of an array, a member of an object, and a field of a record, which may be written either
way.
-/

namespace ApiFolio

namespace Json

variable {R : Json → Json → Prop} {v w : Json} {name : String}

/-- Arrays that differ in one item, where `R` relates one item to the other. -/
def ItemReplaced (R : Json → Json → Prop) (v w : Json) : Prop :=
  ∃ before x y after, v = .arr (before ++ x :: after) ∧ w = .arr (before ++ y :: after) ∧ R x y

/-- Objects that differ in one member of this name, where `R` relates one value to the other. -/
def MemberReplaced (name : String) (R : Json → Json → Prop) (v w : Json) : Prop :=
  ∃ before x y after, v = .obj (before ++ (name, x) :: after) ∧
    w = .obj (before ++ (name, y) :: after) ∧ R x y

/-- A value with parts. -/
def Composite : Json → Prop
  | .arr _ => True
  | .obj _ => True
  | _ => False

theorem Composite.ne_null (h : v.Composite) : v ≠ .null := by
  rintro rfl
  exact h

theorem ItemReplaced.composite (h : ItemReplaced R v w) : v.Composite ∧ w.Composite := by
  obtain ⟨before, x, y, after, rfl, rfl, -⟩ := h
  exact ⟨trivial, trivial⟩

theorem MemberReplaced.composite (h : MemberReplaced name R v w) : v.Composite ∧ w.Composite := by
  obtain ⟨before, x, y, after, rfl, rfl, -⟩ := h
  exact ⟨trivial, trivial⟩

theorem ItemReplaced.flip (h : ItemReplaced R v w) : ItemReplaced (fun x y => R y x) w v := by
  obtain ⟨before, x, y, after, hv, hw, hR⟩ := h
  exact ⟨before, y, x, after, hw, hv, hR⟩

theorem MemberReplaced.flip (h : MemberReplaced name R v w) :
    MemberReplaced name (fun x y => R y x) w v := by
  obtain ⟨before, x, y, after, hv, hw, hR⟩ := h
  exact ⟨before, y, x, after, hw, hv, hR⟩

end Json

namespace Record

open Json (ItemReplaced MemberReplaced)

universe u

variable {α : Type u} {layout : Layout} {name key : String} {R : Json → Json → Prop} {v w : Json}
variable {read : Json → Option α} {A : α → α → Prop}

/-- Records that differ in the field of this name, where `R` relates one value to the other. -/
def FieldReplaced (layout : Layout) (name : String) (R : Json → Json → Prop) (v w : Json) : Prop :=
  MemberReplaced name R v w ∨
    ∃ before x y after flag, layout[before.length]? = some (name, flag) ∧
      v = .arr (before ++ x :: after) ∧ w = .arr (before ++ y :: after) ∧ R x y

theorem FieldReplaced.composite (h : FieldReplaced layout name R v w) :
    v.Composite ∧ w.Composite := by
  rcases h with h | ⟨before, x, y, after, flag, hname, rfl, rfl, hR⟩
  · exact h.composite
  · exact ⟨trivial, trivial⟩

theorem FieldReplaced.flip (h : FieldReplaced layout name R v w) :
    FieldReplaced layout name (fun x y => R y x) w v := by
  rcases h with h | ⟨before, x, y, after, flag, hname, hv, hw, hR⟩
  · exact .inl h.flip
  · exact .inr ⟨before, y, x, after, flag, hname, hw, hv, hR⟩

/-! ## Members -/

/-- Members of which only those of one name differ, where `R` relates the values that count. -/
structure MembersReplaced (name : String) (R : Json → Json → Prop)
    (ms ns : List (String × Json)) : Prop where
  other : ∀ key, key ≠ name → Entries.get? key ns = Entries.get? key ms
  named : Entries.get? name ns = Entries.get? name ms ∨
    ∃ x y, Entries.get? name ms = some x ∧ Entries.get? name ns = some y ∧ R x y

theorem MembersReplaced.head {x y : Json} (h : R x y) (rest : List (String × Json)) :
    MembersReplaced name R ((name, x) :: rest) ((name, y) :: rest) where
  other key hkey := by
    rw [Entries.get?_cons, Entries.get?_cons, if_neg (Ne.symm hkey), if_neg (Ne.symm hkey)]
  named := .inr ⟨x, y, by rw [Entries.get?_cons, if_pos rfl],
    by rw [Entries.get?_cons, if_pos rfl], h⟩

theorem MembersReplaced.cons {ms ns : List (String × Json)} (h : MembersReplaced name R ms ns)
    (m : String × Json) : MembersReplaced name R (m :: ms) (m :: ns) where
  other key hkey := by
    rw [Entries.get?_cons, Entries.get?_cons, h.other key hkey]
  named := by
    rw [Entries.get?_cons, Entries.get?_cons]
    split
    · exact .inl rfl
    · exact h.named

theorem MembersReplaced.member {x y : Json} (h : R x y) (before after : List (String × Json)) :
    MembersReplaced name R (before ++ (name, x) :: after) (before ++ (name, y) :: after) := by
  induction before with
  | nil => exact .head h after
  | cons m rest ih => exact ih.cons m

theorem get?_replaced (h : MemberReplaced name R v w) (hkey : key ≠ name) :
    w.get? key = v.get? key := by
  obtain ⟨before, x, y, after, rfl, rfl, hR⟩ := h
  exact (MembersReplaced.member hR before after).other key hkey

theorem zip?_replaced {before after : List Json} {x y : Json} {flag : Bool}
    (hname : layout[before.length]? = some (name, flag)) (h : R x y)
    {ms : List (String × Json)} (hms : zip? layout (before ++ x :: after) = some ms) :
    ∃ ns, zip? layout (before ++ y :: after) = some ns ∧ MembersReplaced name R ms ns := by
  induction before generalizing layout ms with
  | nil =>
    cases layout with
    | nil => cases hname
    | cons field fields =>
      cases hname
      obtain ⟨rest, hrest, rfl⟩ := Option.map_eq_some_iff.1 hms
      exact ⟨(name, y) :: rest, Option.map_eq_some_iff.2 ⟨rest, hrest, rfl⟩, .head h rest⟩
  | cons u before ih =>
    cases layout with
    | nil => cases hname
    | cons field fields =>
      obtain ⟨rest, hrest, rfl⟩ := Option.map_eq_some_iff.1 hms
      obtain ⟨ns, hns, hreplaced⟩ := ih hname hrest
      exact ⟨(field.1, u) :: ns, Option.map_eq_some_iff.2 ⟨ns, hns, rfl⟩, hreplaced.cons _⟩

theorem members?_replaced (h : FieldReplaced layout name R v w) {ms : List (String × Json)}
    (hms : members? layout v = some ms) :
    ∃ ns, members? layout w = some ns ∧ MembersReplaced name R ms ns := by
  rcases h with ⟨before, x, y, after, rfl, rfl, hR⟩ |
    ⟨before, x, y, after, flag, hname, rfl, rfl, hR⟩
  · cases hms
    exact ⟨_, rfl, .member hR before after⟩
  · exact zip?_replaced hname hR hms

/-! ## Reading -/

/-- What is read of `w` if something is read of `v`, and how they are related. -/
def Follows (read : Json → Option α) (A : α → α → Prop) (v w : Json) : Prop :=
  ∀ x, read v = some x → ∃ y, read w = some y ∧ A x y

theorem Follows.refl (hA : ∀ x, A x x) (v : Json) : Follows read A v v :=
  fun x hx => ⟨x, hx, hA x⟩

theorem Follows.of_rel (h : Option.Rel A (read v) (read w)) : Follows read A v w := by
  intro x hx
  rw [hx] at h
  generalize hw : read w = y at h
  cases h with
  | some hA => exact ⟨_, rfl, hA⟩

theorem Follows.back_of_rel (h : Option.Rel A (read v) (read w)) :
    Follows read (fun _ _ => True) w v := by
  intro x hx
  rw [hx] at h
  generalize hv : read v = y at h
  cases h with
  | some hA => exact ⟨_, rfl, trivial⟩

theorem Follows.imp {B : α → α → Prop} (h : Follows read A v w) (hB : ∀ x y, A x y → B x y) :
    Follows read B v w := by
  intro x hx
  obtain ⟨y, hy, hA⟩ := h x hx
  exact ⟨y, hy, hB x y hA⟩

theorem Follows.rel (h : Follows read A v w) (hback : Follows read (fun _ _ => True) w v) :
    Option.Rel A (read v) (read w) := by
  cases hv : read v with
  | none =>
    cases hw : read w with
    | none => exact .none
    | some y =>
      obtain ⟨x, hx, -⟩ := hback y hw
      rw [hv] at hx
      cases hx
  | some x =>
    obtain ⟨y, hy, hA⟩ := h x hv
    rw [hy]
    exact .some hA

variable {ms ns : List (String × Json)}

theorem withDefault?_congr {default : α} (h : Entries.get? key ns = Entries.get? key ms) :
    withDefault? ns key default read = withDefault? ms key default read := by
  unfold withDefault?
  rw [h]

theorem optional?_congr (h : Entries.get? key ns = Entries.get? key ms) :
    optional? ns key read = optional? ms key read := by
  unfold optional?
  rw [h]

theorem MembersReplaced.withDefault? (h : MembersReplaced name R ms ns) (hkey : key ≠ name)
    {default x : α} (hx : Record.withDefault? ms key default read = some x) :
    Record.withDefault? ns key default read = some x := by
  rw [withDefault?_congr (h.other key hkey)]
  exact hx

theorem MembersReplaced.optional? (h : MembersReplaced name R ms ns) (hkey : key ≠ name)
    {x : Option α} (hx : Record.optional? ms key read = some x) :
    Record.optional? ns key read = some x := by
  rw [optional?_congr (h.other key hkey)]
  exact hx

theorem withDefault?_replaced {default : α} (h : MembersReplaced name R ms ns)
    (hread : key = name → ∀ x y, R x y → Follows read A x y) (hA : ∀ x, A x x) {x : α}
    (hx : withDefault? ms key default read = some x) :
    ∃ y, withDefault? ns key default read = some y ∧ A x y := by
  by_cases hkey : key = name
  · subst hkey
    rcases h.named with heq | ⟨u, u', hu, hu', hR⟩
    · exact ⟨x, (withDefault?_congr heq).trans hx, hA x⟩
    · unfold withDefault? at hx ⊢
      rw [hu] at hx
      rw [hu']
      exact hread rfl u u' hR x hx
  · exact ⟨x, h.withDefault? hkey hx, hA x⟩

/-- A field is read as before if the member is replaced by one that is read alike. -/
theorem withDefault?_readAlike {default : α} (h : MembersReplaced name R ms ns)
    (hread : key = name → ∀ x y, R x y → read y = read x) {x : α}
    (hx : withDefault? ms key default read = some x) :
    withDefault? ns key default read = some x := by
  obtain ⟨y, hy, rfl⟩ := withDefault?_replaced (A := Eq) h
    (fun hkey v w hR y hy => ⟨y, (hread hkey v w hR).trans hy, rfl⟩) (fun _ => rfl) hx
  exact hy

theorem optional?_replaced (h : MembersReplaced name R ms ns)
    (hread : key = name → ∀ x y, R x y → x ≠ .null ∧ y ≠ .null ∧ Follows read A x y)
    (hA : ∀ x, A x x) {x : Option α} (hx : optional? ms key read = some x) :
    ∃ y, optional? ns key read = some y ∧ Option.Rel A x y := by
  have hrefl : ∀ z : Option α, Option.Rel A z z := fun z => by
    cases z with
    | none => exact .none
    | some z => exact .some (hA z)
  by_cases hkey : key = name
  · subst hkey
    rcases h.named with heq | ⟨u, u', hu, hu', hR⟩
    · exact ⟨x, (optional?_congr heq).trans hx, hrefl x⟩
    · obtain ⟨hnull, hnull', hfollows⟩ := hread rfl u u' hR
      unfold optional? at hx ⊢
      rw [hu] at hx
      rw [hu']
      have hx : (read u).map some = some x := by
        cases u <;> first | exact hx | exact absurd rfl hnull
      obtain ⟨z, hz, rfl⟩ := Option.map_eq_some_iff.1 hx
      obtain ⟨z', hz', hzz'⟩ := hfollows z hz
      refine ⟨some z', ?_, .some hzz'⟩
      have hsome : (read u').map some = some (some z') := by rw [hz']; rfl
      cases u' <;> first | exact hsome | exact absurd rfl hnull'
  · exact ⟨x, h.optional? hkey hx, hrefl x⟩

/-! ## Lists and tables -/

theorem mapM_follows {vs ws : List Json} (h : List.Forall₂ (Follows read A) vs ws) {xs : List α}
    (hxs : vs.mapM read = some xs) : ∃ ys, ws.mapM read = some ys ∧ List.Forall₂ A xs ys := by
  induction h generalizing xs with
  | nil =>
    cases hxs
    exact ⟨[], rfl, .nil⟩
  | cons hfollows _ ih =>
    rw [List.mapM_cons] at hxs ⊢
    obtain ⟨a, ha, hxs⟩ := Option.bind_eq_some_iff.1 hxs
    obtain ⟨rest, hrest, hxs⟩ := Option.bind_eq_some_iff.1 hxs
    cases hxs
    obtain ⟨b, hb, hab⟩ := hfollows a ha
    obtain ⟨ys, hys, hrel⟩ := ih hrest
    refine ⟨b :: ys, ?_, .cons hab hrel⟩
    rw [hb, hys]
    rfl

theorem readList?_replaced (hread : ∀ x y, R x y → Follows read A x y) (hA : ∀ x, A x x)
    (h : ItemReplaced R v w) : Follows (readList? read) (List.Forall₂ A) v w := by
  obtain ⟨before, x, y, after, rfl, rfl, hR⟩ := h
  intro xs hxs
  have hrefl (items : List Json) : List.Forall₂ (Follows read A) items items :=
    List.forall₂_same.2 fun u _ => .refl hA u
  exact mapM_follows (List.rel_append (hrefl before) (.cons (hread x y hR) (hrefl after))) hxs

theorem traverse_follows {vs ws : List (String × Json)}
    (h : Entries.Related (Follows read A) vs ws) {xs : List (String × α)}
    (hxs : Entries.traverse read vs = some xs) :
    ∃ ys, Entries.traverse read ws = some ys ∧ Entries.Related A xs ys := by
  induction h generalizing xs with
  | nil =>
    cases hxs
    exact ⟨[], rfl, .nil⟩
  | @cons e f _ _ hef _ ih =>
    obtain ⟨k, v⟩ := e
    obtain ⟨k', w⟩ := f
    obtain ⟨rfl, hfollows⟩ := hef
    obtain ⟨a, ha, hxs⟩ := Option.bind_eq_some_iff.1 hxs
    obtain ⟨rest, hrest, hxs⟩ := Option.bind_eq_some_iff.1 hxs
    cases hxs
    obtain ⟨b, hb, hab⟩ := hfollows a ha
    obtain ⟨ys, hys, hrel⟩ := ih hrest
    refine ⟨(k, b) :: ys, ?_, .cons ⟨rfl, hab⟩ hrel⟩
    rw [Entries.traverse, hb, hys]
    rfl

theorem readDict?_replaced (hread : ∀ x y, R x y → Follows read A x y) (hA : ∀ x, A x x)
    (h : MemberReplaced name R v w) : Follows (readDict? read) (Dict.Related A) v w := by
  obtain ⟨before, x, y, after, rfl, rfl, hR⟩ := h
  intro table htable
  obtain ⟨xs, hxs, rfl⟩ := Option.map_eq_some_iff.1 htable
  obtain ⟨ys, hys, hrel⟩ := traverse_follows
    (Entries.Related.replaced (.refl hA) before after name (hread x y hR)) hxs
  exact ⟨Dict.ofList ys, Option.map_eq_some_iff.2 ⟨ys, hys, rfl⟩, hrel.sort⟩

end Record

end ApiFolio

import ApiFolio.Proofs.Swagger.CopiedDocument

/-!
# Writing a copy where a pointer stood

Where one raw document has a copy of a shared part and another one has a pointer to it, the one is
read with the part and the other one with a pointer that names it (`Matches`), in a parameter list
and among responses, of an operation and of a path. Moving pointers does not get in the way: it
leaves the shape of a value alone, and it moves what is in a copy as it moves what is in the shared
part.
-/

namespace ApiFolio.Swagger

open OpenApi (Referable Verb)
open Json (ItemReplaced MemberReplaced)
open Record (Follows FieldReplaced)

variable {R : Json → Json → Prop} {v w : Json} {name : String} {bodies : List String}

/-! ## Moving pointers in values that differ in one place -/

/-- What values that are related become when their pointers are moved. -/
def Moved (bodies : List String) (R : Json → Json → Prop) (v w : Json) : Prop :=
  ∃ x y, R x y ∧ v = movePointers bodies x ∧ w = movePointers bodies y

theorem moveMember_of_composite (h : v.Composite) :
    moveMember bodies name v = movePointers bodies v := by
  cases v <;> first | rfl | cases h

theorem composite_movePointers (h : v.Composite) : (movePointers bodies v).Composite := by
  cases v <;> trivial

theorem itemReplaced_moved (h : ItemReplaced R v w) :
    ItemReplaced (Moved bodies R) (movePointers bodies v) (movePointers bodies w) := by
  obtain ⟨before, x, y, after, rfl, rfl, hR⟩ := h
  refine ⟨before.map (movePointers bodies), _, _, after.map (movePointers bodies), ?_, ?_,
    ⟨x, y, hR, rfl, rfl⟩⟩
  · rw [movePointers, movePointersItems_eq, List.map_append, List.map_cons]
  · rw [movePointers, movePointersItems_eq, List.map_append, List.map_cons]

variable (hcomposite : ∀ x y, R x y → x.Composite ∧ y.Composite)

include hcomposite

theorem memberReplaced_moved (h : MemberReplaced name R v w) :
    MemberReplaced name (Moved bodies R) (movePointers bodies v) (movePointers bodies w) := by
  obtain ⟨before, x, y, after, rfl, rfl, hR⟩ := h
  obtain ⟨hx, hy⟩ := hcomposite x y hR
  refine ⟨before.map fun m => (m.1, moveMember bodies m.1 m.2), _, _,
    after.map fun m => (m.1, moveMember bodies m.1 m.2), ?_, ?_, ⟨x, y, hR, rfl, rfl⟩⟩
  · rw [movePointers, movePointersMembers_eq, List.map_append, List.map_cons,
      moveMember_of_composite hx]
  · rw [movePointers, movePointersMembers_eq, List.map_append, List.map_cons,
      moveMember_of_composite hy]

theorem fieldReplaced_moved {layout : Layout} (h : FieldReplaced layout name R v w) :
    FieldReplaced layout name (Moved bodies R) (movePointers bodies v)
      (movePointers bodies w) := by
  rcases h with h | ⟨before, x, y, after, flag, hname, rfl, rfl, hR⟩
  · exact .inl (memberReplaced_moved hcomposite h)
  · refine .inr ⟨before.map (movePointers bodies), _, _, after.map (movePointers bodies), flag, ?_,
      ?_, ?_, ⟨x, y, hR, rfl, rfl⟩⟩
    · rw [List.length_map]
      exact hname
    · rw [movePointers, movePointersItems_eq, List.map_append, List.map_cons]
    · rw [movePointers, movePointersItems_eq, List.map_append, List.map_cons]

omit hcomposite

/-! ## Reading values that differ in one place -/

/-- Values that are related are read alike after their pointers have been moved. -/
def Matches {α : Type} (bodies : List String) (read : Json → Option α) (A : α → α → Prop)
    (R : Json → Json → Prop) : Prop :=
  ∀ x y, R x y → Option.Rel A (read (movePointers bodies x)) (read (movePointers bodies y))

section Matches

variable {α : Type} {read : Json → Option α} {A : α → α → Prop}

theorem Matches.follows (h : Matches bodies read A R) :
    ∀ x y, Moved bodies R x y → Follows read A x y := by
  rintro _ _ ⟨x, y, hR, rfl, rfl⟩
  exact .of_rel (h x y hR)

theorem Matches.back (h : Matches bodies read A R) :
    ∀ x y, Moved bodies (fun x y => R y x) x y → Follows read (fun _ _ => True) x y := by
  rintro _ _ ⟨x, y, hR, rfl, rfl⟩
  exact .back_of_rel (h y x hR)

theorem matches_list (hA : ∀ x, A x x) (h : Matches bodies read A R) :
    Matches bodies (Record.readList? read) (List.Forall₂ A) (ItemReplaced R) := by
  intro x y hxy
  refine Follows.rel (Record.readList?_replaced h.follows hA (itemReplaced_moved hxy)) ?_
  exact (Record.readList?_replaced h.back (fun _ => trivial) (itemReplaced_moved hxy.flip)).imp
    fun _ _ _ => trivial

theorem matches_dict (hcomposite : ∀ x y, R x y → x.Composite ∧ y.Composite)
    (hA : ∀ x, A x x) (h : Matches bodies read A R) :
    Matches bodies (Record.readDict? read) (Dict.Related A) (MemberReplaced name R) := by
  intro x y hxy
  have hback := fun x y hR => (hcomposite y x hR).symm
  refine Follows.rel
    (Record.readDict?_replaced h.follows hA (memberReplaced_moved hcomposite hxy)) ?_
  exact (Record.readDict?_replaced h.back (fun _ => trivial)
    (memberReplaced_moved hback hxy.flip)).imp fun _ _ _ => trivial

end Matches

variable {P : List (Referable Parameter) → List (Referable Parameter) → Prop}
variable {S : Dict (Referable Response) → Dict (Referable Response) → Prop}
variable {A : Operation → Operation → Prop}

section Parts

variable (hcomposite : ∀ x y, R x y → x.Composite ∧ y.Composite)

include hcomposite

theorem matches_operation_parameters (hP : ∀ ps, P ps ps) (hS : ∀ rs, S rs rs)
    (h : Matches bodies (Record.readList? (Referable.ofJson? Parameter.ofJson?)) P R) :
    Matches bodies Operation.ofJson? (Operation.Alike P S)
      (FieldReplaced Operation.layout "parameters" R) := by
  intro x y hxy
  have hback := fun x y hR => (hcomposite y x hR).symm
  refine Follows.rel (Operation.follows (.inl rfl) (fun _ => h.follows)
    (fun heq => absurd heq (by decide)) hP hS (fieldReplaced_moved hcomposite hxy)) ?_
  exact (Operation.follows (S := fun _ _ => True) (.inl rfl) (fun _ => h.back)
    (fun heq => absurd heq (by decide)) (fun _ => trivial) (fun _ => trivial)
    (fieldReplaced_moved hback hxy.flip)).imp fun _ _ _ => trivial

theorem matches_operation_responses (hP : ∀ ps, P ps ps) (hS : ∀ rs, S rs rs)
    (h : Matches bodies (Record.readDict? (Referable.ofJson? Response.ofJson?)) S R) :
    Matches bodies Operation.ofJson? (Operation.Alike P S)
      (FieldReplaced Operation.layout "responses" R) := by
  intro x y hxy
  have hback := fun x y hR => (hcomposite y x hR).symm
  refine Follows.rel (Operation.follows (.inr rfl) (fun heq => absurd heq (by decide))
    (fun _ => h.follows) hP hS (fieldReplaced_moved hcomposite hxy)) ?_
  exact (Operation.follows (P := fun _ _ => True) (.inr rfl) (fun heq => absurd heq (by decide))
    (fun _ => h.back) (fun _ => trivial) (fun _ => trivial)
    (fieldReplaced_moved hback hxy.flip)).imp fun _ _ _ => trivial

theorem matches_pathItem_parameters (hA : ∀ op, A op op) (hP : ∀ ps, P ps ps)
    (h : Matches bodies (Record.readList? (Referable.ofJson? Parameter.ofJson?)) P R) :
    Matches bodies PathItem.ofJson? (PathItem.Alike A P)
      (FieldReplaced PathItem.layout "parameters" R) := by
  intro x y hxy
  have hback := fun x y hR => (hcomposite y x hR).symm
  refine Follows.rel (PathItem.follows (fun hne => absurd rfl hne) (fun _ => h.follows) hA hP
    (fieldReplaced_moved hcomposite hxy)) ?_
  exact (PathItem.follows (A := fun _ _ => True) (fun hne => absurd rfl hne) (fun _ => h.back)
    (fun _ => trivial) (fun _ => trivial) (fieldReplaced_moved hback hxy.flip)).imp
    fun _ _ _ => trivial

theorem matches_pathItem_operation (verb : Verb) (hA : ∀ op, A op op) (hP : ∀ ps, P ps ps)
    (h : Matches bodies Operation.ofJson? A R) :
    Matches bodies PathItem.ofJson? (PathItem.Alike A P)
      (FieldReplaced PathItem.layout verb.name R) := by
  intro x y hxy
  have hback := fun x y hR => (hcomposite y x hR).symm
  have hverb : verb.name ≠ "parameters" := by cases verb <;> decide
  have hnull : ∀ {Q : Json → Json → Prop}, (∀ x y, Q x y → x.Composite ∧ y.Composite) →
      ∀ x y, Moved bodies Q x y → x ≠ .null ∧ y ≠ .null := by
    rintro Q hQ _ _ ⟨x, y, hxy, rfl, rfl⟩
    obtain ⟨hx, hy⟩ := hQ x y hxy
    exact ⟨(composite_movePointers hx).ne_null, (composite_movePointers hy).ne_null⟩
  refine Follows.rel (PathItem.follows (fun _ x y hxy => ?_) (fun heq => absurd heq hverb) hA hP
    (fieldReplaced_moved hcomposite hxy)) ?_
  · obtain ⟨hx, hy⟩ := hnull hcomposite x y hxy
    exact ⟨hx, hy, h.follows x y hxy⟩
  · refine (PathItem.follows (A := fun _ _ => True) (P := fun _ _ => True) (fun _ x y hxy => ?_)
      (fun heq => absurd heq hverb) (fun _ => trivial) (fun _ => trivial)
      (fieldReplaced_moved hback hxy.flip)).imp fun _ _ _ => trivial
    obtain ⟨hx, hy⟩ := hnull hback x y hxy
    exact ⟨hx, hy, h.back x y hxy⟩

end Parts

end ApiFolio.Swagger

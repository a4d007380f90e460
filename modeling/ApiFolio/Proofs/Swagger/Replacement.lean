import ApiFolio.Proofs.Swagger.SharedParts

/-!
# Replacing a pointer by a copy

The places of a raw document where a pointer to a shared parameter or response may stand, and what
is read of the document with a copy in the place of one such pointer.
-/

namespace ApiFolio.Swagger

open OpenApi (Referable Verb)
open Json (ItemReplaced MemberReplaced)
open Record (Follows FieldReplaced)

/-- Documents that differ in one path item. -/
def PathReplaced (path : String) (R : Json → Json → Prop) : Json → Json → Prop :=
  MemberReplaced "paths" (MemberReplaced path R)

/-- Documents that differ in one operation. -/
def OperationReplaced (path : String) (verb : Verb) (R : Json → Json → Prop) :
    Json → Json → Prop :=
  PathReplaced path (FieldReplaced PathItem.layout verb.name R)

/-- Lists of which the second has `new` where the first has `old`. -/
def EntryReplaced (old new : Json) : Json → Json → Prop := ItemReplaced fun x y => x = old ∧ y = new

/-- Path items that differ in an entry of their parameters. -/
def PathParameterReplaced (old new : Json) : Json → Json → Prop :=
  FieldReplaced PathItem.layout "parameters" (EntryReplaced old new)

/-- Operations that differ in an entry of their parameters. -/
def ParameterReplaced (old new : Json) : Json → Json → Prop :=
  FieldReplaced Operation.layout "parameters" (EntryReplaced old new)

/-- Operations that differ in the response under a status. -/
def ResponseReplaced (status : String) (old new : Json) : Json → Json → Prop :=
  FieldReplaced Operation.layout "responses"
    (MemberReplaced status fun x y => x = old ∧ y = new)

variable {raw raw' entry copy : Json} {doc : Document} {name path : String} {bodies : List String}
variable {R : Json → Json → Prop}

theorem bodyParameterNames_replaced (h : PathReplaced path R raw raw') :
    bodyParameterNames raw' = bodyParameterNames raw := by
  unfold bodyParameterNames
  rw [Record.get?_replaced h (by decide)]

/-- Documents that differ in one path item are read alike if the path items are. -/
theorem readMoved?_replaced {B : PathItem → PathItem → Prop} (hB : ∀ item, B item item)
    (hcomposite : ∀ x y, R x y → x.Composite ∧ y.Composite)
    (hread : Matches (bodyParameterNames raw) PathItem.ofJson? B R)
    (h : PathReplaced path R raw raw') (hdoc : readMoved? raw = some doc) :
    ∃ doc', readMoved? raw' = some doc' ∧ Document.Alike B doc doc' := by
  unfold readMoved? at hdoc ⊢
  rw [bodyParameterNames_replaced h]
  have hpaths : MemberReplaced "paths" (Moved (bodyParameterNames raw) (MemberReplaced path R))
      _ _ := memberReplaced_moved (fun x y hxy => hxy.composite) h
  refine Document.follows ?_ hB hpaths doc hdoc
  rintro _ _ ⟨x, y, hxy, rfl, rfl⟩
  refine readPaths?_replaced ?_ hB (memberReplaced_moved hcomposite hxy)
  rintro _ _ ⟨u, v, huv, rfl, rfl⟩
  exact hread u v huv

/-- A pointer is read as the moved pointer, and a copy as the part itself. -/
theorem matches_entry {α : Type} {read : Json → Option α} {A : Referable α → Referable α → Prop}
    {pointer : String} (hentry : entry.get? "$ref" = some (.str pointer))
    (hcopy : copy.get? "$ref" = none) {x : α} (hx : read (movePointers bodies copy) = some x)
    (hA : A (.ref (movePointer bodies pointer)) (.item x)) :
    Matches bodies (Referable.ofJson? read) A fun u v => u = entry ∧ v = copy := by
  rintro _ _ ⟨rfl, rfl⟩
  unfold Referable.ofJson?
  rw [pointerOf?_movePointers, pointerOf?_movePointers]
  unfold Referable.pointerOf?
  rw [hentry, hcopy]
  show Option.Rel A (some (.ref (movePointer bodies pointer))) (Option.map Referable.item _)
  rw [hx]
  exact .some hA

variable {K : Parameter → Prop} {L : Response → Prop}

theorem Document.CopiedParameter.refl (p : Referable Parameter) : doc.CopiedParameter K p p :=
  .inl rfl

theorem Document.CopiedResponse.refl (r : Referable Response) : doc.CopiedResponse L r r :=
  .inl rfl

theorem Document.copiedParameters_refl (ps : List (Referable Parameter)) :
    List.Forall₂ (doc.CopiedParameter K) ps ps :=
  List.forall₂_same.2 fun p _ => .refl p

theorem Document.copiedResponses_refl (rs : Dict (Referable Response)) :
    Dict.Related (doc.CopiedResponse L) rs rs :=
  Entries.Related.refl .refl rs.entries

theorem Document.CopiedOperation.refl (op : Operation) : doc.CopiedOperation K L op op :=
  Operation.Alike.refl copiedParameters_refl copiedResponses_refl op

theorem Document.CopiedPathItem.refl (item : PathItem) : doc.CopiedPathItem K L item item :=
  PathItem.Alike.refl CopiedOperation.refl copiedParameters_refl item

/-- What is read of a document with a copy of a shared parameter in the place of a pointer to it,
in the parameters of a path or of an operation. -/
theorem readMoved?_parameterReplaced (ho : raw.Ordered) (hdoc : readMoved? raw = some doc)
    (hname : name ≠ "") (hcopy : sharedPart? "parameters" name raw = some copy)
    (href : copy.get? "$ref" = none)
    (hentry : entry.get? "$ref" = some (.str (parameterPointer name)))
    (h : PathReplaced path (PathParameterReplaced entry copy) raw raw' ∨
      ∃ verb, OperationReplaced path verb (ParameterReplaced entry copy) raw raw') :
    ∃ doc' p, readMoved? raw' = some doc' ∧
      (p.location = "body" ↔ copy.get? "in" = some (.str "body")) ∧
      doc.CopiedDocument (· = p) (fun _ => False) doc' := by
  obtain ⟨p, hp, hlocation, hnames⟩ := exists_sharedParameter ho hdoc hname hcopy
  have hmatches := matches_list Document.CopiedParameter.refl (matches_entry hentry href hp
    (A := doc.CopiedParameter (· = p)) (.inr ⟨_, p, rfl, rfl, hnames, rfl⟩))
  rcases h with h | ⟨verb, h⟩
  · obtain ⟨doc', hdoc', halike⟩ := readMoved?_replaced
      (B := doc.CopiedPathItem (· = p) (fun _ => False)) Document.CopiedPathItem.refl
      (fun x y hxy => hxy.composite)
      (matches_pathItem_parameters (fun x y hxy => hxy.composite) Document.CopiedOperation.refl
        Document.copiedParameters_refl hmatches) h hdoc
    exact ⟨doc', p, hdoc', hlocation, halike⟩
  · have hop := matches_operation_parameters
      (S := Dict.Related (doc.CopiedResponse fun _ => False)) (fun x y hxy => hxy.composite)
      Document.copiedParameters_refl Document.copiedResponses_refl hmatches
    obtain ⟨doc', hdoc', halike⟩ := readMoved?_replaced
      (B := doc.CopiedPathItem (· = p) (fun _ => False)) Document.CopiedPathItem.refl
      (fun x y hxy => hxy.composite)
      (matches_pathItem_operation (fun x y hxy => hxy.composite) verb
        Document.CopiedOperation.refl Document.copiedParameters_refl hop) h hdoc
    exact ⟨doc', p, hdoc', hlocation, halike⟩

/-- What is read of a document with a copy of a shared response in the place of a pointer to it. -/
theorem readMoved?_responseReplaced (ho : raw.Ordered) (hdoc : readMoved? raw = some doc)
    (hname : name ≠ "") (hcopy : sharedPart? "responses" name raw = some copy)
    (href : copy.get? "$ref" = none)
    (hentry : entry.get? "$ref" = some (.str (responsePointer name))) {verb : Verb}
    {status : String}
    (h : OperationReplaced path verb (ResponseReplaced status entry copy) raw raw') :
    ∃ doc', readMoved? raw' = some doc' ∧
      doc.CopiedDocument (fun _ => False) (fun _ => True) doc' := by
  obtain ⟨r, hr, hnames⟩ := exists_sharedResponse ho hdoc hname hcopy
  have hcomposite : ∀ x y, x = entry ∧ y = copy → x.Composite ∧ y.Composite := by
    rintro x y ⟨rfl, rfl⟩
    constructor
    · cases x with
      | obj members => trivial
      | _ => cases hentry
    · cases y with
      | obj members => trivial
      | arr items => trivial
      | _ => cases hr
  have hmatches : Matches (bodyParameterNames raw)
      (Record.readDict? (Referable.ofJson? Response.ofJson?))
      (Dict.Related (doc.CopiedResponse fun _ => True))
      (MemberReplaced status fun x y => x = entry ∧ y = copy) :=
    matches_dict hcomposite Document.CopiedResponse.refl
      (matches_entry hentry href hr (.inr ⟨_, r, rfl, rfl, hnames, trivial⟩))
  have hop := matches_operation_responses
    (P := List.Forall₂ (doc.CopiedParameter fun _ => False)) (fun x y hxy => hxy.composite)
    Document.copiedParameters_refl Document.copiedResponses_refl hmatches
  exact readMoved?_replaced Document.CopiedPathItem.refl (fun x y hxy => hxy.composite)
    (matches_pathItem_operation (fun x y hxy => hxy.composite) verb Document.CopiedOperation.refl
      Document.copiedParameters_refl hop) h hdoc

end ApiFolio.Swagger

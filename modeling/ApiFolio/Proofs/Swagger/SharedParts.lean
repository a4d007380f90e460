import ApiFolio.Proofs.Swagger.Inlining

/-!
# Shared parts and the pointers to them

A part that stands at the top of a raw document under a name is read into the table of its area,
and the pointer to it, once it has been moved, names it.
-/

namespace ApiFolio.Swagger

open OpenApi (Referable Verb Pointer.token Pointer.areaRoot)
open Json (ItemReplaced MemberReplaced)
open Record (Follows FieldReplaced)

/-- The part of a name in an area at the top of a raw document. -/
def sharedPart? (area name : String) (raw : Json) : Option Json :=
  (raw.get? area).bind (Json.get? name)

/-- The pointer by which a document of version 2 points at a shared parameter. -/
def parameterPointer (name : String) : String := "#/parameters/" ++ Pointer.token name

/-- The pointer by which a document of version 2 points at a shared response. -/
def responsePointer (name : String) : String := "#/responses/" ++ Pointer.token name

variable {raw copy entry : Json} {doc : Document} {name : String} {bodies : List String}

/-! ## Moving the pointers -/

theorem movePointer_definitions (token : String) :
    movePointer bodies ("#/definitions/" ++ token) = Pointer.areaRoot "schemas" ++ token := by
  unfold movePointer
  rw [Text.dropBeginning?_append]

theorem movePointer_parameters (token : String) :
    movePointer bodies ("#/parameters/" ++ token) =
      Pointer.areaRoot (if bodies.contains (OpenApi.Pointer.unescapeText token) then
        "requestBodies" else "parameters") ++ token := by
  have hdefinitions : Text.dropBeginning? "#/definitions/" ("#/parameters/" ++ token) = none := by
    unfold Text.dropBeginning?
    rw [String.toList_append]
    rfl
  unfold movePointer
  rw [hdefinitions, Text.dropBeginning?_append]
  dsimp only
  split <;> rfl

theorem movePointer_responses (token : String) :
    movePointer bodies ("#/responses/" ++ token) = Pointer.areaRoot "responses" ++ token := by
  have hdefinitions : Text.dropBeginning? "#/definitions/" ("#/responses/" ++ token) = none := by
    unfold Text.dropBeginning?
    rw [String.toList_append]
    rfl
  have hparameters : Text.dropBeginning? "#/parameters/" ("#/responses/" ++ token) = none := by
    unfold Text.dropBeginning?
    rw [String.toList_append]
    rfl
  unfold movePointer
  rw [hdefinitions, hparameters, Text.dropBeginning?_append]

theorem pointerOf?_movePointers (v : Json) :
    Referable.pointerOf? (movePointers bodies v) =
      (Referable.pointerOf? v).map (movePointer bodies) := by
  cases v with
  | obj members =>
    have hget : (movePointers bodies (.obj members)).get? "$ref" =
        (Entries.get? "$ref" members).map (moveMember bodies "$ref") :=
      get?_movePointersMembers bodies "$ref" members
    unfold Referable.pointerOf?
    rw [hget]
    show _ = Option.map _ (Entries.get? "$ref" members >>= Json.text?)
    cases Entries.get? "$ref" members with
    | none => rfl
    | some u => cases u <;> rfl
  | _ => rfl

/-! ## Reading the parts -/

/-- A shared part is read into the table of its area. -/
theorem exists_sharedPart {α : Type} {read : Json → Option α} (hread : ∀ s, read (.str s) = none)
    (ho : raw.Ordered) {area : String} {ms : List (String × Json)}
    (hms : (movePointers bodies raw).members? = some ms) {table : Dict α}
    (htable : Record.dict? ms area read = some table)
    (hcopy : sharedPart? area name raw = some copy) :
    ∃ x, read (movePointers bodies copy) = some x ∧ table.get? name = some x := by
  obtain ⟨parts, hparts, hcopy⟩ := Option.bind_eq_some_iff.1 hcopy
  cases raw with
  | obj members =>
    cases parts with
    | obj entries =>
      have hget : Entries.get? area ms = some (.obj (movePointersMembers bodies entries)) := by
        cases hms
        have hparts : Entries.get? area members = some (.obj entries) := hparts
        rw [get?_movePointersMembers, hparts]
        rfl
      have hentries : (Json.obj entries).Ordered := ho.get? hparts
      have hsorted : Entries.Sorted (movePointersMembers bodies entries) :=
        (ordered_movePointers bodies hentries).1
      unfold Record.dict? Record.withDefault? at htable
      rw [hget] at htable
      have hmember : Entries.get? name (movePointersMembers bodies entries) =
          some (moveMember bodies name copy) := by
        have hcopy : Entries.get? name entries = some copy := hcopy
        rw [get?_movePointersMembers, hcopy]
        rfl
      obtain ⟨x, hx, hname⟩ := Record.get?_readDict? hsorted htable hmember
      refine ⟨x, ?_, hname⟩
      cases copy with
      | str s =>
        rw [moveMember, hread] at hx
        cases hx
      | _ => exact hx
    | _ => cases hcopy
  | _ => cases hms

/-- Where a shared parameter stands is the text of its member for it. -/
theorem location_eq_body_iff {p : Parameter}
    (h : Parameter.ofJson? (movePointers bodies copy) = some p) :
    p.location = "body" ↔ copy.get? "in" = some (.str "body") := by
  obtain ⟨ms, hms, hread⟩ := Parameter.ofJson?_eq_some_iff.1 h
  cases copy with
  | obj members =>
    cases hms
    have hlocation := hread.location
    unfold Record.string? Record.withDefault? at hlocation
    rw [get?_movePointersMembers] at hlocation
    show _ ↔ Entries.get? "in" members = _
    cases hin : Entries.get? "in" members with
    | none =>
      rw [hin] at hlocation
      have hempty : "" = p.location := Option.some.inj hlocation
      rw [← hempty]
      simp
    | some u =>
      rw [hin] at hlocation
      cases u with
      | str s =>
        have hs : s = p.location := Option.some.inj hlocation
        rw [hs]
        simp
      | _ => cases hlocation
  | _ => cases hms

theorem mem_bodyParameterNames (ho : raw.Ordered)
    (hcopy : sharedPart? "parameters" name raw = some copy) :
    name ∈ bodyParameterNames raw ↔ copy.get? "in" = some (.str "body") := by
  obtain ⟨parts, hparts, hcopy⟩ := Option.bind_eq_some_iff.1 hcopy
  cases parts with
  | obj entries =>
    have hsorted : Entries.Sorted entries := (ho.get? hparts).1
    have hget : Entries.get? name entries = some copy := hcopy
    have htext : (copy.get? "in" >>= Json.text?) = some "body" ↔
        copy.get? "in" = some (.str "body") := by
      cases copy.get? "in" with
      | none => simp
      | some u => cases u <;> simp [Json.text?]
    unfold bodyParameterNames
    rw [hparts, ← htext]
    simp only [List.mem_map, List.mem_filter, decide_eq_true_eq]
    constructor
    · rintro ⟨⟨k, v⟩, ⟨hmem, hbody⟩, rfl⟩
      have hv := Entries.get?_of_mem hsorted hmem
      rw [hget] at hv
      cases hv
      exact hbody
    · intro hbody
      exact ⟨(name, copy), ⟨Entries.mem_of_get? hget, hbody⟩, rfl⟩
  | _ => cases hcopy

variable {token : String} (htoken : token ≠ "") (hslash : '/' ∉ token.toList)

include htoken hslash

/-- The moved pointer to a shared parameter names it, with its name escaped or not. -/
theorem exists_namesParameter (ho : raw.Ordered) (hdoc : readMoved? raw = some doc)
    (hcopy : sharedPart? "parameters" (OpenApi.Pointer.unescapeText token) raw = some copy) :
    ∃ p, Parameter.ofJson? (movePointers (bodyParameterNames raw) copy) = some p ∧
      (p.location = "body" ↔ copy.get? "in" = some (.str "body")) ∧
      doc.NamesParameter (movePointer (bodyParameterNames raw) ("#/parameters/" ++ token)) p := by
  obtain ⟨ms, hms, hread⟩ := Document.ofJson?_eq_some_iff.1 hdoc
  obtain ⟨p, hp, hget⟩ := exists_sharedPart (fun _ => rfl) ho hms hread.parameters hcopy
  have hlocation := location_eq_body_iff hp
  refine ⟨p, hp, hlocation, _, ?_, hget⟩
  have hbodies : p.location = "body" ↔
      (bodyParameterNames raw).contains (OpenApi.Pointer.unescapeText token) = true := by
    rw [hlocation, ← mem_bodyParameterNames ho hcopy, List.contains_eq_mem, decide_eq_true_eq]
  have harea : p.area =
      if (bodyParameterNames raw).contains (OpenApi.Pointer.unescapeText token) then
        "requestBodies" else "parameters" :=
    if_congr hbodies rfl rfl
  rw [movePointer_parameters, ← harea]
  exact OpenApi.Pointer.name?_areaRoot_append p.area htoken hslash

/-- The moved pointer to a shared response names it, with its name escaped or not. -/
theorem exists_namesResponse (ho : raw.Ordered) (hdoc : readMoved? raw = some doc)
    (hcopy : sharedPart? "responses" (OpenApi.Pointer.unescapeText token) raw = some copy) :
    ∃ r, Response.ofJson? (movePointers (bodyParameterNames raw) copy) = some r ∧
      doc.NamesResponse (movePointer (bodyParameterNames raw) ("#/responses/" ++ token)) r := by
  obtain ⟨ms, hms, hread⟩ := Document.ofJson?_eq_some_iff.1 hdoc
  obtain ⟨r, hr, hget⟩ := exists_sharedPart (fun _ => rfl) ho hms hread.responses hcopy
  refine ⟨r, hr, _, ?_, hget⟩
  rw [movePointer_responses]
  exact OpenApi.Pointer.name?_areaRoot_append "responses" htoken hslash

omit htoken hslash

theorem exists_sharedParameter (ho : raw.Ordered) (hdoc : readMoved? raw = some doc)
    (hname : name ≠ "") (hcopy : sharedPart? "parameters" name raw = some copy) :
    ∃ p, Parameter.ofJson? (movePointers (bodyParameterNames raw) copy) = some p ∧
      (p.location = "body" ↔ copy.get? "in" = some (.str "body")) ∧
      doc.NamesParameter (movePointer (bodyParameterNames raw) (parameterPointer name)) p := by
  rw [← OpenApi.Pointer.unescapeText_token name] at hcopy
  exact exists_namesParameter (OpenApi.Pointer.token_ne_empty hname)
    (OpenApi.Pointer.slash_notMem_token name) ho hdoc hcopy

theorem exists_sharedResponse (ho : raw.Ordered) (hdoc : readMoved? raw = some doc)
    (hname : name ≠ "") (hcopy : sharedPart? "responses" name raw = some copy) :
    ∃ r, Response.ofJson? (movePointers (bodyParameterNames raw) copy) = some r ∧
      doc.NamesResponse (movePointer (bodyParameterNames raw) (responsePointer name)) r := by
  rw [← OpenApi.Pointer.unescapeText_token name] at hcopy
  exact exists_namesResponse (OpenApi.Pointer.token_ne_empty hname)
    (OpenApi.Pointer.slash_notMem_token name) ho hdoc hcopy

end ApiFolio.Swagger

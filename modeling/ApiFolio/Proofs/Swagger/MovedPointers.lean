import ApiFolio.Proofs.Json.Positions
import ApiFolio.Proofs.Swagger.Pointers
import ApiFolio.Proofs.Text.Beginnings

/-!
# What moving pointers changes

Moving the pointers of a value changes texts under `$ref` and nothing else, at any depth
(`at?_movePointers`). What becomes of such a text is told by the beginning that it has, and by the
names of bodies for one that points at a parameter (`MovesTo`). No text begins in one of these ways
afterwards, so moving the pointers again changes nothing (`movePointers_exact`).
-/

namespace ApiFolio

open Json (Step)

/-- The text under `$ref` at a position. -/
def Json.reference? (v : Json) (position : List Step) : Option String :=
  if position.getLast? = some (.member "$ref") then (v.at? position).bind text? else none

namespace Swagger

open OpenApi (Pointer.unescapeText)
open Text (startsWith startsWith_append dropBeginning? dropBeginning?_eq_some_iff
  dropBeginning?_eq_none_iff)

variable (bodies : List String)

/-! ## Where moved values stand -/

/-- What a value becomes after a step. -/
def moveAfter : Step → Json → Json
  | .item _ => movePointers bodies
  | .member name => moveMember bodies name

/-- What a value becomes after several steps: the last of them counts. -/
def moveAt : List Step → Json → Json
  | [] => movePointers bodies
  | [s] => moveAfter bodies s
  | _ :: s :: rest => moveAt (s :: rest)

theorem step?_movePointers (v : Json) (s : Step) :
    (movePointers bodies v).step? s = (v.step? s).map (moveAfter bodies s) := by
  cases s with
  | item n =>
    cases v with
    | arr items =>
      show (movePointersItems bodies items)[n]? = items[n]?.map (movePointers bodies)
      rw [movePointersItems_eq, List.getElem?_map]
    | _ => rfl
  | member name =>
    cases v with
    | obj members => exact get?_movePointersMembers bodies name members
    | _ => rfl

/-- Below what a step leads to, it does not matter by which step it is reached: a text has nothing
below it. -/
theorem at?_moveAfter_cons (s t : Step) (w : Json) (rest : List Step) :
    (moveAfter bodies s w).at? (t :: rest) = (movePointers bodies w).at? (t :: rest) := by
  cases s with
  | item n => rfl
  | member name =>
    cases w with
    | str text =>
      show (Json.str _).at? _ = (Json.str _).at? _
      rw [Json.at?_str_cons, Json.at?_str_cons]
    | _ => rfl

/-- At each position stands what stood there before, moved as the last step to it says. -/
theorem at?_movePointers (v : Json) (position : List Step) :
    (movePointers bodies v).at? position = (v.at? position).map (moveAt bodies position) := by
  induction position generalizing v with
  | nil => rfl
  | cons s rest ih =>
    rw [Json.at?_cons, Json.at?_cons, step?_movePointers]
    cases hw : v.step? s with
    | none => rfl
    | some w =>
      rw [Option.map_some, Option.bind_some, Option.bind_some]
      cases rest with
      | nil => rfl
      | cons t rest => rw [at?_moveAfter_cons, ih, moveAt]

theorem moveAt_eq_moveMember {position : List Step} {name : String}
    (h : position.getLast? = some (.member name)) :
    moveAt bodies position = moveMember bodies name := by
  fun_induction moveAt bodies position with
  | case1 => cases h
  | case2 s =>
    cases Option.some.inj h
    rfl
  | case3 _ s rest ih => exact ih (by rwa [List.getLast?_cons_cons] at h)

theorem moveAt_eq_movePointers {position : List Step}
    (h : position.getLast? ≠ some (.member "$ref")) :
    moveAt bodies position = movePointers bodies := by
  fun_induction moveAt bodies position with
  | case1 => rfl
  | case2 s =>
    cases s with
    | item n => rfl
    | member name =>
      have hname : name ≠ "$ref" := fun heq => h (by rw [heq]; rfl)
      funext v
      cases v with
      | str text =>
        show Json.str (if name = "$ref" then _ else _) = _
        rw [if_neg hname]
        rfl
      | _ => rfl
  | case3 _ s rest ih => exact ih (by rwa [List.getLast?_cons_cons] at h)

theorem outline_movePointers (v : Json) : (movePointers bodies v).outline = v.outline := by
  cases v with
  | arr items =>
    show Json.arr ((movePointersItems bodies items).map _) = _
    rw [movePointersItems_eq, List.map_map]
    rfl
  | obj members =>
    show Json.obj ((movePointersMembers bodies members).map _) = _
    rw [movePointersMembers_eq, List.map_map]
    rfl
  | _ => rfl

theorem outline_moveMember {name : String} {v : Json} (h : v.text? = none) :
    (moveMember bodies name v).outline = v.outline := by
  cases v with
  | str text => cases h
  | _ => exact outline_movePointers bodies _

/-- Where no text stands under `$ref`, a value keeps its outline. -/
theorem outline_at?_movePointers {v : Json} {position : List Step}
    (h : v.reference? position = none) :
    ((movePointers bodies v).at? position).map Json.outline =
      (v.at? position).map Json.outline := by
  rw [at?_movePointers, Option.map_map]
  refine Option.map_congr fun w hw => ?_
  by_cases hlast : position.getLast? = some (.member "$ref")
  · unfold Json.reference? at h
    rw [if_pos hlast, hw, Option.bind_some] at h
    show (moveAt bodies position w).outline = _
    rw [moveAt_eq_moveMember bodies hlast, outline_moveMember bodies h]
  · show (moveAt bodies position w).outline = _
    rw [moveAt_eq_movePointers bodies hlast, outline_movePointers]

/-- Texts stand under `$ref` where they stood before, each moved. -/
theorem reference?_movePointers (v : Json) (position : List Step) :
    (movePointers bodies v).reference? position =
      (v.reference? position).map (movePointer bodies) := by
  unfold Json.reference?
  by_cases hlast : position.getLast? = some (.member "$ref")
  · rw [if_pos hlast, if_pos hlast, at?_movePointers, moveAt_eq_moveMember bodies hlast]
    cases v.at? position with
    | none => rfl
    | some w => cases w <;> rfl
  · rw [if_neg hlast, if_neg hlast]
    rfl

/-! ## What becomes of a pointer -/

/-- How the pointers to parts at the top of a document begin. -/
def beginnings : List String := ["#/definitions/", "#/parameters/", "#/responses/"]

/-- What becomes of a pointer: the token that it ends in stays, and one that points elsewhere stays
altogether. -/
inductive MovesTo : String → String → Prop where
  /-- A definition is a schema. -/
  | definition (token : String) :
    MovesTo ("#/definitions/" ++ token) ("#/components/schemas/" ++ token)
  /-- A parameter with the name of a body is a body. -/
  | body (token : String) (h : Pointer.unescapeText token ∈ bodies) :
    MovesTo ("#/parameters/" ++ token) ("#/components/requestBodies/" ++ token)
  /-- Another parameter stays one. -/
  | parameter (token : String) (h : Pointer.unescapeText token ∉ bodies) :
    MovesTo ("#/parameters/" ++ token) ("#/components/parameters/" ++ token)
  /-- A response stays one. -/
  | response (token : String) :
    MovesTo ("#/responses/" ++ token) ("#/components/responses/" ++ token)
  /-- A pointer elsewhere stays. -/
  | elsewhere (pointer : String) (h : ∀ b ∈ beginnings, ¬startsWith b pointer = true) :
    MovesTo pointer pointer

theorem movesTo_movePointer (pointer : String) :
    MovesTo bodies pointer (movePointer bodies pointer) := by
  unfold movePointer
  split
  · rename_i token h
    rw [dropBeginning?_eq_some_iff.1 h]
    exact .definition token
  · rename_i hdefinition
    split
    · rename_i token h
      rw [dropBeginning?_eq_some_iff.1 h]
      split
      · rename_i hbody
        exact .body token (List.contains_iff_mem.1 hbody)
      · rename_i hbody
        exact .parameter token fun hmem => hbody (List.contains_iff_mem.2 hmem)
    · rename_i hparameter
      split
      · rename_i token h
        rw [dropBeginning?_eq_some_iff.1 h]
        exact .response token
      · rename_i hresponse
        refine .elsewhere pointer fun b hb => ?_
        unfold beginnings at hb
        simp only [List.mem_cons, List.not_mem_nil, or_false] at hb
        rcases hb with rfl | rfl | rfl
        · exact dropBeginning?_eq_none_iff.1 hdefinition
        · exact dropBeginning?_eq_none_iff.1 hparameter
        · exact dropBeginning?_eq_none_iff.1 hresponse

/-- A pointer that has been moved begins in none of the ways of those that are moved. -/
theorem MovesTo.not_startsWith {bodies : List String} {pointer target : String}
    (h : MovesTo bodies pointer target) : ∀ b ∈ beginnings, ¬startsWith b target = true := by
  have hcomponents (area token : String) (hdiverge : ∀ b ∈ beginnings, Text.Diverge area b) :
      ∀ b ∈ beginnings, ¬startsWith b (area ++ token) = true :=
    fun b hb => (hdiverge b hb).not_startsWith (startsWith_append _ _)
  cases h with
  | definition token => exact hcomponents _ token (by decide)
  | body token => exact hcomponents _ token (by decide)
  | parameter token => exact hcomponents _ token (by decide)
  | response token => exact hcomponents _ token (by decide)
  | elsewhere _ h => exact h

theorem movePointer_of_not_startsWith {pointer : String}
    (h : ∀ b ∈ beginnings, ¬startsWith b pointer = true) :
    movePointer bodies pointer = pointer := by
  have hdrop : ∀ b ∈ beginnings, dropBeginning? b pointer = none :=
    fun b hb => dropBeginning?_eq_none_iff.2 (h b hb)
  unfold movePointer
  rw [hdrop "#/definitions/" (by decide), hdrop "#/parameters/" (by decide),
    hdrop "#/responses/" (by decide)]

@[simp] theorem movePointer_movePointer (pointer : String) :
    movePointer bodies (movePointer bodies pointer) = movePointer bodies pointer :=
  movePointer_of_not_startsWith bodies (movesTo_movePointer bodies pointer).not_startsWith

theorem movePointersMembers_cons (name : String) (v : Json) (rest : List (String × Json)) :
    movePointersMembers bodies ((name, v) :: rest) =
      (name, moveMember bodies name v) :: movePointersMembers bodies rest := by
  cases v <;> rfl

theorem moveMember_moveMember {name : String} {v : Json}
    (h : movePointers bodies (movePointers bodies v) = movePointers bodies v) :
    moveMember bodies name (moveMember bodies name v) = moveMember bodies name v := by
  cases v with
  | str text =>
    show Json.str (if name = "$ref" then _ else _) = Json.str _
    by_cases hname : name = "$ref"
    · rw [if_pos hname, if_pos hname, movePointer_movePointer]
    · rw [if_neg hname]
  | _ => exact h

mutual

theorem movePointers_movePointers : (v : Json) →
    movePointers bodies (movePointers bodies v) = movePointers bodies v
  | .arr items => congrArg Json.arr (movePointersItems_movePointersItems items)
  | .obj members => congrArg Json.obj (movePointersMembers_movePointersMembers members)
  | .null => rfl
  | .bool _ => rfl
  | .num _ => rfl
  | .str _ => rfl

theorem movePointersItems_movePointersItems : (items : List Json) →
    movePointersItems bodies (movePointersItems bodies items) = movePointersItems bodies items
  | [] => rfl
  | v :: rest => by
    simp only [movePointersItems, movePointers_movePointers v,
      movePointersItems_movePointersItems rest]

theorem movePointersMembers_movePointersMembers : (members : List (String × Json)) →
    movePointersMembers bodies (movePointersMembers bodies members) =
      movePointersMembers bodies members
  | [] => rfl
  | (name, v) :: rest => by
    rw [movePointersMembers_cons, movePointersMembers_cons,
      moveMember_moveMember bodies (movePointers_movePointers v),
      movePointersMembers_movePointersMembers rest]

end

/-! ## What moving changes -/

/-- Moving the pointers of a value changes texts under `$ref` alone. Each such text has its token
after the move as before and points where parts of its kind stand, one at a parameter to the bodies
exactly if its token stands for the name of one; no text under `$ref` begins as before, and moving
the pointers again changes nothing. -/
theorem movePointers_exact (bodies : List String) (v : Json) :
    (∀ position, v.reference? position = none →
      ((movePointers bodies v).at? position).map Json.outline =
        (v.at? position).map Json.outline) ∧
    (∀ position pointer, v.reference? position = some pointer →
      ∃ target, (movePointers bodies v).reference? position = some target ∧
        MovesTo bodies pointer target) ∧
    (∀ position target, (movePointers bodies v).reference? position = some target →
      ∀ b ∈ ["#/definitions/", "#/parameters/", "#/responses/"], ¬startsWith b target = true) ∧
    movePointers bodies (movePointers bodies v) = movePointers bodies v := by
  refine ⟨fun position h => outline_at?_movePointers bodies h, fun position pointer h => ?_,
    fun position target h => ?_, movePointers_movePointers bodies v⟩
  · refine ⟨movePointer bodies pointer, ?_, movesTo_movePointer bodies pointer⟩
    rw [reference?_movePointers, h]
    rfl
  · rw [reference?_movePointers] at h
    obtain ⟨pointer, -, rfl⟩ := Option.map_eq_some_iff.1 h
    exact (movesTo_movePointer bodies pointer).not_startsWith

/-- A document in which a body has the name of a definition, another body one with characters that
are escaped, and a property the name of the member for pointers. -/
def petDocument : Json :=
  .obj [
    ("definitions", .obj [("Pet", .obj [
      ("properties", .obj [("$ref", .obj [("type", .str "string")])])])]),
    ("info", .obj [("title", .str "Pets"), ("version", .str "1")]),
    ("parameters", .obj [
      ("Pet", .obj [
        ("in", .str "body"), ("name", .str "pet"),
        ("schema", .obj [("$ref", .str "#/definitions/Pet")])]),
      ("new/pet~", .obj [("in", .str "body"), ("name", .str "pet"), ("schema", .obj [])])]),
    ("paths", .obj [("/pets", .obj [("post", .obj [
      ("parameters", .arr [.obj [("$ref", .str "#/parameters/new~1pet~0")]]),
      ("responses", .obj [("201", .obj [("description", .str "ok")])])])])]),
    ("swagger", .str "2.0")]

/-- Where the property stands that has the name of the member for pointers. -/
def propertyPosition : List Step :=
  [.member "definitions", .member "Pet", .member "properties", .member "$ref"]

/-- Where an operation points at its body. -/
def bodyPosition : List Step :=
  [.member "paths", .member "/pets", .member "post", .member "parameters", .item 0, .member "$ref"]

/-- Where the schema of a body points at the definition of the same name. -/
def schemaPosition : List Step :=
  [.member "parameters", .member "Pet", .member "schema", .member "$ref"]

theorem movePointers_exact_petDocument :
    let bodies := bodyParameterNames petDocument
    let moved := movePointers bodies petDocument
    petDocument.reference? propertyPosition = none ∧
      (moved.at? propertyPosition).map Json.outline =
        (petDocument.at? propertyPosition).map Json.outline ∧
      petDocument.reference? bodyPosition = some "#/parameters/new~1pet~0" ∧
      (∃ target, moved.reference? bodyPosition = some target ∧
        MovesTo bodies "#/parameters/new~1pet~0" target) ∧
      moved.reference? schemaPosition = some "#/components/schemas/Pet" ∧
      ∀ b ∈ ["#/definitions/", "#/parameters/", "#/responses/"],
        ¬startsWith b "#/components/schemas/Pet" = true := by
  obtain ⟨houtline, hmoved, hbegins, -⟩ :=
    movePointers_exact (bodyParameterNames petDocument) petDocument
  have hproperty : petDocument.reference? propertyPosition = none := by rfl
  have hbody : petDocument.reference? bodyPosition = some "#/parameters/new~1pet~0" := by rfl
  have hschema : (movePointers (bodyParameterNames petDocument) petDocument).reference?
      schemaPosition = some "#/components/schemas/Pet" := by rfl
  exact ⟨hproperty, houtline _ hproperty, hbody, hmoved _ _ hbody, hschema, hbegins _ _ hschema⟩

/-- A pointer does not go to the bodies for its token alone: one at a definition goes to the schemas
although a body has the name. -/
theorem not_bodies_by_token :
    ¬∀ (bodies : List String) (v : Json) (position : List Step) (pointer target : String),
      v.reference? position = some pointer →
      (movePointers bodies v).reference? position = some target → target ≠ pointer →
      ∀ b ∈ ["#/definitions/", "#/parameters/", "#/responses/"], ∀ token, pointer = b ++ token →
        (target = "#/components/requestBodies/" ++ token ↔
          Pointer.unescapeText token ∈ bodies) := by
  intro h
  have hiff := h (bodyParameterNames petDocument) petDocument schemaPosition "#/definitions/Pet"
    "#/components/schemas/Pet" rfl rfl (by decide) "#/definitions/" (by decide) "Pet" rfl
  have hmem : Pointer.unescapeText "Pet" ∈ bodyParameterNames petDocument := by decide
  exact absurd (hiff.2 hmem) (by decide)

end Swagger

end ApiFolio

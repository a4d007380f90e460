import ApiFolio.Proofs.Text.Quoted
import ApiFolio.Proofs.Validation.Origins
import ApiFolio.Proofs.Validation.Places

/-!
# Identifiers that are used again

The check walks over the operations of all paths and keeps for each identifier the place where it
was used last. Of all issues only those of this check say that an identifier is used again, and the
quotes around it tell which one it is (`filter_operation`). So what is told of one identifier while
the walk goes on are the steps from each of its uses to the next (`filter_operations`), and over a
document each use but the first is told with the use before it (`reuses_exact`).
-/

namespace ApiFolio.Validation

open OpenApi
open Text (startsWith startsWith_append)

/-- What is said at a place of an identifier that was used at another before. -/
def reuseIssue (id previous place : String) : Issue :=
  ⟨place, "operationId " ++ Text.quoted id ++ " already used by " ++ previous⟩

/-- Whether an issue says of an identifier that it is used again. -/
def tellsReuse (id : String) (issue : Issue) : Bool :=
  startsWith ("operationId " ++ Text.quoted id ++ " already used by ") issue.message

/-- The issues of a document that say of an identifier that it is used again. -/
def reuses (doc : Document) (id : String) : List Issue := (document doc).filter (tellsReuse id)

/-- The places of the operations with an identifier, by path and then by verb. -/
def usesOf (doc : Document) (id : String) : List String :=
  doc.paths.entries.flatMap fun e =>
    Verb.all.filterMap fun verb =>
      match e.2.operation? verb with
      | some op => if op.operationId = some id then some (operationPlace e.1 verb) else none
      | none => none

/-- The issues for the uses at some places, each but the first with the one before it. -/
def reuseChain (id : String) (places : List String) : List Issue :=
  List.zipWith (reuseIssue id) places places.tail

/-! ## Issues of other checks -/

theorem startsWith_of_tellsReuse {id : String} {issue : Issue} (h : tellsReuse id issue = true) :
    startsWith "operationId " issue.message = true := by
  obtain ⟨rest, hrest⟩ := Text.startsWith_iff_exists.1 h
  rw [hrest, String.append_assoc, String.append_assoc]
  exact startsWith_append _ _

theorem tellsReuse_reuseIssue {id other previous place : String} :
    tellsReuse id (reuseIssue other previous place) = true ↔ other = id := by
  constructor
  · intro h
    obtain ⟨rest, hrest⟩ := Text.startsWith_iff_exists.1 h
    have hquoted : Text.quoted other ++ (" already used by " ++ previous) =
        Text.quoted id ++ (" already used by " ++ rest) := by
      unfold reuseIssue at hrest
      simp only [String.append_assoc] at hrest
      exact (String.append_right_inj _).1 hrest
    exact (Text.quoted_append_inj hquoted).1
  · rintro rfl
    exact startsWith_append _ _

section

variable {id : String}

/-- No issue is left of checks that start what they say in another way. -/
theorem filter_tellsReuse_eq_nil {issues : List Issue}
    (h : ∀ issue ∈ issues, ∃ beginning, Text.Diverge "operationId " beginning ∧
      startsWith beginning issue.message = true) :
    issues.filter (tellsReuse id) = [] := by
  refine List.filter_eq_nil_iff.2 fun issue hissue htells => ?_
  obtain ⟨beginning, hdiverge, hstart⟩ := h issue hissue
  exact hdiverge.not_startsWith (startsWith_of_tellsReuse htells) hstart

theorem Common.filter_tellsReuse {issues : List Issue} (h : Common issues) :
    issues.filter (tellsReuse id) = [] := by
  have hdiverge : ∀ b ∈ commonBeginnings, Text.Diverge "operationId " b := by decide
  refine filter_tellsReuse_eq_nil fun issue hissue => ?_
  obtain ⟨b, hb, hstart⟩ := h issue hissue
  exact ⟨b, hdiverge b hb, hstart⟩

theorem filter_pathParameters (components : Option Components) (x : Located) :
    (pathParameters components x).filter (tellsReuse id) = [] :=
  filter_tellsReuse_eq_nil fun _ h => ⟨_, by decide, startsWith_of_mem_pathParameters h⟩

theorem filter_pointers (doc : Document) : (pointers doc).filter (tellsReuse id) = [] :=
  filter_tellsReuse_eq_nil fun _ h => ⟨_, by decide, startsWith_of_mem_pointers h⟩

end

/-! ## One step of the walk -/

/-- An operation is told of an identifier if it is its own and was used before. -/
theorem filter_operation (components : Option Components) (uses : Uses) (x : Located)
    (id : String) :
    (operation components (uses.previous x) x).filter (tellsReuse id) =
      if x.operation.operationId = some id then
        ((Entries.get? id uses).map fun previous => reuseIssue id previous x.location).toList
      else [] := by
  have hresponses : Common (if x.operation.responses.isEmpty then
      [⟨x.location, "operation declares no responses"⟩] else []) :=
    .ite (.singleton "operation declares " (by decide) (by decide)) .nil
  have hschemas : Common ((outerSchemas x.parameters x.operation).flatMap (schema x.location)) :=
    .flatMap fun s => common_schema _ s
  unfold operation Uses.previous
  simp only [List.filter_append, (common_parameters _ _).filter_tellsReuse,
    hresponses.filter_tellsReuse, filter_pathParameters, hschemas.filter_tellsReuse,
    List.nil_append, List.append_nil]
  cases hid : x.operation.operationId with
  | none => rfl
  | some other =>
    rw [Option.bind_some]
    by_cases heq : other = id
    · subst heq
      rw [if_pos rfl]
      cases Entries.get? other uses with
      | none => rfl
      | some previous =>
        exact List.filter_cons_of_pos (tellsReuse_reuseIssue.2 rfl)
    · rw [if_neg fun h => heq (Option.some.inj h)]
      cases Entries.get? other uses with
      | none => rfl
      | some previous =>
        refine List.filter_cons_of_neg fun htells => heq ?_
        exact tellsReuse_reuseIssue.1 htells

/-- After an operation its own identifier was used last at its place, and every other where it was
used last before. -/
theorem get?_note (uses : Uses) (x : Located) (id : String) :
    Entries.get? id (uses.note x) =
      if x.operation.operationId = some id then some x.location else Entries.get? id uses := by
  unfold Uses.note
  cases hid : x.operation.operationId with
  | none => rfl
  | some other =>
    show Entries.get? id ((other, x.location) :: uses) = _
    rw [Entries.get?_cons]
    by_cases heq : other = id
    · subst heq
      rw [if_pos rfl, if_pos rfl]
    · rw [if_neg heq, if_neg fun h => heq (Option.some.inj h)]

/-! ## The whole walk -/

/-- The places of the operations with an identifier. -/
def placesOf (id : String) (xs : List Located) : List String :=
  (xs.filter fun x => x.operation.operationId = some id).map (·.location)

theorem placesOf_cons (id : String) (x : Located) (rest : List Located) :
    placesOf id (x :: rest) =
      if x.operation.operationId = some id then x.location :: placesOf id rest
      else placesOf id rest := by
  unfold placesOf
  by_cases hid : x.operation.operationId = some id <;> simp [hid]

/-- What is told of an identifier on the way over operations is the chain of its uses, from the last
one before them on. -/
theorem filter_operations (components : Option Components) (uses : Uses) (xs : List Located)
    (id : String) :
    (operations components uses xs).filter (tellsReuse id) =
      reuseChain id ((Entries.get? id uses).toList ++ placesOf id xs) := by
  induction xs generalizing uses with
  | nil =>
    cases Entries.get? id uses <;> rfl
  | cons x rest ih =>
    rw [operations, List.filter_append, filter_operation, ih, get?_note, placesOf_cons]
    by_cases hid : x.operation.operationId = some id
    · rw [if_pos hid, if_pos hid, if_pos hid]
      cases Entries.get? id uses <;> rfl
    · rw [if_neg hid, if_neg hid, if_neg hid, List.nil_append]

theorem operations_append (components : Option Components) (uses : Uses) (xs ys : List Located) :
    operations components uses (xs ++ ys) =
      operations components uses xs ++ operations components (xs.foldl Uses.note uses) ys := by
  induction xs generalizing uses with
  | nil => rfl
  | cons x rest ih =>
    rw [List.cons_append, operations, operations, ih, List.append_assoc]
    rfl

/-- Of identifiers the paths are told what their operations are told, one path after the other. -/
theorem filter_paths (components : Option Components) (uses : Uses)
    (entries : List (String × PathItem)) (id : String) :
    (paths components uses entries).filter (tellsReuse id) =
      (operations components uses (entries.flatMap fun e => located e.1 e.2)).filter
        (tellsReuse id) := by
  induction entries generalizing uses with
  | nil => rfl
  | cons e rest ih =>
    rw [paths, List.filter_append, List.filter_append, (common_path _ _).filter_tellsReuse, ih,
      List.flatMap_cons, operations_append, List.filter_append, List.nil_append]

theorem placesOf_documentOperations (doc : Document) (id : String) :
    placesOf id (documentOperations doc) = usesOf doc id := by
  have hitem (key : String) (item : PathItem) : placesOf id (located key item) =
      Verb.all.filterMap fun verb =>
        match item.operation? verb with
        | some op => if op.operationId = some id then some (operationPlace key verb) else none
        | none => none := by
    unfold placesOf located PathItem.operations
    rw [List.map_filterMap, List.filter_filterMap, List.map_filterMap]
    refine List.filterMap_congr fun verb _ => ?_
    cases item.operation? verb with
    | none => rfl
    | some op => by_cases hid : op.operationId = some id <;> simp [hid, operationPlace]
  unfold documentOperations usesOf placesOf
  rw [List.filter_flatMap, List.map_flatMap]
  exact List.flatMap_congr fun e _ => hitem e.1 e.2

/-- Of every identifier a document is told each use but the first, with the use before it, in the
order of paths and verbs. Different operations have different places. -/
theorem reuses_exact (doc : Document) :
    (∀ id, reuses doc id = List.zipWith (reuseIssue id) (usesOf doc id) (usesOf doc id).tail) ∧
      ∀ path verb other v, operationPlace path verb = operationPlace other v ↔
        path = other ∧ verb = v := by
  refine ⟨fun id => ?_, fun path verb other v => operationPlace_eq_iff⟩
  have hcomponents : Common ((doc.components.map components).getD []) := by
    cases doc.components with
    | none => exact .nil
    | some c => exact common_components c
  unfold reuses document
  rw [List.filter_append, List.filter_append, List.filter_append,
    (common_head doc).filter_tellsReuse, hcomponents.filter_tellsReuse, filter_pointers,
    filter_paths, filter_operations, List.nil_append, List.append_nil, List.append_nil]
  exact congrArg (reuseChain id) (placesOf_documentOperations doc id)

end ApiFolio.Validation

import ApiFolio.Proofs.Export.Parameters
import ApiFolio.Proofs.Validation.Places

/-!
# Path parameters and the template of the path

The check of an operation looks at all its parameters, and the export keeps one for each name and
place. Both have the same names in the path (`mem_names_path_iff`), so an operation is told nothing
about its template exactly if its exported path parameters have the names of the template
(`fitsTemplate_iff_exported`).
-/

namespace ApiFolio.Export

open OpenApi

/-- The exported path parameters have the names of the path parameters that resolve. -/
theorem mem_names_path_iff {doc : Document} {key : String} {item : PathItem} {verb : Verb}
    {op : Operation} {name : String} :
    name ∈ ((surroundings doc).parameters item op).path.map (·.name) ↔
      name ∈ ((Validation.placeOf key item verb op).inPath doc.components).map (·.name) := by
  have hresolve : (surroundings doc).resolved item op =
      (Validation.placeOf key item verb op).parameters.filterMap
        (Validation.resolve? doc.components) :=
    List.filterMap_congr fun r _ => parameter?_surroundings doc r
  have hkey (ps : List Parameter) :
      name ∈ (ps.filter fun p => p.location = "path").map (·.name) ↔
        (name, "path") ∈ ps.map Parameter.key := by
    simp only [List.mem_map, List.mem_filter, decide_eq_true_eq, Parameter.key, Prod.mk.injEq]
    exact exists_congr fun p => by rw [and_assoc, and_comm (a := p.location = _)]
  calc name ∈ ((surroundings doc).parameters item op).path.map (·.name)
      ↔ name ∈ ((Surroundings.merge ((surroundings doc).resolved item op)).filter
          fun p => p.location = "path").map (·.name) := by
        show name ∈ (Surroundings.bucket "path" _).map _ ↔ _
        unfold Surroundings.bucket
        rw [List.map_map]
        rfl
    _ ↔ (name, "path") ∈ ((surroundings doc).resolved item op).map Parameter.key := by
        rw [hkey, Surroundings.keys_merge, List.mem_eraseDups]
    _ ↔ name ∈ ((Validation.placeOf key item verb op).inPath doc.components).map (·.name) := by
        rw [hresolve]
        exact (hkey _).symm

section

variable {doc : Document} {path : String} {item : PathItem} {verb : Verb} {op : Operation}
  (hitem : doc.paths.get? path = some item) (hop : item.operation? verb = some op)

include hitem hop

theorem pathParameters_subset_document :
    Validation.pathParameters doc.components (Validation.placeOf path item verb op) ⊆
      Validation.document doc := by
  obtain ⟨previous, hsubset⟩ := Validation.operation_subset_document hitem hop
  intro issue h
  refine hsubset (List.mem_append_left _ (List.mem_append_right _ h))

/-- What is told of a template at the place of an operation comes from the check of its path
parameters. -/
theorem mem_pathParameters_of_location {issue : Validation.Issue}
    (h : issue ∈ Validation.document doc)
    (hlocation : issue.location = Validation.operationPlace path verb)
    (htells : Validation.TellsNotInTemplate issue.message ∨
      Validation.TellsNotDeclared issue.message) :
    issue ∈ Validation.pathParameters doc.components (Validation.placeOf path item verb op) := by
  obtain ⟨x, hx, hmem⟩ : ∃ x ∈ Validation.documentOperations doc,
      issue ∈ Validation.pathParameters doc.components x := by
    rcases htells with htells | htells
    · exact Validation.mem_pathParameters_of_startsWith h htells.startsWith (by decide) (by decide)
        (by decide)
    · exact Validation.mem_pathParameters_of_startsWith h htells.startsWith (by decide) (by decide)
        (by decide)
  have hplace : x = Validation.placeOf path item verb op :=
    Validation.eq_of_location_eq hx (Validation.placeOf_mem_documentOperations hitem hop)
      ((Validation.location_of_mem_pathParameters hmem).symm.trans hlocation)
  rwa [hplace] at hmem

end

/-- The export has one operation for an operation of a path, and nothing is told at the place of
this operation about parameters outside the template of the path, or about names in the template
without a parameter, exactly if the exported path parameters have the names of the template: the
non-empty texts without braces and slashes that stand directly between braces in the path. -/
theorem fitsTemplate_iff_exported (doc : Document) (version path : String) (item : PathItem)
    (verb : Verb) (op : Operation) (hitem : doc.paths.get? path = some item)
    (hop : item.operation? verb = some op) :
    ∃ i, (convert doc version).operationsAt path verb.name = [i] ∧
      ((∀ issue ∈ Validation.document doc,
          issue.location = "paths." ++ path ++ "." ++ verb.name →
          ¬Validation.TellsNotInTemplate issue.message ∧
            ¬Validation.TellsNotDeclared issue.message) ↔
        ∀ name, name ∈ i.parameters.path.map (·.name) ↔
          Text.Template.IsName path.toList name.toList) := by
  refine ⟨_, operationsAt_convert hitem hop version, ?_⟩
  have hissues : (∀ issue ∈ Validation.document doc,
      issue.location = "paths." ++ path ++ "." ++ verb.name →
      ¬Validation.TellsNotInTemplate issue.message ∧
        ¬Validation.TellsNotDeclared issue.message) ↔
      ∀ issue ∈ Validation.pathParameters doc.components (Validation.placeOf path item verb op),
        ¬Validation.TellsNotInTemplate issue.message ∧
          ¬Validation.TellsNotDeclared issue.message := by
    constructor
    · intro h issue hissue
      exact h issue (pathParameters_subset_document hitem hop hissue)
        (Validation.location_of_mem_pathParameters hissue)
    · intro h issue hissue hlocation
      constructor
      · intro htells
        have hmem := mem_pathParameters_of_location hitem hop hissue hlocation (.inl htells)
        exact (h issue hmem).1 htells
      · intro htells
        have hmem := mem_pathParameters_of_location hitem hop hissue hlocation (.inr htells)
        exact (h issue hmem).2 htells
  rw [hissues, Validation.fitsTemplate_iff]
  exact forall_congr' fun name =>
    iff_congr mem_names_path_iff.symm Validation.mem_templateNames_iff

def ownerOperation : Operation where
  parameters := [.item { name := "owner", location := "path", required := some true }]
  responses := Dict.ofList [("200", .item { description := "ok" })]

def ownerPath : PathItem where
  get := some ownerOperation
  parameters := [.item { name := "owner", location := "path", required := some true },
    .ref "#/components/parameters/Pet"]

/-- A path with braces around a name in braces, and with braces that enclose no name. -/
def ownerTemplate : String := "/{{owner}}/pets/{pet}/{}"

/-- An operation that is given a parameter of its path anew, and another by a pointer. -/
def ownerDocument : Document where
  openapi := "3.0.0"
  info := { title := "Pets", version := "1" }
  paths := Dict.ofList [(ownerTemplate, ownerPath)]
  components := some {
    parameters := Dict.ofList [
      ("Pet", .item { name := "pet", location := "path", required := some true })] }

theorem document_ownerDocument : Validation.document ownerDocument = [] := by rfl

theorem fitsTemplate_iff_exported_ownerDocument :
    ownerDocument.paths.get? ownerTemplate = some ownerPath ∧
      ownerPath.operation? .get = some ownerOperation ∧
      ∃ i, (convert ownerDocument "3.0.0").operationsAt ownerTemplate "get" = [i] ∧
        ∀ name, name ∈ i.parameters.path.map (·.name) ↔
          Text.Template.IsName ownerTemplate.toList name.toList := by
  obtain ⟨i, hi, hiff⟩ := fitsTemplate_iff_exported ownerDocument "3.0.0" ownerTemplate ownerPath
    .get ownerOperation rfl rfl
  refine ⟨rfl, rfl, i, hi, hiff.1 fun issue hissue => ?_⟩
  rw [document_ownerDocument] at hissue
  cases hissue

end ApiFolio.Export

import ApiFolio.Proofs.Dict.Lookup
import ApiFolio.Proofs.Text.Beginnings
import ApiFolio.Proofs.Text.Template
import ApiFolio.Validation.Document

/-!
# Issues of path parameters

An operation is told three things about its parameters in the path (`mem_pathParameters_iff`): one
of them need not be given, one of them has no place in the template of the path, or a name of the
template has no parameter. The last two are not told exactly if the parameters have the names of
the template (`fitsTemplate_iff`).
-/

namespace ApiFolio.Validation

open OpenApi

/-- The parameters of an operation that stand in the path, where they resolve. -/
def Located.inPath (components : Option Components) (x : Located) : List Parameter :=
  (x.parameters.filterMap (resolve? components)).filter fun p => p.location = "path"

/-- What is said of a path parameter that need not be given. -/
def notRequired (name : String) : String :=
  "path parameter " ++ Text.quoted name ++ " must be required"

/-- What is said of a path parameter that has no place in the template. -/
def notInTemplate (name : String) : String :=
  "path parameter " ++ Text.quoted name ++ " is not in the path template"

/-- What is said of a name in the template without a parameter. -/
def notDeclared (name : String) : String :=
  "path template parameter " ++ Text.quoted name ++ " is not declared"

variable {components : Option Components} {x : Located} {issue : Issue}

theorem mem_pathParameters_iff :
    issue ∈ pathParameters components x ↔ issue.location = x.location ∧
      ((∃ p ∈ x.inPath components, p.required ≠ some true ∧ issue.message = notRequired p.name) ∨
        (∃ p ∈ x.inPath components, p.name ∉ templateNames x.path ∧
          issue.message = notInTemplate p.name) ∨
        ∃ name ∈ templateNames x.path, (∀ p ∈ x.inPath components, p.name ≠ name) ∧
          issue.message = notDeclared name) := by
  obtain ⟨location, message⟩ := issue
  have hif {p : Prop} [Decidable p] {text : String} :
      Issue.mk location message ∈ (if p then [] else [Issue.mk x.location text]) ↔
        ¬p ∧ location = x.location ∧ message = text := by
    by_cases hp : p <;> simp [hp]
  show _ ∈ (x.inPath components).flatMap _ ++ (templateNames x.path).flatMap _ ↔ _
  simp only [List.mem_append, List.mem_flatMap, hif, List.contains_iff_mem, List.any_eq_true,
    decide_eq_true_eq, not_exists, not_and]
  constructor
  · rintro (⟨p, hp, ⟨hrequired, rfl, rfl⟩ | ⟨hname, rfl, rfl⟩⟩ | ⟨name, hname, hp, rfl, rfl⟩)
    · exact ⟨rfl, .inl ⟨p, hp, hrequired, rfl⟩⟩
    · exact ⟨rfl, .inr (.inl ⟨p, hp, hname, rfl⟩)⟩
    · exact ⟨rfl, .inr (.inr ⟨name, hname, hp, rfl⟩)⟩
  · rintro ⟨hlocation, ⟨p, hp, hrequired, hmessage⟩ | ⟨p, hp, hname, hmessage⟩ |
      ⟨name, hname, hp, hmessage⟩⟩
    · exact .inl ⟨p, hp, .inl ⟨hrequired, hlocation, hmessage⟩⟩
    · exact .inl ⟨p, hp, .inr ⟨hname, hlocation, hmessage⟩⟩
    · exact .inr ⟨name, hname, hp, hlocation, hmessage⟩

/-! ## How the issues read -/

/-- A message says of a path parameter that it has no place in the template. -/
def TellsNotInTemplate (message : String) : Prop :=
  ∃ text, message = "path parameter " ++ text ++ " is not in the path template"

/-- A message says of a name in the template that it has no parameter. -/
def TellsNotDeclared (message : String) : Prop :=
  ∃ text, message = "path template parameter " ++ text ++ " is not declared"

theorem tellsNotInTemplate_notInTemplate (name : String) :
    TellsNotInTemplate (notInTemplate name) := ⟨_, rfl⟩

theorem tellsNotDeclared_notDeclared (name : String) : TellsNotDeclared (notDeclared name) :=
  ⟨_, rfl⟩

theorem startsWith_notRequired (name : String) :
    Text.startsWith "path parameter " (notRequired name) = true := by
  unfold notRequired
  rw [String.append_assoc]
  exact Text.startsWith_append _ _

theorem TellsNotInTemplate.startsWith {message : String} (h : TellsNotInTemplate message) :
    Text.startsWith "path parameter " message = true := by
  obtain ⟨text, rfl⟩ := h
  rw [String.append_assoc]
  exact Text.startsWith_append _ _

theorem TellsNotDeclared.startsWith {message : String} (h : TellsNotDeclared message) :
    Text.startsWith "path template parameter " message = true := by
  obtain ⟨text, rfl⟩ := h
  rw [String.append_assoc]
  exact Text.startsWith_append _ _

theorem not_tellsNotDeclared_of_startsWith {message : String}
    (h : Text.startsWith "path parameter " message = true) : ¬TellsNotDeclared message := by
  have hdiverge : Text.Diverge "path parameter " "path template parameter " := by decide
  exact fun h' => hdiverge.not_startsWith h h'.startsWith

theorem not_tellsNotInTemplate_notRequired (name : String) :
    ¬TellsNotInTemplate (notRequired name) := by
  rintro ⟨text, h⟩
  exact Text.append_ne_append (by decide) (by decide) h

theorem location_of_mem_pathParameters (h : issue ∈ pathParameters components x) :
    issue.location = x.location :=
  (mem_pathParameters_iff.1 h).1

theorem startsWith_of_mem_pathParameters (h : issue ∈ pathParameters components x) :
    Text.startsWith "path " issue.message = true := by
  have hparameter : "path ".toList <+: "path parameter ".toList := by decide
  have htemplate : "path ".toList <+: "path template parameter ".toList := by decide
  obtain ⟨-, ⟨p, -, -, hmessage⟩ | ⟨p, -, -, hmessage⟩ | ⟨name, -, -, hmessage⟩⟩ :=
    mem_pathParameters_iff.1 h
  all_goals rw [hmessage, Text.startsWith_iff]
  · exact hparameter.trans (Text.startsWith_iff.1 (startsWith_notRequired _))
  · exact hparameter.trans
      (Text.startsWith_iff.1 (tellsNotInTemplate_notInTemplate p.name).startsWith)
  · exact htemplate.trans
      (Text.startsWith_iff.1 (tellsNotDeclared_notDeclared name).startsWith)

/-! ## Parameters that fit the template -/

/-- The names of a template are those that stand in braces in it. -/
theorem mem_templateNames_iff {path name : String} :
    name ∈ templateNames path ↔ Text.Template.IsName path.toList name.toList := by
  unfold templateNames
  rw [Dict.mem_keys_ofList_iff, ← Text.Template.mem_names_iff, List.map_map, List.mem_map]
  constructor
  · rintro ⟨cs, hcs, rfl⟩
    rw [Function.comp_apply, String.toList_ofList]
    exact hcs
  · intro h
    exact ⟨name.toList, h, String.ofList_toList⟩

/-- An operation is told nothing about its template exactly if its path parameters have the names in
it. -/
theorem fitsTemplate_iff :
    (∀ issue ∈ pathParameters components x,
      ¬TellsNotInTemplate issue.message ∧ ¬TellsNotDeclared issue.message) ↔
      ∀ name, name ∈ (x.inPath components).map (·.name) ↔ name ∈ templateNames x.path := by
  constructor
  · refine fun h name => ⟨fun hname => ?_, fun hname => ?_⟩
    · obtain ⟨p, hp, rfl⟩ := List.mem_map.1 hname
      by_contra hnot
      have hmem : ⟨x.location, notInTemplate p.name⟩ ∈ pathParameters components x :=
        mem_pathParameters_iff.2 ⟨rfl, .inr (.inl ⟨p, hp, hnot, rfl⟩)⟩
      exact (h _ hmem).1 (tellsNotInTemplate_notInTemplate p.name)
    · by_contra hnot
      have hother : ∀ p ∈ x.inPath components, p.name ≠ name :=
        fun p hp heq => hnot (List.mem_map.2 ⟨p, hp, heq⟩)
      have hmem : ⟨x.location, notDeclared name⟩ ∈ pathParameters components x :=
        mem_pathParameters_iff.2 ⟨rfl, .inr (.inr ⟨name, hname, hother, rfl⟩)⟩
      exact (h _ hmem).2 (tellsNotDeclared_notDeclared name)
  · intro h issue hissue
    obtain ⟨-, ⟨p, -, -, hmessage⟩ | ⟨p, hp, hname, -⟩ | ⟨name, hname, hp, -⟩⟩ :=
      mem_pathParameters_iff.1 hissue
    · rw [hmessage]
      exact ⟨not_tellsNotInTemplate_notRequired _,
        not_tellsNotDeclared_of_startsWith (startsWith_notRequired _)⟩
    · exact absurd ((h p.name).1 (List.mem_map_of_mem hp)) hname
    · obtain ⟨p, hmem, heq⟩ := List.mem_map.1 ((h name).2 hname)
      exact absurd heq (hp p hmem)

end ApiFolio.Validation

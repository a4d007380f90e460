import ApiFolio.Export.Conversion
import ApiFolio.Proofs.Text.Filling

/-!
# The address of an environment

The address of a server is filled in everywhere at once: every place of it becomes one thing, which
is told by the names in braces that stand in the address and the variables of the server alone, and
the address of the environment is these things in their order (`baseUrl_environment`). What comes
from a default is never looked at again.
-/

namespace ApiFolio.Export

open OpenApi Text.Template

/-- The default of the variable of a name, if the server has such a variable. -/
def default? (server : Server) (name : List Char) : Option (List Char) :=
  (server.slots.get? (String.ofList name)).map fun v => v.default.toList

/-- Every place of the address of a server becomes one thing, with the defaults of its variables in
place of their names in braces, and the address of the environment puts them together. -/
theorem baseUrl_environment (server : Server) :
    ∃ part : Nat → List Char,
      (∀ j < server.url.toList.length, ∀ out,
        Becomes (default? server) server.url.toList j out ↔ out = part j) ∧
      (environment server).baseUrl =
        String.ofList ((List.range server.url.toList.length).flatMap part) := by
  have htotal : ∀ j, ∃ out, j < server.url.toList.length →
      Becomes (default? server) server.url.toList j out := by
    intro j
    by_cases hj : j < server.url.toList.length
    · obtain ⟨out, hout⟩ := exists_becomes (default? server) hj
      exact ⟨out, fun _ => hout⟩
    · exact ⟨[], fun h => absurd h hj⟩
  choose part hpart using htotal
  refine ⟨part, fun j hj out => ⟨fun hout => hout.unique (hpart j hj), ?_⟩, ?_⟩
  · rintro rfl
    exact hpart j hj
  · exact congrArg String.ofList (fill_eq_flatMap hpart)

/-- The value of one variable reads like the name of another one, and stays as it is. -/
example :
    (environment {
      url := "{{a}}/{c}"
      slots := Dict.ofList [("a", { default := "{b}" }), ("b", { default := "$1" })]
    }).baseUrl = "{{b}}/{c}" := by
  decide

end ApiFolio.Export

import ApiFolio.Proofs.Dict.Listing
import ApiFolio.Proofs.OpenApi.Subschemas

/-!
# Positions in a schema

A schema stands in another at a branch, a keyword with an index where the keyword holds several, and
below it at a list of branches, its position (`Schema.at?`). The nested schemas are those at all
positions, one for each position (`Schema.lists_nested`), so the pointers of a schema are those of
all positions (`Schema.lists_pointers`).
-/

namespace ApiFolio.OpenApi.Schema

/-- Where a schema may stand in another; of several under one keyword, by its index. -/
inductive Branch where
  | items
  | property (n : Nat)
  | allOf (n : Nat)
  | anyOf (n : Nat)
  | oneOf (n : Nat)
  | excluded
  | additional
deriving DecidableEq, Repr

/-- The schema in a branch. -/
def branch? (s : Schema) : Branch → Option Schema
  | .items => s.items
  | .property n => (s.properties.map (·.2))[n]?
  | .allOf n => (s.allOf.getD [])[n]?
  | .anyOf n => (s.anyOf.getD [])[n]?
  | .oneOf n => (s.oneOf.getD [])[n]?
  | .excluded => s.excluded
  | .additional => s.additional.bind (·.2)

/-- The schema at a position: the schema itself at the empty one. -/
def at? (s : Schema) : List Branch → Option Schema
  | [] => some s
  | branch :: rest => (s.branch? branch).bind fun t => t.at? rest

/-- The pointer of the schema at a position. -/
def reference? (s : Schema) (position : List Branch) : Option String :=
  (s.at? position).bind (·.ref)

/-! ## One schema for each position -/

theorem lists_children (s : Schema) : Lists Set.univ s.branch? s.children := by
  have hitems : Lists {.items} s.branch? s.items.toList := .single
  have hproperties : Lists (Set.range Branch.property) s.branch? (s.properties.map (·.2)) :=
    .image (fun _ _ => Branch.property.inj) (lists_getElem? _)
  have hallOf : Lists (Set.range Branch.allOf) s.branch? (s.allOf.getD []) :=
    .image (fun _ _ => Branch.allOf.inj) (lists_getElem? _)
  have hanyOf : Lists (Set.range Branch.anyOf) s.branch? (s.anyOf.getD []) :=
    .image (fun _ _ => Branch.anyOf.inj) (lists_getElem? _)
  have honeOf : Lists (Set.range Branch.oneOf) s.branch? (s.oneOf.getD []) :=
    .image (fun _ _ => Branch.oneOf.inj) (lists_getElem? _)
  have hexcluded : Lists {.excluded} s.branch? s.excluded.toList := .single
  have hadditional : Lists {.additional} s.branch? (s.additional.bind (·.2)).toList := .single
  have hall := (((((hitems.append (by simp) hproperties).append (by simp) hallOf).append (by simp)
    hanyOf).append (by simp) honeOf).append (by simp) hexcluded).append (by simp) hadditional
  refine hall.of_forall fun branch => ?_
  cases branch <;> simp

/-- The nested schemas are those at the positions, one for each. -/
theorem lists_nested (s : Schema) : Lists Set.univ s.at? s.nested := by
  induction s using induction_children with
  | step s ih =>
    -- a position is empty, or leads to a child first
    have hself : Lists {[]} s.at? [s] := .single
    have hbelow : Lists (Set.range fun p : Branch × List Branch => p.1 :: p.2) s.at?
        (s.children.flatMap nested) := by
      refine .image (fun p q h => ?_) ((lists_children s).bind ih)
      exact Prod.ext (List.cons.inj h).1 (List.cons.inj h).2
    rw [nested_eq]
    refine (hself.append ?_ hbelow).of_forall fun position => ?_
    · rintro _ ⟨p, rfl⟩
      simp
    · cases position <;> simp

/-- The pointers of a schema are those at the positions, one for each that has one. -/
theorem lists_pointers (s : Schema) : Lists Set.univ s.reference? s.pointers :=
  s.lists_nested.filterMap ref

end ApiFolio.OpenApi.Schema

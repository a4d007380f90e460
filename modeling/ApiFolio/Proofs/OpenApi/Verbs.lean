import ApiFolio.OpenApi.Operation

/-!
# The verbs of a path item

Every verb is among those that are listed, and a verb is known by its name. So a path item lists an
operation with a verb exactly if it has it under this verb (`PathItem.mem_operations_iff`).
-/

namespace ApiFolio.OpenApi

theorem Verb.mem_all (verb : Verb) : verb ∈ Verb.all := by
  cases verb <;> decide

theorem Verb.name_injective {v w : Verb} (h : v.name = w.name) : v = w := by
  cases v <;> cases w <;> first | rfl | exact absurd h (by decide)

theorem PathItem.mem_operations_iff {item : PathItem} {verb : Verb} {op : Operation} :
    (verb, op) ∈ item.operations ↔ item.operation? verb = some op := by
  unfold PathItem.operations
  rw [List.mem_filterMap]
  constructor
  · rintro ⟨v, -, hv⟩
    obtain ⟨o, ho, heq⟩ := Option.map_eq_some_iff.1 hv
    cases heq
    exact ho
  · intro h
    exact ⟨verb, verb.mem_all, by rw [h]; rfl⟩

end ApiFolio.OpenApi

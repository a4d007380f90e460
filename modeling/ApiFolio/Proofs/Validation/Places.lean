import Mathlib.Data.List.Nodup
import Mathlib.Data.List.Pairwise
import ApiFolio.Proofs.Text.Division
import ApiFolio.Proofs.Validation.Clean

/-!
# The places of operations and schemas

An issue of an operation stands under the path and the verb, with dots between them. A path may
have dots too, but a verb has none, so different operations of a document have different places
(`nodup_locations`), and none of them is that of a component schema (`location_ne_schemaPlace`).
-/

namespace ApiFolio.Validation

open OpenApi

variable {doc : Document} {x y : Located} {key other : String} {item : PathItem} {verb v : Verb}
  {op : Operation}

theorem mem_documentOperations_iff :
    x ∈ documentOperations doc ↔
      ∃ key item verb op, doc.paths.get? key = some item ∧ item.operation? verb = some op ∧
        x = placeOf key item verb op := by
  constructor
  · intro h
    obtain ⟨⟨key, item⟩, he, hx⟩ := List.mem_flatMap.1 h
    obtain ⟨⟨verb, op⟩, hop, rfl⟩ := List.mem_map.1 hx
    exact ⟨key, item, verb, op, (Dict.mem_entries _).1 he, PathItem.mem_operations_iff.1 hop, rfl⟩
  · rintro ⟨key, item, verb, op, hitem, hop, rfl⟩
    exact placeOf_mem_documentOperations hitem hop

/-! ## Different operations have different places -/

/-- The place of the operation with a verb of a path. -/
def operationPlace (key : String) (verb : Verb) : String := "paths." ++ key ++ "." ++ verb.name

theorem dot_notMem_name (verb : Verb) : '.' ∉ verb.name.toList := by
  cases verb <;> decide

theorem toList_operationPlace (key : String) (verb : Verb) :
    (operationPlace key verb).toList =
      "paths.".toList ++ key.toList ++ '.' :: verb.name.toList := by
  unfold operationPlace
  rw [String.toList_append, String.toList_append, String.toList_append, List.append_assoc]
  rfl

theorem operationPlace_eq_iff :
    operationPlace key verb = operationPlace other v ↔ key = other ∧ verb = v := by
  rw [← String.toList_inj, toList_operationPlace, toList_operationPlace,
    Text.append_cons_inj_of_notMem_right (dot_notMem_name verb) (dot_notMem_name v),
    List.append_cancel_left_eq, String.toList_inj, String.toList_inj]
  exact and_congr_right fun _ => ⟨fun h => Verb.name_injective h, congrArg Verb.name⟩

theorem operationPlace_ne_schemaPlace (key : String) (verb : Verb) (name : String) :
    operationPlace key verb ≠ schemaPlace name := by
  intro h
  have hpaths : Text.startsWith "paths." (operationPlace key verb) = true := by
    unfold operationPlace
    rw [String.append_assoc, String.append_assoc]
    exact Text.startsWith_append _ _
  have hschemas : Text.startsWith "components.schemas." (schemaPlace name) = true :=
    Text.startsWith_append _ _
  have hdiverge : Text.Diverge "paths." "components.schemas." := by decide
  exact hdiverge.not_startsWith hpaths (h ▸ hschemas)

theorem schemaPlace_injective {name other : String} (h : schemaPlace name = schemaPlace other) :
    name = other :=
  (String.append_right_inj _).1 h

/-- An operation of a document is known by its place. -/
theorem eq_of_location_eq (hx : x ∈ documentOperations doc) (hy : y ∈ documentOperations doc)
    (h : x.location = y.location) : x = y := by
  obtain ⟨key, item, verb, op, hitem, hop, rfl⟩ := mem_documentOperations_iff.1 hx
  obtain ⟨other, item', v, op', hitem', hop', rfl⟩ := mem_documentOperations_iff.1 hy
  obtain ⟨rfl, rfl⟩ := operationPlace_eq_iff.1 h
  cases hitem.symm.trans hitem'
  cases hop.symm.trans hop'
  rfl

theorem location_ne_schemaPlace (hx : x ∈ documentOperations doc) (name : String) :
    x.location ≠ schemaPlace name := by
  obtain ⟨key, item, verb, op, -, -, rfl⟩ := mem_documentOperations_iff.1 hx
  exact operationPlace_ne_schemaPlace key verb name

theorem nodup_operations (item : PathItem) : (item.operations.map (·.1)).Nodup := by
  unfold PathItem.operations
  rw [List.map_filterMap]
  refine List.Nodup.filterMap (fun v w x hv hw => ?_) (by decide : Verb.all.Nodup)
  simp only [Option.map_map, Option.mem_def, Option.map_eq_some_iff] at hv hw
  obtain ⟨a, -, rfl⟩ := hv
  obtain ⟨b, -, hb⟩ := hw
  exact hb.symm

theorem locations_located (key : String) (item : PathItem) :
    (located key item).map (·.location) =
      item.operations.map fun vo => operationPlace key vo.1 := by
  unfold located
  rw [List.map_map]
  rfl

/-- The operations of a document have different places. -/
theorem nodup_locations (doc : Document) : ((documentOperations doc).map (·.location)).Nodup := by
  unfold documentOperations
  rw [List.map_flatMap, List.nodup_flatMap]
  constructor
  · rintro ⟨key, item⟩ -
    rw [locations_located, ← Function.comp_def (operationPlace key) Prod.fst, ← List.map_map]
    exact (nodup_operations item).map fun v w h => (operationPlace_eq_iff.1 h).2
  · refine doc.paths.sorted.imp fun {e f} hlt => ?_
    show List.Disjoint ((located e.1 e.2).map _) ((located f.1 f.2).map _)
    rw [locations_located, locations_located]
    intro place he hf
    obtain ⟨vo, -, rfl⟩ := List.mem_map.1 he
    obtain ⟨wo, -, heq⟩ := List.mem_map.1 hf
    rw [(operationPlace_eq_iff.1 heq).1] at hlt
    exact String.lt_irrefl _ hlt

end ApiFolio.Validation

import ApiFolio.Proofs.Export.Parameters

/-!
# What each bucket holds

Merging treats the parameters of each place by themselves (`filter_merge`). So a bucket holds one
entry for each name in its place, in the order in which the names come first, made of the last
parameter with this name and place (`exactBucket`), whatever the parameters of other places are.
The parameters are those to which the entries of the path and then those of the operation resolve
(`exactBuckets_apiItem`).
-/

namespace ApiFolio.Export.Surroundings

open OpenApi

/-! ## Parameters of one place -/

theorem filter_mergeParameter (place : String) (ps : List Parameter) (p : Parameter) :
    (mergeParameter ps p).filter (fun q => q.location = place) =
      if p.location = place then mergeParameter (ps.filter fun q => q.location = place) p
      else ps.filter fun q => q.location = place := by
  induction ps with
  | nil => by_cases hp : p.location = place <;> simp [mergeParameter, hp]
  | cons q rest ih =>
    rw [mergeParameter_cons]
    by_cases hkey : q.key = p.key
    · have hlocation : q.location = p.location := congrArg Prod.snd hkey
      rw [if_pos hkey, List.filter_cons, List.filter_cons, hlocation]
      by_cases hp : p.location = place
      · simp [hp, mergeParameter_cons, hkey]
      · simp [hp]
    · rw [if_neg hkey, List.filter_cons, List.filter_cons, ih]
      by_cases hp : p.location = place
      · by_cases hq : q.location = place
        · simp [hp, hq, mergeParameter_cons, hkey]
        · simp [hp, hq]
      · simp [hp]

/-- What remains of the parameters in one place is what remains of them by themselves. -/
theorem filter_merge (place : String) (ps : List Parameter) :
    (merge ps).filter (fun p => p.location = place) =
      merge (ps.filter fun p => p.location = place) := by
  induction ps using List.reverseRecOn with
  | nil => rfl
  | append_singleton ps p ih =>
    rw [merge_append, filter_mergeParameter, ih, List.filter_append]
    by_cases hp : p.location = place
    · rw [if_pos hp, List.filter_cons_of_pos (by simpa using hp), List.filter_nil, merge_append]
    · rw [if_neg hp, List.filter_cons_of_neg (by simpa using hp), List.filter_nil,
        List.append_nil]

theorem eraseDups_map {α β : Type} [BEq α] [LawfulBEq α] [BEq β] [LawfulBEq β] {f : α → β}
    (hf : Function.Injective f) (ks : List α) : (ks.map f).eraseDups = ks.eraseDups.map f := by
  induction ks using List.reverseRecOn with
  | nil => rfl
  | append_singleton ks k ih =>
    rw [List.map_append, List.map_singleton, eraseDups_concat, eraseDups_concat, ih]
    simp only [List.mem_map_of_injective hf]
    split
    · rfl
    · rw [List.map_append, List.map_singleton]

/-- The names of the parameters in one place, each where it comes first. -/
def namesIn (place : String) (ps : List Parameter) : List String :=
  ((ps.filter fun p => p.location = place).map (·.name)).eraseDups

theorem map_name_filter_merge (place : String) (ps : List Parameter) :
    ((merge ps).filter fun p => p.location = place).map (·.name) = namesIn place ps := by
  -- in one place the key of a parameter is told by its name
  have hkey {qs : List Parameter} (hqs : ∀ q ∈ qs, q.location = place) :
      qs.map Parameter.key = (qs.map (·.name)).map (·, place) := by
    rw [List.map_map]
    refine List.map_congr_left fun q hq => ?_
    rw [← hqs q hq]
    rfl
  have hinjective : Function.Injective fun name : String => (name, place) :=
    fun a b h => congrArg Prod.fst h
  have hplace (qs : List Parameter) : ∀ q ∈ qs.filter (fun p => p.location = place),
      q.location = place := fun q hq => by simpa using (List.mem_filter.1 hq).2
  refine List.map_injective_iff.2 hinjective ?_
  rw [← hkey (hplace _), filter_merge, keys_merge, hkey (hplace _), eraseDups_map hinjective]
  rfl

/-! ## Buckets -/

/-- A bucket holds one entry for each name in its place, in the order in which the names come first,
and each is made of the last parameter with this name and place. -/
structure ExactBucket (place : String) (ps : List Parameter) (items : List ParameterItem) :
    Prop where
  names : items.map (·.name) = namesIn place ps
  nodup : (items.map (·.name)).Nodup
  last : ∀ x ∈ items, ∃ p ∈ ps, p.name = x.name ∧ p.location = place ∧ IsLast p ps ∧
    x = parameterItem p

theorem exactBucket (place : String) (ps : List Parameter) :
    ExactBucket place ps (bucket place (merge ps)) := by
  have hnames : (bucket place (merge ps)).map (·.name) =
      ((merge ps).filter fun p => p.location = place).map (·.name) := by
    unfold bucket
    rw [List.map_map]
    rfl
  refine ⟨hnames.trans (map_name_filter_merge place ps), ?_, fun x hx => ?_⟩
  · rw [hnames]
    rw [map_name_filter_merge]
    exact nodup_eraseDups _
  · obtain ⟨p, hp, rfl⟩ := List.mem_map.1 hx
    obtain ⟨hmem, hplace⟩ := List.mem_filter.1 hp
    have hlast := mem_merge_iff.1 hmem
    exact ⟨p, hlast.mem, rfl, by simpa using hplace, hlast, rfl⟩

/-! ## Exported operations -/

variable (around : Surroundings)

/-- An entry of a parameter list resolves to the parameter that it is, or to the one that stands
among the components under the name in its pointer. -/
def ResolvesTo (components : Option Components) (entry : Referable Parameter) (p : Parameter) :
    Prop :=
  entry = .item p ∨ ∃ pointer found name, entry = .ref pointer ∧ components = some found ∧
    Pointer.name? pointer "parameters" = some name ∧ found.parameters.get? name = some (.item p)

theorem parameter?_eq_some_iff {entry : Referable Parameter} {p : Parameter} :
    around.parameter? entry = some p ↔ ResolvesTo around.components entry p := by
  cases entry with
  | item q =>
    constructor
    · intro h
      exact .inl (congrArg _ (Option.some.inj h))
    · rintro (h | ⟨_, _, _, h, -⟩)
      · cases h
        rfl
      · cases h
  | ref pointer =>
    unfold parameter? Components.parameter?
    rw [Option.bind_eq_some_iff]
    constructor
    · rintro ⟨components, hcomponents, hlook⟩
      obtain ⟨name, hname, hget⟩ := Components.lookUp?_eq_some_iff.1 hlook
      exact .inr ⟨pointer, components, name, rfl, hcomponents, hname, hget⟩
    · rintro (h | ⟨_, components, name, h, hcomponents, hname, hget⟩)
      · cases h
      · cases h
        exact ⟨components, hcomponents, Components.lookUp?_eq_some_iff.2 ⟨name, hname, hget⟩⟩

/-- The buckets of an exported operation are exact for the parameters to which the entries of its
path and then its own entries resolve. -/
theorem exactBuckets_apiItem (path method : String) (item : PathItem) (op : Operation)
    (webhook : Bool) :
    (∀ entry p, around.parameter? entry = some p ↔ ResolvesTo around.components entry p) ∧
      ∃ ps, ps = (item.parameters ++ op.parameters).filterMap around.parameter? ∧
        ExactBucket "path" ps (around.apiItem path method item op webhook).parameters.path ∧
        ExactBucket "query" ps (around.apiItem path method item op webhook).parameters.query ∧
        ExactBucket "header" ps (around.apiItem path method item op webhook).parameters.header ∧
        ExactBucket "cookie" ps (around.apiItem path method item op webhook).parameters.cookie :=
  ⟨fun _ _ => parameter?_eq_some_iff around, _, rfl, exactBucket "path" _, exactBucket "query" _,
    exactBucket "header" _, exactBucket "cookie" _⟩

end ApiFolio.Export.Surroundings

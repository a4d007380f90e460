import ApiFolio.OpenApi.Schema
import ApiFolio.Proofs.Record.Written

/-!
# The fields of a schema by keyword

A schema is its fields, one for each keyword, and its other members (`ext_field`). What reading
gives is stated once for all keywords: the field of a keyword is read from the member of its name,
and all members without a keyword are kept (`ofMembers?_eq_some_iff`). What is written is stated in
the same way (`last?_toMembers`), and nothing is written for the empty schema only (`isEmpty_iff`).
-/

namespace ApiFolio.OpenApi.Schema

/-- What the field of a keyword holds. -/
def Slot : Keyword → Type
  | .ref | .format | .title | .description => Option String
  | .type | .default | .sample | .required => Option Json
  | .choices => Option (List Json)
  | .nullable | .deprecated | .readOnly | .writeOnly => Option Bool
  | .properties => List (String × Schema)
  | .additional => Option (Json × Option Schema)
  | .items | .excluded => Option Schema
  | .allOf | .anyOf | .oneOf => Option (List Schema)

/-- The field of a keyword. -/
def field (s : Schema) : (k : Keyword) → Slot k
  | .ref => s.ref
  | .type => s.type
  | .format => s.format
  | .title => s.title
  | .description => s.description
  | .default => s.default
  | .sample => s.sample
  | .choices => s.choices
  | .nullable => s.nullable
  | .deprecated => s.deprecated
  | .readOnly => s.readOnly
  | .writeOnly => s.writeOnly
  | .required => s.required
  | .properties => s.properties
  | .additional => s.additional
  | .items => s.items
  | .allOf => s.allOf
  | .anyOf => s.anyOf
  | .oneOf => s.oneOf
  | .excluded => s.excluded

/-- The schema with another value in the field of a keyword. -/
def setField (s : Schema) : (k : Keyword) → Slot k → Schema
  | .ref, x => { s with ref := x }
  | .type, x => { s with type := x }
  | .format, x => { s with format := x }
  | .title, x => { s with title := x }
  | .description, x => { s with description := x }
  | .default, x => { s with default := x }
  | .sample, x => { s with sample := x }
  | .choices, x => { s with choices := x }
  | .nullable, x => { s with nullable := x }
  | .deprecated, x => { s with deprecated := x }
  | .readOnly, x => { s with readOnly := x }
  | .writeOnly, x => { s with writeOnly := x }
  | .required, x => { s with required := x }
  | .properties, x => { s with properties := x }
  | .additional, x => { s with additional := x }
  | .items, x => { s with items := x }
  | .allOf, x => { s with allOf := x }
  | .anyOf, x => { s with anyOf := x }
  | .oneOf, x => { s with oneOf := x }
  | .excluded, x => { s with excluded := x }

/-- Two schemas with the same fields and the same other members are equal. -/
theorem ext_field {a b : Schema} (h : ∀ k, a.field k = b.field k) (he : a.extra = b.extra) :
    a = b := by
  have href : a.ref = b.ref := h .ref
  have htype : a.type = b.type := h .type
  have hformat : a.format = b.format := h .format
  have htitle : a.title = b.title := h .title
  have hdescription : a.description = b.description := h .description
  have hdefault : a.default = b.default := h .default
  have hsample : a.sample = b.sample := h .sample
  have hchoices : a.choices = b.choices := h .choices
  have hnullable : a.nullable = b.nullable := h .nullable
  have hdeprecated : a.deprecated = b.deprecated := h .deprecated
  have hreadOnly : a.readOnly = b.readOnly := h .readOnly
  have hwriteOnly : a.writeOnly = b.writeOnly := h .writeOnly
  have hrequired : a.required = b.required := h .required
  have hproperties : a.properties = b.properties := h .properties
  have hadditional : a.additional = b.additional := h .additional
  have hitems : a.items = b.items := h .items
  have hallOf : a.allOf = b.allOf := h .allOf
  have hanyOf : a.anyOf = b.anyOf := h .anyOf
  have honeOf : a.oneOf = b.oneOf := h .oneOf
  have hexcluded : a.excluded = b.excluded := h .excluded
  cases a
  cases b
  simp_all only

theorem field_setField_self (s : Schema) (k : Keyword) (x : Slot k) :
    (s.setField k x).field k = x := by
  cases k <;> rfl

theorem field_setField_of_ne (s : Schema) {k l : Keyword} (x : Slot k) (h : k ≠ l) :
    (s.setField k x).field l = s.field l := by
  cases k <;> cases l <;> first | rfl | exact absurd rfl h

theorem extra_setField (s : Schema) (k : Keyword) (x : Slot k) :
    (s.setField k x).extra = s.extra := by
  cases k <;> rfl

theorem field_with_extra (s : Schema) (extra : Dict Json) (k : Keyword) :
    ({ s with extra := extra } : Schema).field k = s.field k := by
  cases k <;> rfl

/-! ## Names of keywords -/

theorem Keyword.mem_all (k : Keyword) : k ∈ Keyword.all := by
  cases k <;> decide

theorem Keyword.name_injective {k l : Keyword} (h : k.name = l.name) : k = l := by
  cases k <;> cases l <;> first | rfl | exact absurd h (by decide)

theorem Keyword.ofName?_name (k : Keyword) : Keyword.ofName? k.name = some k := by
  cases k <;> decide

theorem Keyword.name_of_ofName? {name : String} {k : Keyword} (h : Keyword.ofName? name = some k) :
    k.name = name := by
  have := List.find?_some h
  simpa using this

theorem Keyword.ofName?_eq_some_iff (name : String) (k : Keyword) :
    Keyword.ofName? name = some k ↔ k.name = name := by
  refine ⟨Keyword.name_of_ofName?, ?_⟩
  rintro rfl
  exact Keyword.ofName?_name k

theorem Keyword.ofName?_eq_none {name : String} (h : Keyword.ofName? name = none) (k : Keyword) :
    k.name ≠ name := by
  intro heq
  rw [← heq, Keyword.ofName?_name] at h
  cases h

/-! ## Reading -/

/-- Reads the schemas of properties from an object. -/
def readProperties? : Json → Option (List (String × Schema))
  | .obj members => ofProperties? members
  | _ => none

/-- Reads a list of schemas from an array. -/
def readSchemas? : Json → Option (List Schema)
  | .arr vs => ofItems? vs
  | _ => none

/-- Reads the field of a keyword. -/
def readField : (k : Keyword) → Json → Option (Slot k)
  | .ref | .format | .title | .description => presentAs? Json.text?
  | .type | .default | .sample | .required => fun v => some (present v)
  | .choices => presentAs? Json.items?
  | .nullable | .deprecated | .readOnly | .writeOnly => presentAs? Json.bool?
  | .properties => readProperties?
  | .additional => fun v => some ((present v).map fun w => (w, ofJson? w))
  | .items | .excluded => presentAs? ofJson?
  | .allOf | .anyOf | .oneOf => presentAs? readSchemas?

/-- Reads the field of a keyword that may be absent. -/
def readFieldAt (k : Keyword) : Option Json → Option (Slot k)
  | none => some (({} : Schema).field k)
  | some v => readField k v

theorem ofMembers?_cons_of_none {name : String} (h : Keyword.ofName? name = none) (v : Json)
    (rest : List (String × Json)) :
    ofMembers? ((name, v) :: rest) =
      (ofMembers? rest).map fun s => { s with extra := s.extra.insert name v } := by
  rw [ofMembers?, h]
  cases ofMembers? rest <;> rfl

theorem map_presentAs? {α β : Type} (read : Json → Option α) (f : Option α → β) (v : Json) :
    (presentAs? read v).map f =
      match v with
      | .null => some (f none)
      | w => (read w).map fun x => f (some x) := by
  cases v
  case null => rfl
  all_goals
    show ((read _).map some).map f = _
    rw [Option.map_map]
    rfl

theorem ofMembers?_cons_name (k : Keyword) (v : Json) (rest : List (String × Json)) :
    ofMembers? ((k.name, v) :: rest) =
      (ofMembers? rest).bind fun s => (readField k v).map (s.setField k) := by
  rw [ofMembers?, Keyword.ofName?_name]
  cases ofMembers? rest with
  | none => rfl
  | some s =>
    cases k
    case properties | additional => cases v <;> rfl
    case items =>
      refine Eq.trans ?_ (map_presentAs? ofJson? (s.setField .items) v).symm
      cases v <;> rfl
    case excluded =>
      refine Eq.trans ?_ (map_presentAs? ofJson? (s.setField .excluded) v).symm
      cases v <;> rfl
    case allOf =>
      refine Eq.trans ?_ (map_presentAs? readSchemas? (s.setField .allOf) v).symm
      cases v <;> rfl
    case anyOf =>
      refine Eq.trans ?_ (map_presentAs? readSchemas? (s.setField .anyOf) v).symm
      cases v <;> rfl
    case oneOf =>
      refine Eq.trans ?_ (map_presentAs? readSchemas? (s.setField .oneOf) v).symm
      cases v <;> rfl
    all_goals rfl

variable {members : List (String × Json)} {s : Schema}

/-- Every field is read from the member of its keyword, whatever the order of the members. -/
theorem readFieldAt_of_ofMembers? (hs : Entries.Sorted members)
    (h : ofMembers? members = some s) (k : Keyword) :
    readFieldAt k (Entries.get? k.name members) = some (s.field k) := by
  induction members generalizing s with
  | nil =>
    rw [ofMembers?] at h
    cases h
    rfl
  | cons m rest ih =>
    obtain ⟨name, v⟩ := m
    have hrest := List.pairwise_cons.1 hs
    rw [Entries.get?_cons]
    cases hname : Keyword.ofName? name with
    | none =>
      rw [ofMembers?_cons_of_none hname] at h
      obtain ⟨s', hs', rfl⟩ := Option.map_eq_some_iff.1 h
      rw [if_neg fun heq => Keyword.ofName?_eq_none hname k heq.symm, field_with_extra]
      exact ih hrest.2 hs'
    | some l =>
      cases Keyword.name_of_ofName? hname
      rw [ofMembers?_cons_name] at h
      obtain ⟨s', hs', hread⟩ := Option.bind_eq_some_iff.1 h
      obtain ⟨x, hx, rfl⟩ := Option.map_eq_some_iff.1 hread
      by_cases hkl : l = k
      · subst hkl
        rw [if_pos rfl, field_setField_self]
        exact hx
      · rw [if_neg fun heq => hkl (Keyword.name_injective heq), field_setField_of_ne _ _ hkl]
        exact ih hrest.2 hs'

/-- Every member without a keyword is kept, and no other. -/
theorem extra_of_ofMembers? (h : ofMembers? members = some s) (name : String) :
    s.extra.get? name =
      if (Keyword.ofName? name).isSome then none else Entries.get? name members := by
  induction members generalizing s with
  | nil =>
    rw [ofMembers?] at h
    cases h
    split <;> rfl
  | cons m rest ih =>
    obtain ⟨name', v⟩ := m
    rw [Entries.get?_cons]
    cases hname : Keyword.ofName? name' with
    | none =>
      rw [ofMembers?_cons_of_none hname] at h
      obtain ⟨s', hs', rfl⟩ := Option.map_eq_some_iff.1 h
      show (s'.extra.insert name' v).get? name = _
      rw [Dict.get?_insert, ih hs']
      by_cases heq : name' = name
      · subst heq
        simp [hname]
      · rw [if_neg heq, if_neg heq]
    | some l =>
      cases Keyword.name_of_ofName? hname
      rw [ofMembers?_cons_name] at h
      obtain ⟨s', hs', hread⟩ := Option.bind_eq_some_iff.1 h
      obtain ⟨x, -, rfl⟩ := Option.map_eq_some_iff.1 hread
      rw [extra_setField, ih hs']
      by_cases heq : l.name = name
      · rw [← heq, hname]
        rfl
      · rw [if_neg heq]

theorem exists_ofMembers? (hs : Entries.Sorted members)
    (h : ∀ k, (readFieldAt k (Entries.get? k.name members)).isSome) :
    ∃ s, ofMembers? members = some s := by
  induction members with
  | nil => exact ⟨{}, rfl⟩
  | cons m rest ih =>
    obtain ⟨name, v⟩ := m
    have hrest := List.pairwise_cons.1 hs
    have habsent : Entries.get? name rest = none := Entries.get?_eq_none_iff.2 fun e he heq =>
      String.lt_irrefl _ (heq ▸ hrest.1 e he)
    obtain ⟨s, hsome⟩ := ih hrest.2 fun k => by
      have hk := h k
      rw [Entries.get?_cons] at hk
      by_cases heq : name = k.name
      · rw [← heq, habsent]
        rfl
      · rwa [if_neg heq] at hk
    cases hname : Keyword.ofName? name with
    | none =>
      rw [ofMembers?_cons_of_none hname, hsome]
      exact ⟨_, rfl⟩
    | some k =>
      cases Keyword.name_of_ofName? hname
      have hk := h k
      rw [Entries.get?_cons, if_pos rfl] at hk
      obtain ⟨x, hx⟩ := Option.isSome_iff_exists.1 hk
      rw [ofMembers?_cons_name, hsome]
      exact ⟨s.setField k x, by rw [Option.bind_some, show readField k v = some x from hx]; rfl⟩

/-- What the members of a schema read as. -/
theorem ofMembers?_eq_some_iff (hs : Entries.Sorted members) :
    ofMembers? members = some s ↔
      (∀ k, readFieldAt k (Entries.get? k.name members) = some (s.field k)) ∧
      ∀ name, s.extra.get? name =
        if (Keyword.ofName? name).isSome then none else Entries.get? name members := by
  constructor
  · exact fun h => ⟨readFieldAt_of_ofMembers? hs h, extra_of_ofMembers? h⟩
  · rintro ⟨hfields, hextra⟩
    obtain ⟨t, ht⟩ := exists_ofMembers? hs fun k => by rw [hfields k]; rfl
    have heq : t = s := by
      refine ext_field (fun k => ?_) (Dict.ext_get? fun name => ?_)
      · have hk := readFieldAt_of_ofMembers? hs ht k
        rw [hfields k] at hk
        exact (Option.some.inj hk).symm
      · rw [extra_of_ofMembers? ht, hextra]
    rw [ht, heq]

/-! ## Writing -/

theorem toItems_eq (schemas : List Schema) : toItems schemas = schemas.map toJson := by
  induction schemas with
  | nil => rfl
  | cons s rest ih =>
    rw [toItems, ih]
    rfl

theorem toPropertyMembers_eq (properties : List (String × Schema)) :
    toPropertyMembers properties = Entries.mapValues toJson properties := by
  induction properties with
  | nil => rfl
  | cons e rest ih =>
    obtain ⟨name, s⟩ := e
    rw [toPropertyMembers, ih]
    rfl

/-- What is written for the field of a keyword. -/
def writeField : (k : Keyword) → Slot k → Option Json
  | .ref, x | .format, x | .title, x | .description, x => Option.map Json.str x
  | .type, x | .default, x | .sample, x | .required, x => x
  | .choices, x => Option.map Json.arr x
  | .nullable, x | .deprecated, x | .readOnly, x | .writeOnly, x => Option.map Json.bool x
  | .properties, x => if List.isEmpty x then none else some (.obj (toPropertyMembers x))
  | .additional, x => Option.map Prod.fst x
  | .items, x | .excluded, x => Option.map toJson x
  | .allOf, x | .anyOf, x | .oneOf, x => Option.map (fun schemas => .arr (toItems schemas)) x

theorem toOptionMember_eq (name : String) (x : Option Schema) :
    toOptionMember name x = Record.putOption name id (x.map toJson) := by
  cases x <;> rfl

theorem toListMember_eq (name : String) (x : Option (List Schema)) :
    toListMember name x =
      Record.putOption name id (x.map fun schemas => .arr (toItems schemas)) := by
  cases x <;> rfl

/-- A schema writes its fields in the order of the keywords, then its other members. -/
theorem toMembers_eq (s : Schema) :
    s.toMembers =
      (Keyword.all.flatMap fun k => Record.putOption k.name id (writeField k (s.field k)))
        ++ s.extra.entries := by
  cases s with
  | mk ref type format title description default sample choices nullable deprecated readOnly
      writeOnly required properties additional items allOf anyOf oneOf excluded extra =>
    have hproperties : (if properties.isEmpty then []
        else [(Keyword.properties.name, Json.obj (toPropertyMembers properties))]) =
        Record.putOption Keyword.properties.name id (writeField .properties properties) := by
      unfold writeField
      cases properties <;> rfl
    unfold toMembers
    simp only [hproperties, toOptionMember_eq, toListMember_eq]
    simp only [Record.putOption_eq _ Json.str, Record.putOption_eq _ Json.bool,
      Record.putOption_eq _ Json.arr, Record.putOption_eq _ (fun v => Prod.fst v)]
    simp only [Keyword.all, List.flatMap_cons, List.flatMap_nil, List.append_assoc,
      List.append_nil]
    rfl

/-- Nothing is written for a field that is as in the empty schema, and only for such a field. -/
theorem writeField_eq_none_iff (k : Keyword) (x : Slot k) :
    writeField k x = none ↔ x = ({} : Schema).field k := by
  cases k
  case type | default | sample | required => exact Iff.rfl
  case properties =>
    cases (x : List (String × Schema)) with
    | nil => exact iff_of_true rfl rfl
    | cons e rest => exact iff_of_false (Option.some_ne_none _) (List.cons_ne_nil _ _)
  all_goals exact Option.map_eq_none_iff

/-- A schema that says nothing is the empty one. -/
theorem isEmpty_iff {s : Schema} : s.isEmpty = true ↔ s = {} := by
  constructor
  · intro h
    have hmembers := List.isEmpty_iff.1 h
    rw [toMembers_eq, List.append_eq_nil_iff, List.flatMap_eq_nil_iff] at hmembers
    refine ext_field (fun k => ?_) (Dict.ext hmembers.2)
    rw [← writeField_eq_none_iff]
    have hput := hmembers.1 k k.mem_all
    cases hwrite : writeField k (s.field k) with
    | none => rfl
    | some v =>
      rw [hwrite] at hput
      cases hput
  · rintro rfl
    rfl

/-- The last member that a schema writes under a name. -/
theorem last?_toMembers (s : Schema) (name : String) :
    Entries.last? name s.toMembers =
      (s.extra.get? name).or ((Keyword.ofName? name).bind fun k => writeField k (s.field k)) := by
  rw [toMembers_eq, Entries.last?_append,
    Record.last?_flatMap_putOption Keyword.ofName?_eq_some_iff,
    Entries.last?_of_sorted s.extra.sorted]
  simp only [Keyword.mem_all, if_true]
  rfl

end ApiFolio.OpenApi.Schema

import ApiFolio.Proofs.Export.Buckets

/-!
# Looking up components

Request bodies are followed from alias to alias; parameters, responses and security schemes are
looked up in one step. A look-up gives the object that stands under the name in a pointer, and
nothing where an alias stands there, whether the chain of aliases from there ends or not
(`lookUps_oneStep`). So of the chains that end at an object only those without an alias on them
reach the export.
-/

namespace ApiFolio

open OpenApi

namespace OpenApi.Components

section

variable {α : Type}

/-- Following the entries of an area by name from a pointer passes a number of entries that are
pointers themselves, and ends at an object. -/
inductive EndsAt (area : String) (table : Dict (Referable α)) : Nat → String → α → Prop where
  | here {pointer name : String} {x : α} (hname : Pointer.name? pointer area = some name)
      (hget : table.get? name = some (.item x)) : EndsAt area table 0 pointer x
  | next {aliases : Nat} {pointer name target : String} {x : α}
      (hname : Pointer.name? pointer area = some name)
      (hget : table.get? name = some (.ref target)) (rest : EndsAt area table aliases target x) :
      EndsAt area table (aliases + 1) pointer x

/-- The pointer names an entry that is a pointer itself, wherever that leads. -/
def NamesAlias (area : String) (table : Dict (Referable α)) (pointer : String) : Prop :=
  ∃ name target, Pointer.name? pointer area = some name ∧ table.get? name = some (.ref target)

variable {area pointer : String} {table : Dict (Referable α)} {x : α}

theorem endsAt_zero_iff : EndsAt area table 0 pointer x ↔ lookUp? area table pointer = some x := by
  rw [lookUp?_eq_some_iff]
  constructor
  · intro h
    cases h with
    | here hname hget => exact ⟨_, hname, hget⟩
  · rintro ⟨name, hname, hget⟩
    exact .here hname hget

theorem lookUp?_of_namesAlias (h : NamesAlias area table pointer) :
    lookUp? area table pointer = none := by
  obtain ⟨name, target, hname, hget⟩ := h
  rw [Option.eq_none_iff_forall_ne_some]
  intro x hx
  obtain ⟨name', hname', hget'⟩ := lookUp?_eq_some_iff.1 hx
  rw [hname] at hname'
  cases hname'
  rw [hget] at hget'
  cases hget'

/-- A chain that ends at an object starts there or with an alias. -/
theorem EndsAt.lookUp?_eq {aliases : Nat} (h : EndsAt area table aliases pointer x) :
    lookUp? area table pointer = if aliases = 0 then some x else none := by
  cases h with
  | here hname hget => exact lookUp?_eq_some_iff.2 ⟨_, hname, hget⟩
  | next hname hget _ => exact lookUp?_of_namesAlias ⟨_, _, hname, hget⟩

/-- A chain with an alias on it is lost. -/
theorem EndsAt.lost {aliases : Nat} (h : EndsAt area table (aliases + 1) pointer x) :
    lookUp? area table pointer ≠ some x := by
  rw [h.lookUp?_eq, if_neg (Nat.succ_ne_zero aliases)]
  exact Option.some_ne_none x ∘ Eq.symm

/-- What a look-up finds is one step away: the object at the end of a chain without aliases, and
nothing behind an alias, also where the chain from it goes on forever. -/
structure OneStep (area : String) (table : Dict (Referable α)) (pointer : String)
    (found : Option α) : Prop where
  endsAt : ∀ x, found = some x → EndsAt area table 0 pointer x
  chain : ∀ aliases x, EndsAt area table aliases pointer x →
    found = if aliases = 0 then some x else none
  behind : NamesAlias area table pointer → found = none

theorem oneStep_lookUp? (area : String) (table : Dict (Referable α)) (pointer : String) :
    OneStep area table pointer (lookUp? area table pointer) where
  endsAt _ := endsAt_zero_iff.2
  chain _ _ := EndsAt.lookUp?_eq
  behind := lookUp?_of_namesAlias

end

end OpenApi.Components

namespace Export

open Components (EndsAt NamesAlias OneStep)

variable {components : Components} {pointer : String}

/-! ## Parameters -/

/-- An operation with the pointer among its parameters is exported with the parameter that stands
under the name in it, and as if the pointer was not there if an alias stands there. -/
def ExportsParameter (components : Components) (pointer : String) : Prop :=
  ∀ (around : Surroundings) (item : PathItem) (op : Operation)
    (before after : List (Referable Parameter)), around.components = some components →
    item.parameters ++ op.parameters = before ++ .ref pointer :: after →
    (∀ p, EndsAt "parameters" components.parameters 0 pointer p →
      p.location ∈ Validation.parameterLocations → p.key ∈ (around.parameters item op).keys) ∧
    (NamesAlias "parameters" components.parameters pointer →
      ∀ (item' : PathItem) (op' : Operation),
        item'.parameters ++ op'.parameters = before ++ after →
        around.parameters item op = around.parameters item' op')

theorem exportsParameter (components : Components) (pointer : String) :
    ExportsParameter components pointer := by
  intro around item op before after hcomponents hentries
  have hresolve : around.parameter? (.ref pointer) = components.parameter? pointer := by
    show (around.components.bind fun c => c.parameter? pointer) = _
    rw [hcomponents, Option.bind_some]
  constructor
  · intro p hends hplace
    refine Surroundings.mem_keys_iff.2 ⟨List.mem_map_of_mem (List.mem_filterMap.2
      ⟨.ref pointer, ?_, ?_⟩), hplace⟩
    · rw [hentries]
      simp
    · rw [hresolve]
      exact Components.endsAt_zero_iff.1 hends
  · intro halias item' op' hentries'
    have hnone : around.parameter? (.ref pointer) = none := by
      rw [hresolve]
      exact Components.lookUp?_of_namesAlias halias
    have hresolved : around.merged item op = around.merged item' op' := by
      unfold Surroundings.merged
      rw [hentries, hentries', List.filterMap_append, List.filterMap_append,
        List.filterMap_cons_none hnone]
    unfold Surroundings.parameters
    rw [hresolved]

/-! ## Security schemes -/

/-- An alias of a security scheme is exported with the scheme that stands under the name in it, and
left out if another alias stands there. -/
def ExportsScheme (components : Components) (pointer : String) : Prop :=
  ∀ (doc : Document) (name : String), doc.components = some components →
    components.securitySchemes.get? name = some (.ref pointer) →
    (∀ scheme, EndsAt "securitySchemes" components.securitySchemes 0 pointer scheme →
      securitySchemeItem name scheme ∈ (securityCollection doc).items) ∧
    (NamesAlias "securitySchemes" components.securitySchemes pointer →
      ∀ x ∈ (securityCollection doc).items, x.name ≠ name)

theorem exportsScheme (components : Components) (pointer : String) :
    ExportsScheme components pointer := by
  intro doc name hcomponents hget
  have hitems : (securityCollection doc).items =
      components.securitySchemes.entries.filterMap fun e =>
        (securityScheme? components e.2).map (securitySchemeItem e.1) := by
    unfold securityCollection
    rw [hcomponents]
  rw [hitems]
  constructor
  · intro scheme hends
    refine List.mem_filterMap.2 ⟨(name, .ref pointer), (Dict.mem_entries _).2 hget, ?_⟩
    rw [show securityScheme? components (.ref pointer) = some scheme from
      Components.endsAt_zero_iff.1 hends, Option.map_some]
  · rintro halias x hx rfl
    obtain ⟨⟨key, entry⟩, hmem, hsome⟩ := List.mem_filterMap.1 hx
    obtain ⟨scheme, hscheme, rfl⟩ := Option.map_eq_some_iff.1 hsome
    -- the item is named after its entry, which is the alias
    have hentry := (Dict.mem_entries _).1 hmem
    rw [show key = (securitySchemeItem key scheme).name from rfl, hget] at hentry
    cases hentry
    rw [show securityScheme? components (.ref pointer) = none from
      Components.lookUp?_of_namesAlias halias] at hscheme
    cases hscheme

/-! ## Responses -/

/-- A response that is a pointer is exported with the media type and the description of the response
that stands under the name in it, and with the default type alone if an alias stands there. -/
def ExportsResponse (components : Components) (pointer : String) : Prop :=
  ∀ (around : Surroundings) (path method status : String) (item : PathItem) (op : Operation)
    (webhook : Bool), around.components = some components →
    op.responses.get? status = some (.ref pointer) →
    ∃ x ∈ (around.apiItem path method item op webhook).responses, x.name = status ∧
      (∀ r, EndsAt "responses" components.responses 0 pointer r →
        x.contentType = r.content.firstType ∧ x.description = nonEmpty? r.description) ∧
      (NamesAlias "responses" components.responses pointer →
        x.contentType = defaultContentType ∧ x.description = none)

theorem exportsResponse (components : Components) (pointer : String) :
    ExportsResponse components pointer := by
  intro around path method status item op webhook hcomponents hget
  have hlook : (around.components.bind fun c => c.response? pointer) =
      components.response? pointer := by
    rw [hcomponents, Option.bind_some]
  refine ⟨around.responseItem path method status (.ref pointer),
    List.mem_map.2 ⟨(status, .ref pointer), (Dict.mem_entries _).2 hget, rfl⟩, rfl, ?_, ?_⟩
  · intro r hends
    have hfound : components.response? pointer = some r := Components.endsAt_zero_iff.1 hends
    unfold Surroundings.responseItem
    simp only [hlook, hfound]
    exact ⟨rfl, rfl⟩
  · intro halias
    have hfound : components.response? pointer = none := Components.lookUp?_of_namesAlias halias
    unfold Surroundings.responseItem
    simp only [hlook, hfound]
    exact ⟨rfl, rfl⟩

/-! ## All areas -/

/-- In the three areas that are not followed from alias to alias a look-up takes one step, and the
export has what it finds. -/
theorem lookUps_oneStep (components : Components) (pointer : String) :
    OneStep "parameters" components.parameters pointer (components.parameter? pointer) ∧
      OneStep "responses" components.responses pointer (components.response? pointer) ∧
      OneStep "securitySchemes" components.securitySchemes pointer
        (components.securityScheme? pointer) ∧
      ExportsParameter components pointer ∧ ExportsResponse components pointer ∧
      ExportsScheme components pointer :=
  ⟨Components.oneStep_lookUp? _ _ _, Components.oneStep_lookUp? _ _ _,
    Components.oneStep_lookUp? _ _ _, exportsParameter components pointer,
    exportsResponse components pointer, exportsScheme components pointer⟩

/-- In each area an object, an alias of it, and an alias of the alias. -/
def aliasedComponents : Components where
  parameters := Dict.ofList [
    ("Limit", .item { name := "limit", location := "query" }),
    ("Size", .ref "#/components/parameters/Limit"), ("Max", .ref "#/components/parameters/Size")]
  responses := Dict.ofList [
    ("Ok", .item { description := "ok", content := Dict.ofList [("text/csv", {})] }),
    ("Done", .ref "#/components/responses/Ok"), ("Made", .ref "#/components/responses/Done")]
  securitySchemes := Dict.ofList [
    ("key", .item { type := "apiKey" }), ("login", .ref "#/components/securitySchemes/key"),
    ("token", .ref "#/components/securitySchemes/login")]

theorem lookUps_oneStep_aliasedComponents :
    (∀ around : Surroundings, around.components = some aliasedComponents →
      ("limit", "query") ∈ (around.parameters {} {
        parameters := [.ref "#/components/parameters/Limit"] }).keys ∧
      around.parameters {} { parameters := [.ref "#/components/parameters/Size"] } =
        around.parameters {} {}) ∧
    aliasedComponents.response? "#/components/responses/Made" = none ∧
    ∃ x ∈ (securityCollection { components := aliasedComponents }).items, x.name = "login" := by
  obtain ⟨-, -, -, hlimit, -, -⟩ :=
    lookUps_oneStep aliasedComponents "#/components/parameters/Limit"
  obtain ⟨-, -, -, hsize, -, -⟩ :=
    lookUps_oneStep aliasedComponents "#/components/parameters/Size"
  obtain ⟨-, hmade, -, -, -, -⟩ := lookUps_oneStep aliasedComponents "#/components/responses/Made"
  obtain ⟨-, -, -, -, -, hkey⟩ :=
    lookUps_oneStep aliasedComponents "#/components/securitySchemes/key"
  refine ⟨fun around hcomponents => ⟨?_, ?_⟩, hmade.behind ⟨"Made", _, rfl, rfl⟩, ?_⟩
  · exact (hlimit around {} _ [] [] hcomponents rfl).1 { name := "limit", location := "query" }
      (.here rfl rfl) (by decide)
  · exact (hsize around {} _ [] [] hcomponents rfl).2 ⟨"Size", _, rfl, rfl⟩ {} {} rfl
  · exact ⟨_, (hkey { components := aliasedComponents } "login" rfl rfl).1 { type := "apiKey" }
      (.here rfl rfl), rfl⟩

/-- Chains of aliases of parameters, responses and security schemes are not followed to the objects
at their ends. -/
theorem not_chains_followed :
    (¬∀ pointer aliases p, EndsAt "parameters" aliasedComponents.parameters aliases pointer p →
      aliasedComponents.parameter? pointer = some p) ∧
    (¬∀ pointer aliases r, EndsAt "responses" aliasedComponents.responses aliases pointer r →
      aliasedComponents.response? pointer = some r) ∧
    ¬∀ pointer aliases scheme,
      EndsAt "securitySchemes" aliasedComponents.securitySchemes aliases pointer scheme →
      aliasedComponents.securityScheme? pointer = some scheme := by
  have hlimit : EndsAt "parameters" aliasedComponents.parameters 1 "#/components/parameters/Size"
      { name := "limit", location := "query" } :=
    .next rfl rfl (.here rfl rfl)
  have hok : EndsAt "responses" aliasedComponents.responses 1 "#/components/responses/Done"
      { description := "ok", content := Dict.ofList [("text/csv", {})] } :=
    .next rfl rfl (.here rfl rfl)
  have hkey : EndsAt "securitySchemes" aliasedComponents.securitySchemes 1
      "#/components/securitySchemes/login" { type := "apiKey" } :=
    .next rfl rfl (.here rfl rfl)
  exact ⟨fun hall => hlimit.lost (hall _ _ _ hlimit), fun hall => hok.lost (hall _ _ _ hok),
    fun hall => hkey.lost (hall _ _ _ hkey)⟩

end Export

end ApiFolio

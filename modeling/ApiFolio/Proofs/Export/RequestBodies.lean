import ApiFolio.Export.Operation
import ApiFolio.Proofs.Export.SchemaFolders
import ApiFolio.Proofs.OpenApi.Aliases
import ApiFolio.Proofs.OpenApi.Pointer
import Mathlib.Logic.Relation

/-!
# Request bodies by name

Chains of request bodies are followed from pointer to pointer, where an alias is known by the
pointer that is written for its name. Everything else reads the name out of a pointer. Both come to
the same end where the pointers that name aliases are those written for their names
(`requestBodies_by_name`); a pointer that spells the name of an alias in another way is not followed
(`not_requestBodies_by_name`).
-/

namespace ApiFolio

open OpenApi Export

namespace OpenApi.Components

variable (components : Components)

/-- A pointer names an alias among the request bodies, which stands for a target. -/
def BodyAlias (pointer target : String) : Prop :=
  ∃ name, Pointer.name? pointer "requestBodies" = some name ∧
    components.requestBodies.get? name = some (.ref target)

/-- Following aliases by name leads from one pointer to another. -/
def BodyChain : String → String → Prop := Relation.ReflTransGen components.BodyAlias

/-- Following aliases by name from a pointer never comes to an end. -/
def BodyChainEndless (pointer : String) : Prop :=
  ∀ last, components.BodyChain pointer last → ∃ target, components.BodyAlias last target

/-- If the pointer names an alias, it is the pointer that is written for the name. -/
def AliasEscaped (pointer : String) : Prop :=
  ∀ name target, Pointer.name? pointer "requestBodies" = some name →
    components.requestBodies.get? name = some (.ref target) →
    pointer = Pointer.component "requestBodies" name

end OpenApi.Components

namespace Export

/-! ## The recorded aliases -/

/-- The recorded aliases in the order of the request bodies. -/
def aliasEntries (entries : List (String × Referable RequestBody)) : List (String × String) :=
  entries.filterMap fun e =>
    e.2.pointer?.map fun target => (Pointer.component "requestBodies" e.1, target)

/-- A walk that records what is a pointer records the aliases in their order. -/
theorem targets_foldl {step : Aliases → String × Referable RequestBody → Aliases}
    (href : ∀ aliases name target, step aliases (name, .ref target) =
      aliases.record (Pointer.component "requestBodies" name) target)
    (hitem : ∀ aliases name body, step aliases (name, .item body) = aliases)
    (entries : List (String × Referable RequestBody)) (aliases : Aliases) :
    (entries.foldl step aliases).targets.entries =
      (aliasEntries entries).foldl (fun table e => Entries.insert e.1 e.2 table)
        aliases.targets.entries := by
  induction entries generalizing aliases with
  | nil => rfl
  | cons e rest ih =>
    obtain ⟨name, body⟩ := e
    cases body with
    | ref target =>
      rw [List.foldl_cons, href, ih]
      rfl
    | item body =>
      rw [List.foldl_cons, hitem, ih]
      rfl

theorem bodyAliases_eq (components : Components) :
    bodyAliases components = ⟨Dict.ofList (aliasEntries components.requestBodies.entries)⟩ :=
  congrArg Aliases.mk
    (Dict.ext (targets_foldl (fun _ _ _ => rfl) (fun _ _ _ => rfl) _ _))

theorem mem_aliasEntries {components : Components} {pointer target : String} :
    (pointer, target) ∈ aliasEntries components.requestBodies.entries ↔
      ∃ name, pointer = Pointer.component "requestBodies" name ∧
        components.requestBodies.get? name = some (.ref target) := by
  unfold aliasEntries
  rw [List.mem_filterMap]
  constructor
  · rintro ⟨⟨name, body⟩, hmem, hbody⟩
    cases body with
    | ref t =>
      cases hbody
      exact ⟨name, rfl, (Dict.mem_entries _).1 hmem⟩
    | item body => cases hbody
  · rintro ⟨name, rfl, hget⟩
    exact ⟨(name, .ref target), (Dict.mem_entries _).2 hget, rfl⟩

/-- A pointer is recorded as an alias if it is the one that is written for the name of an alias. -/
theorem get?_bodyAliases {components : Components} {pointer target : String} :
    (bodyAliases components).targets.get? pointer = some target ↔
      ∃ name, pointer = Pointer.component "requestBodies" name ∧
        components.requestBodies.get? name = some (.ref target) := by
  have hlast : (bodyAliases components).targets.get? pointer =
      Entries.last? pointer (aliasEntries components.requestBodies.entries) := by
    rw [bodyAliases_eq]
    exact Entries.get?_sort _ _
  rw [hlast, ← mem_aliasEntries]
  constructor
  · exact Entries.mem_of_last?
  · intro hmem
    obtain ⟨other, hother⟩ := Entries.exists_last?_of_mem hmem
    -- the pointers of two names differ, so the last entry of the pointer is its only one
    obtain ⟨name, rfl, hname⟩ := mem_aliasEntries.1 hmem
    obtain ⟨name', heq, hname'⟩ := mem_aliasEntries.1 (Entries.mem_of_last? hother)
    cases Pointer.component_injective heq
    rw [hname] at hname'
    cases hname'
    exact hother

/-! ## By pointer and by name -/

variable {components : Components} {pointer last target name : String} {body : RequestBody}

/-- A step by name from an escaped pointer is a step by pointer. -/
theorem get?_of_bodyAlias (hescaped : components.AliasEscaped pointer)
    (h : components.BodyAlias pointer target) :
    (bodyAliases components).targets.get? pointer = some target := by
  obtain ⟨name, hname, hget⟩ := h
  exact get?_bodyAliases.2 ⟨name, hescaped name target hname hget, hget⟩

/-- A pointer that names an inline body is no alias. -/
theorem get?_of_item (hname : Pointer.name? last "requestBodies" = some name)
    (hget : components.requestBodies.get? name = some (.item body)) :
    (bodyAliases components).targets.get? last = none := by
  cases halias : (bodyAliases components).targets.get? last with
  | none => rfl
  | some target =>
    obtain ⟨name', rfl, hget'⟩ := get?_bodyAliases.1 halias
    cases Pointer.eq_of_name?_component hname
    rw [hget] at hget'
    cases hget'

/-- A chain by name that ends at an inline body ends there by pointer. -/
theorem exists_endsAfter (hchain : components.BodyChain pointer last)
    (hescaped : ∀ p, components.BodyChain pointer p → components.AliasEscaped p)
    (hname : Pointer.name? last "requestBodies" = some name)
    (hget : components.requestBodies.get? name = some (.item body)) :
    ∃ steps, (bodyAliases components).EndsAfter steps pointer last := by
  induction hchain using Relation.ReflTransGen.head_induction_on with
  | refl => exact ⟨0, .here (get?_of_item hname hget)⟩
  | head hstep _ ih =>
    obtain ⟨steps, hrest⟩ := ih fun p hp => hescaped p (.head hstep hp)
    exact ⟨steps + 1, .next (get?_of_bodyAlias (hescaped _ .refl) hstep) hrest⟩

/-- A chain by name without an end has none by pointer. -/
theorem not_endsAfter {steps : Nat} {stop : String} (hendless : components.BodyChainEndless pointer)
    (hescaped : ∀ p, components.BodyChain pointer p → components.AliasEscaped p) :
    ¬(bodyAliases components).EndsAfter steps pointer stop := by
  intro hends
  induction hends with
  | here hnone =>
    obtain ⟨target, hstep⟩ := hendless _ .refl
    rw [get?_of_bodyAlias (hescaped _ .refl) hstep] at hnone
    cases hnone
  | next hsome _ ih =>
    obtain ⟨target, hstep⟩ := hendless _ .refl
    rw [get?_of_bodyAlias (hescaped _ .refl) hstep] at hsome
    cases hsome
    exact ih (fun p hp => hendless p (.head hstep hp)) fun p hp => hescaped p (.head hstep hp)

/-- If the pointers in all aliases are escaped, so are those on a chain from an escaped pointer. -/
theorem aliasEscaped_of_bodyChain (hpointer : components.AliasEscaped pointer)
    (hescaped : ∀ name target, components.requestBodies.get? name = some (.ref target) →
      components.AliasEscaped target)
    (hchain : components.BodyChain pointer last) : components.AliasEscaped last := by
  cases hchain with
  | refl => exact hpointer
  | tail _ hstep =>
    obtain ⟨name, -, hget⟩ := hstep
    exact hescaped name last hget

theorem target?_of_endless (hendless : components.BodyChainEndless pointer)
    (hescaped : ∀ p, components.BodyChain pointer p → components.AliasEscaped p) :
    (bodyAliases components).resolve.target? pointer = none := by
  rw [Option.eq_none_iff_forall_ne_some]
  intro stop hstop
  obtain ⟨steps, hends⟩ := Aliases.target?_resolve_eq_some_iff.1 hstop
  exact not_endsAfter hendless hescaped hends

/-! ## Operations and items -/

/-- What operations are exported with if the chains of request bodies are those of the
components. -/
def bodySurroundings (components : Components) : Surroundings where
  components := components
  ends := (bodyAliases components).resolve

/-- An item stands in the folder of request bodies. -/
def IsBodyItem (components : Components) (item : SchemaItem) : Prop :=
  ∃ folder ∈ schemaFolders components (bodyAliases components).resolve,
    folder.name = "RequestBodies" ∧ item ∈ folder.items

/-- The item of a request body is made of the entry under its name. -/
theorem IsBodyItem.exists_entry {item : SchemaItem} (h : IsBodyItem components item) :
    ∃ entry, components.requestBodies.get? item.name = some entry ∧
      requestBodyItem? (bodyAliases components).resolve item.name entry = some item := by
  obtain ⟨folder, hfolder, hname, hmem⟩ := h
  obtain ⟨⟨key, entry⟩, he, hsome⟩ := exists_requestBody_of_mem hfolder hname hmem
  have hkey : item.name = key := (requestBodyItem?_id hsome).1
  rw [hkey]
  exact ⟨entry, (Dict.mem_entries _).1 he, hsome⟩

/-- Where the chain by name from a pointer ends at an inline body, an operation with this pointer is
exported with what the body says and a pointer that names it. -/
def ExportsBodyAtEnd (components : Components) (pointer : String) : Prop :=
  ∀ last name body, components.BodyChain pointer last →
    Pointer.name? last "requestBodies" = some name →
    components.requestBodies.get? name = some (.item body) →
    ∀ (path method : String) (item : PathItem) (op : Operation) (webhook : Bool),
      op.requestBody = some (.ref pointer) → ∃ target,
        Pointer.name? target "requestBodies" = some name ∧
        ((bodySurroundings components).apiItem path method item op webhook).requestBody = some {
          required := body.required.getD false, contentType := body.content.firstType,
          description := body.description, jsonSchema := some (.pointingTo target) }

/-- Where the chain by name from a pointer has no end, an operation with this pointer is exported
without a body, and no alias on the chain has an item. -/
def DropsEndlessChain (components : Components) (pointer : String) : Prop :=
  components.BodyChainEndless pointer →
    (∀ (path method : String) (item : PathItem) (op : Operation) (webhook : Bool),
      op.requestBody = some (.ref pointer) →
        ((bodySurroundings components).apiItem path method item op webhook).requestBody = none) ∧
    ∀ last name, components.BodyChain pointer last →
      Pointer.name? last "requestBodies" = some name →
      ∀ item, IsBodyItem components item → item.name ≠ name

/-- The schema of an item is no pointer that names an alias. -/
def NamesNoAlias (components : Components) (item : SchemaItem) : Prop :=
  ∀ schema pointer target, item.jsonSchema = some schema → schema.ref = some pointer →
    ¬components.BodyAlias pointer target

theorem exportsBodyAtEnd
    (hescaped : ∀ p, components.BodyChain pointer p → components.AliasEscaped p) :
    ExportsBodyAtEnd components pointer := by
  intro last name body hchain hname hget path method item op webhook hop
  obtain ⟨steps, hends⟩ := exists_endsAfter hchain hescaped hname hget
  have htarget := Aliases.target?_resolve_eq_some_iff.2 ⟨steps, hends⟩
  have hat : (bodySurroundings components).bodyAt? last = some body :=
    Components.lookUp?_eq_some_iff.2 ⟨name, hname, hget⟩
  refine ⟨last, hname, ?_⟩
  show op.requestBody.bind (bodySurroundings components).requestBody? = _
  rw [hop]
  show ((bodyAliases components).resolve.target? pointer).map _ = _
  rw [htarget, Option.map_some, hat]
  rfl

theorem dropsEndlessChain
    (hescaped : ∀ p, components.BodyChain pointer p → components.AliasEscaped p) :
    DropsEndlessChain components pointer := by
  intro hendless
  refine ⟨fun path method item op webhook hop => ?_, fun last name hchain hname item hitem => ?_⟩
  · show op.requestBody.bind (bodySurroundings components).requestBody? = none
    rw [hop]
    show ((bodyAliases components).resolve.target? pointer).map _ = none
    rw [target?_of_endless hendless hescaped, Option.map_none]
  · rintro rfl
    obtain ⟨entry, hentry, hsome⟩ := hitem.exists_entry
    -- the chain goes on from `last`, so the entry under this name is an alias
    obtain ⟨target, name, hname', hget⟩ := hendless last hchain
    rw [hname] at hname'
    cases hname'
    rw [hget] at hentry
    cases hentry
    have hnone : (bodyAliases components).resolve.target? last = none :=
      target?_of_endless (fun p hp => hendless p (hchain.trans hp))
        fun p hp => hescaped p (hchain.trans hp)
    rw [hescaped last hchain _ target hname hget] at hnone
    unfold requestBodyItem? at hsome
    rw [hnone] at hsome
    cases hsome

theorem namesNoAlias (hescaped : ∀ name target,
      components.requestBodies.get? name = some (.ref target) → components.AliasEscaped target)
    {item : SchemaItem} (hitem : IsBodyItem components item) {first : String}
    (hfirst : components.requestBodies.get? item.name = some (.ref first)) :
    NamesNoAlias components item := by
  intro schema pointer target hschema href hstep
  obtain ⟨entry, hentry, hsome⟩ := hitem.exists_entry
  rw [hfirst] at hentry
  cases hentry
  have hrecorded : (bodyAliases components).targets.get?
      (Pointer.component "requestBodies" item.name) = some first :=
    get?_bodyAliases.2 ⟨_, rfl, hfirst⟩
  obtain ⟨stop, hstop, hitemEq⟩ := Option.map_eq_some_iff.1 hsome
  rw [← hitemEq] at hschema
  cases hschema
  cases href
  obtain ⟨steps, hends⟩ := Aliases.target?_resolve_eq_some_iff.1 hstop
  cases hends with
  | here hnone =>
    rw [hrecorded] at hnone
    cases hnone
  | next hsome rest =>
    have hends := Aliases.EndsAfter.next hsome rest
    -- the end of the chain stands in an alias, so it is escaped and would itself be recorded
    obtain ⟨previous, hprevious⟩ := hends.exists_alias
    obtain ⟨name, -, hname⟩ := get?_bodyAliases.1 hprevious
    have hnone := hends.get?_stop
    rw [get?_of_bodyAlias (hescaped name _ hname) hstep] at hnone
    cases hnone

theorem jsonSchema_of_item {item : SchemaItem} (hitem : IsBodyItem components item)
    (hbody : components.requestBodies.get? item.name = some (.item body)) :
    item.jsonSchema = body.content.firstSchema? := by
  obtain ⟨entry, hentry, hsome⟩ := hitem.exists_entry
  rw [hbody] at hentry
  cases hentry
  simp only [requestBodyItem?] at hsome
  split at hsome
  · cases hsome
  · rw [← Option.some.inj hsome]

/-- Following request bodies by name agrees with the export where the pointers that name aliases
are those written for their names. The item of an inline body carries the first schema of the body
as it is. -/
theorem requestBodies_by_name (components : Components) :
    (∀ pointer, (∀ p, components.BodyChain pointer p → components.AliasEscaped p) →
      ExportsBodyAtEnd components pointer ∧ DropsEndlessChain components pointer) ∧
    ((∀ name target, components.requestBodies.get? name = some (.ref target) →
        components.AliasEscaped target) →
      ∀ item, IsBodyItem components item → ∀ first,
        components.requestBodies.get? item.name = some (.ref first) →
        NamesNoAlias components item) ∧
    ∀ item, IsBodyItem components item → ∀ body,
      components.requestBodies.get? item.name = some (.item body) →
      item.jsonSchema = body.content.firstSchema? :=
  ⟨fun _ hescaped => ⟨exportsBodyAtEnd hescaped, dropsEndlessChain hescaped⟩,
    fun hescaped _ hitem _ hfirst => namesNoAlias hescaped hitem hfirst,
    fun _ hitem _ hbody => jsonSchema_of_item hitem hbody⟩

/-- A body behind two aliases, the names of which are escaped in pointers, and two aliases of each
other. -/
def chainedBodies : Components where
  requestBodies := Dict.ofList [
    ("Pet", .item { content := Dict.ofList [("text/csv", {})], required := some true }),
    ("a/b", .ref "#/components/requestBodies/c~0d"), ("c~d", .ref "#/components/requestBodies/Pet"),
    ("x", .ref "#/components/requestBodies/y"), ("y", .ref "#/components/requestBodies/x")]

theorem aliasEscaped_chainedBodies {name target : String}
    (h : chainedBodies.requestBodies.get? name = some (.ref target)) :
    chainedBodies.AliasEscaped target := by
  have hall : ∀ e ∈ chainedBodies.requestBodies.entries, ∀ t ∈ e.2.pointer?,
      ∀ n ∈ Pointer.name? t "requestBodies", t = Pointer.component "requestBodies" n := by decide
  intro name' target' hname _
  exact hall _ (Entries.mem_of_get? h) target rfl name' hname

theorem bodyChainEndless_chainedBodies :
    chainedBodies.BodyChainEndless "#/components/requestBodies/x" := by
  have hx : chainedBodies.BodyAlias "#/components/requestBodies/x"
    "#/components/requestBodies/y" := ⟨"x", rfl, rfl⟩
  have hy : chainedBodies.BodyAlias "#/components/requestBodies/y"
    "#/components/requestBodies/x" := ⟨"y", rfl, rfl⟩
  have hboth : ∀ last, chainedBodies.BodyChain "#/components/requestBodies/x" last →
      last = "#/components/requestBodies/x" ∨ last = "#/components/requestBodies/y" := by
    intro last hchain
    induction hchain with
    | refl => exact .inl rfl
    | tail _ hstep ih =>
      obtain ⟨name, hname, hget⟩ := hstep
      rcases ih with rfl | rfl
      · cases hname
        cases hget
        exact .inr rfl
      · cases hname
        cases hget
        exact .inl rfl
  intro last hchain
  rcases hboth last hchain with rfl | rfl
  · exact ⟨_, hx⟩
  · exact ⟨_, hy⟩

theorem requestBodies_by_name_chainedBodies :
    (∃ target, Pointer.name? target "requestBodies" = some "Pet" ∧
      ((bodySurroundings chainedBodies).apiItem "/pets" "post" {}
        { requestBody := some (.ref "#/components/requestBodies/a~1b") } false).requestBody = some {
          required := true, contentType := "text/csv", description := none,
          jsonSchema := some (.pointingTo target) }) ∧
    ((bodySurroundings chainedBodies).apiItem "/pets" "put" {}
      { requestBody := some (.ref "#/components/requestBodies/x") } false).requestBody = none ∧
    ∃ item, IsBodyItem chainedBodies item ∧ item.name = "a/b" ∧
      NamesNoAlias chainedBodies item := by
  have hescaped : ∀ name ∈ ["a/b", "x"], ∀ p,
      chainedBodies.BodyChain (Pointer.component "requestBodies" name) p →
      chainedBodies.AliasEscaped p := by
    intro name hname p
    refine aliasEscaped_of_bodyChain (fun n _ hn _ => ?_) fun _ _ => aliasEscaped_chainedBodies
    rw [Pointer.eq_of_name?_component hn]
  have hchain : chainedBodies.BodyChain "#/components/requestBodies/a~1b"
      "#/components/requestBodies/Pet" :=
    .tail (.single ⟨"a/b", rfl, rfl⟩) ⟨"c~d", rfl, rfl⟩
  obtain ⟨item, hitem, hname⟩ : ∃ item, IsBodyItem chainedBodies item ∧ item.name = "a/b" :=
    ⟨_, ⟨_, List.mem_singleton.2 rfl, rfl, List.mem_cons_of_mem _ List.mem_cons_self⟩, rfl⟩
  obtain ⟨hfollow, hitems, -⟩ := requestBodies_by_name chainedBodies
  refine ⟨?_, ?_, item, hitem, hname, ?_⟩
  · exact (hfollow _ (hescaped "a/b" (by decide))).1 _ "Pet" _ hchain rfl rfl "/pets" "post" {}
      { requestBody := some (.ref "#/components/requestBodies/a~1b") } false rfl
  · exact ((hfollow _ (hescaped "x" (by decide))).2 bodyChainEndless_chainedBodies).1 "/pets" "put"
      {} { requestBody := some (.ref "#/components/requestBodies/x") } false rfl
  · refine hitems (fun _ _ => aliasEscaped_chainedBodies) item hitem
      "#/components/requestBodies/c~0d" ?_
    rw [hname]
    rfl

/-- An alias of a body, in the name of which a pointer may leave a tilde as it is. -/
def tildeBodies : Components where
  requestBodies := Dict.ofList [
    ("Pet", .item { content := Dict.ofList [("text/csv", {})], required := some true }),
    ("a~b", .ref "#/components/requestBodies/Pet")]

/-- A body with a schema that points at an alias of another body. -/
def borrowedBodies : Components where
  requestBodies := Dict.ofList [
    ("Alias", .ref "#/components/requestBodies/Pet"),
    ("Borrowed", .item {
      content := Dict.ofList [("text/csv", {
        schema := some (.pointingTo "#/components/requestBodies/Alias") })] }),
    ("Pet", .item { content := Dict.ofList [("text/csv", {})] })]

/-- The export does not follow an alias whose name is spelled with a bare tilde, and it carries a
schema that points at an alias. -/
theorem not_requestBodies_by_name :
    ¬ExportsBodyAtEnd tildeBodies "#/components/requestBodies/a~b" ∧
      ¬∀ item, IsBodyItem borrowedBodies item → NamesNoAlias borrowedBodies item := by
  constructor
  · intro hexports
    have hchain : tildeBodies.BodyChain "#/components/requestBodies/a~b"
        "#/components/requestBodies/Pet" := .single ⟨"a~b", rfl, rfl⟩
    obtain ⟨target, -, hbody⟩ := hexports _ "Pet" _ hchain rfl rfl "/pets" "post" {}
      { requestBody := some (.ref "#/components/requestBodies/a~b") } false rfl
    have hrequired : some false = some true := congrArg (Option.map RequestBodyItem.required) hbody
    cases hrequired
  · intro hnames
    have hitem : IsBodyItem borrowedBodies {
        id := "#/components/requestBodies/Borrowed", name := "Borrowed", description := none,
        jsonSchema := some (.pointingTo "#/components/requestBodies/Alias") } :=
      ⟨_, List.mem_singleton.2 rfl, rfl, List.mem_cons_of_mem _ List.mem_cons_self⟩
    exact hnames _ hitem _ _ _ rfl rfl ⟨"Alias", rfl, rfl⟩

end Export

end ApiFolio

import ApiFolio.Proofs.OpenApi.ReadFrom
import ApiFolio.Proofs.Record.Read

/-!
# Texts that may be written as any scalar

A document has texts that may be written as any scalar: its version, its title and its own version,
the defaults of server variables and the descriptions of responses. What stands at such a place is
followed to the record that was read of it, one step of the way after the other (`Record.ReadOf`),
so the text of a document at a place is that of the scalar which stands there in the raw document
(`readOf_texts`).
-/

namespace ApiFolio

universe u

/-! ## What was read of what -/

namespace Record

/-- The value of a field in a record that is written as an object or as an array. -/
def field? (layout : Layout) (name : String) (v : Json) : Option Json :=
  (members? layout v).bind (Entries.get? name)

/-- If something stands in the raw form and something in the typed form, then the raw value is
ordered, and the typed one was read of it. -/
def ReadOf {α : Type u} (read : Json → Option α) (v? : Option Json) (x? : Option α) : Prop :=
  ∀ v ∈ v?, ∀ x ∈ x?, v.Ordered ∧ read v = some x

variable {α β : Type u} {read : Json → Option α} {layout : Layout} {name : String}
  {members : List (String × Json)}

theorem get?_of_field? {v w : Json} (hms : members? layout v = some members)
    (hw : field? layout name v = some w) : Entries.get? name members = some w := by
  unfold field? at hw
  rw [hms] at hw
  exact hw

theorem withDefault?_of_get? {default : α} {w : Json} (hw : Entries.get? name members = some w) :
    withDefault? members name default read = read w := by
  unfold withDefault?
  rw [hw]

section Steps

variable (ho : ∀ m ∈ members, m.2.Ordered)

include ho

theorem ReadOf.withDefault? {default x : α}
    (hx : Record.withDefault? members name default read = some x) :
    ReadOf read (Entries.get? name members) (some x) := by
  intro w hw y hy
  obtain rfl := Option.some.inj hy
  rw [withDefault?_of_get? hw] at hx
  exact ⟨ho _ (Entries.mem_of_get? hw), hx⟩

theorem ReadOf.optional? {x : Option α} (hx : Record.optional? members name read = some x) :
    ReadOf read (Entries.get? name members) x := by
  rintro w hw y rfl
  obtain ⟨w', hw', hy⟩ := exists_of_optional? hx
  obtain rfl := Option.some.inj (hw.symm.trans hw')
  exact ⟨ho _ (Entries.mem_of_get? hw), hy⟩

/-- A text that may be written as any scalar is the text of the value that stands there. -/
theorem ReadOf.scalarText {text : String} (htext : text = Record.scalarText members name) :
    ReadOf (fun v => some v.scalarText) (Entries.get? name members) (some text) := by
  intro w hw y hy
  obtain rfl := Option.some.inj hy
  refine ⟨ho _ (Entries.mem_of_get? hw), ?_⟩
  rw [htext, Record.scalarText, show Entries.get? name members = some w from hw]
  rfl

end Steps

/-- The value of a table under a key was read of the member of this key. -/
theorem ReadOf.key {v? : Option Json} {table? : Option (Dict α)}
    (h : ReadOf (readDict? read) v? table?) (key : String) :
    ReadOf read (v?.bind (Json.get? key)) (table?.bind (Dict.get? · key)) := by
  intro w hw x hx
  obtain ⟨v, hv, hw⟩ := Option.bind_eq_some_iff.1 hw
  obtain ⟨table, htable, hx⟩ := Option.bind_eq_some_iff.1 hx
  obtain ⟨ho, hread⟩ := h v hv table htable
  cases v with
  | obj ms =>
    obtain ⟨y, hy, hget⟩ := get?_readDict? ho.1 hread hw
    obtain rfl := Option.some.inj (hx.symm.trans hget)
    exact ⟨ho.get? hw, hy⟩
  | _ => cases hw

theorem read_of_mapM {vs : List Json} {xs : List α} (h : vs.mapM read = some xs) {index : Nat}
    {v : Json} {x : α} (hv : vs[index]? = some v) (hx : xs[index]? = some x) :
    read v = some x := by
  induction vs generalizing xs index with
  | nil => simp at hv
  | cons w rest ih =>
    rw [List.mapM_cons] at h
    obtain ⟨y, hy, h⟩ := Option.bind_eq_some_iff.1 h
    obtain ⟨ys, hys, h⟩ := Option.bind_eq_some_iff.1 h
    cases h
    cases index with
    | zero =>
      cases hv
      cases hx
      exact hy
    | succ index =>
      rw [List.getElem?_cons_succ] at hv hx
      exact ih hys hv hx

/-- The item of a list at an index was read of the item at this index. -/
theorem ReadOf.index {v? : Option Json} {xs? : Option (List α)}
    (h : ReadOf (readList? read) v? xs?) (index : Nat) :
    ReadOf read ((v?.bind Json.items?).bind (·[index]?)) (xs?.bind (·[index]?)) := by
  intro w hw x hx
  obtain ⟨vs, hvs, hw⟩ := Option.bind_eq_some_iff.1 hw
  obtain ⟨v, hv, hvs⟩ := Option.bind_eq_some_iff.1 hvs
  obtain ⟨xs, hxs, hx⟩ := Option.bind_eq_some_iff.1 hx
  obtain ⟨ho, hread⟩ := h v hv xs hxs
  cases v with
  | arr items =>
    cases hvs
    exact ⟨ho.items? rfl w (List.mem_of_getElem? hw), read_of_mapM hread hw hx⟩
  | _ => cases hvs

section Fields

variable {R : List (String × Json) → α → Prop} {v? : Option Json} {x? : Option α}
  (h : ReadOf read v? x?) (get : α → Option β) {readField : Json → Option β}
  (hfield : ∀ ms x, (∀ m ∈ ms, m.2.Ordered) → R ms x →
    ReadOf readField (Entries.get? name ms) (get x))

include h hfield

/-- A field was read of the member of its name, in a record that is an object or an array. -/
theorem ReadOf.field
    (hrecord : ∀ v x, read v = some x → ∃ ms, members? layout v = some ms ∧ R ms x) :
    ReadOf readField (v?.bind (field? layout name)) (x?.bind get) := by
  intro w hw y hy
  obtain ⟨v, hv, hw⟩ := Option.bind_eq_some_iff.1 hw
  obtain ⟨x, hx, hy⟩ := Option.bind_eq_some_iff.1 hy
  obtain ⟨ho, hread⟩ := h v hv x hx
  obtain ⟨ms, hms, hR⟩ := hrecord v x hread
  exact hfield ms x (members?_all ho hms) hR w (get?_of_field? hms hw) y hy

/-- A field was read of the member of its name, in a record that is an object. -/
theorem ReadOf.member
    (hrecord : ∀ v x, read v = some x → ∃ ms, v.members? = some ms ∧ R ms x) :
    ReadOf readField (v?.bind (Json.get? name)) (x?.bind get) := by
  intro w hw y hy
  obtain ⟨v, hv, hw⟩ := Option.bind_eq_some_iff.1 hw
  obtain ⟨x, hx, hy⟩ := Option.bind_eq_some_iff.1 hy
  obtain ⟨ho, hread⟩ := h v hv x hx
  obtain ⟨ms, hms, hR⟩ := hrecord v x hread
  cases v with
  | obj members =>
    cases hms
    exact hfield _ x (ho.members? rfl) hR w hw y hy
  | _ => cases hms

end Fields

end Record

namespace OpenApi

open Record (ReadOf field?)

/-- An object that is no pointer was read as the object itself. -/
theorem readOf_item {α : Type} {read : Json → Option α} {v? : Option Json}
    {x? : Option (Referable α)} (h : ReadOf (Referable.ofJson? read) v? x?) :
    ReadOf read v? (x?.bind Referable.item?) := by
  intro v hv x hx
  obtain ⟨r, hr, hx⟩ := Option.bind_eq_some_iff.1 hx
  obtain ⟨ho, hread⟩ := h v hv r hr
  cases r with
  | ref pointer => cases hx
  | item y =>
    cases hx
    refine ⟨ho, ?_⟩
    unfold Referable.ofJson? at hread
    split at hread
    · cases hread
    · obtain ⟨z, hz, heq⟩ := Option.map_eq_some_iff.1 hread
      cases heq
      exact hz

/-! ## The records of a document -/

theorem Info.texts_of_ofJson? {v : Json} {x : Info} (h : ofJson? v = some x) :
    ∃ ms, Record.members? layout v = some ms ∧ x.title = Record.scalarText ms "title" ∧
      x.version = Record.scalarText ms "version" := by
  obtain ⟨ms, hms, h⟩ := Option.bind_eq_some_iff.1 h
  obtain ⟨description, -, h⟩ := Option.bind_eq_some_iff.1 h
  obtain ⟨termsOfService, -, h⟩ := Option.bind_eq_some_iff.1 h
  obtain ⟨contact, -, h⟩ := Option.bind_eq_some_iff.1 h
  obtain ⟨license, -, h⟩ := Option.bind_eq_some_iff.1 h
  obtain ⟨summary, -, h⟩ := Option.bind_eq_some_iff.1 h
  cases h
  exact ⟨ms, hms, rfl, rfl⟩

/-- What stands in a raw document under a path. -/
def rawPathItem? (raw : Json) (path : String) : Option Json :=
  (raw.get? "paths").bind (Json.get? path)

/-- What stands in a raw document under a path and a verb. -/
def rawOperation? (raw : Json) (path : String) (verb : Verb) : Option Json :=
  (rawPathItem? raw path).bind (field? PathItem.layout verb.name)

/-- What has servers of its own. -/
inductive ServerOwner where
  | document
  | pathItem (path : String)
  | operation (path : String) (verb : Verb)

namespace ServerOwner

/-- The servers in a raw document. -/
def raw? (raw : Json) : ServerOwner → Option Json
  | document => raw.get? "servers"
  | pathItem path => (rawPathItem? raw path).bind (field? PathItem.layout "servers")
  | operation path verb => (rawOperation? raw path verb).bind (field? Operation.layout "servers")

/-- The servers in a document. -/
def servers? (doc : Document) : ServerOwner → Option (List Server)
  | document => some doc.servers
  | pathItem path => (doc.paths.get? path).bind fun item => some item.servers
  | operation path verb =>
    ((doc.paths.get? path).bind (·.operation? verb)).bind fun op => some op.servers

end ServerOwner

section Document

variable {raw : Json} {doc : Document} (hdoc : ReadOf Document.ofJson? (some raw) (some doc))

include hdoc

theorem readOf_pathItem (path : String) :
    ReadOf PathItem.ofJson? (rawPathItem? raw path) (doc.paths.get? path) := by
  have hpaths : ReadOf (readPaths? PathItem.ofJson?) (raw.get? "paths") (some doc.paths) :=
    hdoc.member (fun doc => some doc.paths)
      (fun _ _ hmembers h => .withDefault? hmembers h.paths)
      fun _ _ => Document.ofJson?_eq_some_iff.1
  intro w hw item hitem
  obtain ⟨v, hv, hw⟩ := Option.bind_eq_some_iff.1 hw
  obtain ⟨ho, hread⟩ := hpaths v hv doc.paths rfl
  cases v with
  | obj members =>
    rw [get?_readPaths? hread, Entries.last?_of_sorted ho.1] at hitem
    obtain ⟨u, hu, hitem⟩ := Option.bind_eq_some_iff.1 hitem
    obtain rfl := Option.some.inj (hw.symm.trans hu)
    split at hitem
    · cases hitem
    · exact ⟨ho.get? hw, hitem⟩
  | _ => cases hw

theorem readOf_operation (path : String) (verb : Verb) :
    ReadOf Operation.ofJson? (rawOperation? raw path verb)
      ((doc.paths.get? path).bind (·.operation? verb)) := by
  refine (readOf_pathItem hdoc path).field _ (fun ms item hmembers h => ?_)
    fun _ _ => PathItem.ofJson?_eq_some_iff.1
  cases verb with
  | get => exact .optional? hmembers h.get
  | put => exact .optional? hmembers h.put
  | post => exact .optional? hmembers h.post
  | delete => exact .optional? hmembers h.delete
  | options => exact .optional? hmembers h.options
  | head => exact .optional? hmembers h.head
  | patch => exact .optional? hmembers h.patch
  | trace => exact .optional? hmembers h.trace

theorem readOf_servers (owner : ServerOwner) :
    ReadOf (Record.readList? Server.ofJson?) (owner.raw? raw) (owner.servers? doc) := by
  cases owner with
  | document =>
    exact hdoc.member (fun doc => some doc.servers)
      (fun _ _ hmembers h => .withDefault? hmembers h.servers)
      fun _ _ => Document.ofJson?_eq_some_iff.1
  | pathItem path =>
    exact (readOf_pathItem hdoc path).field _
      (fun _ _ hmembers h => .withDefault? hmembers h.servers)
      fun _ _ => PathItem.ofJson?_eq_some_iff.1
  | operation path verb =>
    exact (readOf_operation hdoc path verb).field _
      (fun _ _ hmembers h => .withDefault? hmembers h.servers)
      fun _ _ => Operation.ofJson?_eq_some_iff.1

theorem readOf_info : ReadOf Info.ofJson? (raw.get? "info") (some doc.info) :=
  hdoc.member (fun doc => some doc.info)
    (fun _ _ hmembers h => .withDefault? hmembers h.info)
    fun _ _ => Document.ofJson?_eq_some_iff.1

theorem readOf_components :
    ReadOf Components.ofJson? (raw.get? "components") doc.components :=
  hdoc.member _ (fun _ _ hmembers h => .optional? hmembers h.components)
    fun _ _ => Document.ofJson?_eq_some_iff.1

end Document

/-! ## Places -/

/-- A place of a document whose text may be written as any scalar. -/
inductive TextPlace where
  | openapi
  | title
  | version
  /-- The default of a variable of the server at an index. -/
  | serverDefault (owner : ServerOwner) (index : Nat) (name : String)
  /-- The description of a response of an operation. -/
  | response (path : String) (verb : Verb) (status : String)
  /-- The description of a response among the components. -/
  | sharedResponse (name : String)

namespace TextPlace

/-- What stands in a raw document at a place. -/
def value? (raw : Json) : TextPlace → Option Json
  | openapi => raw.get? "openapi"
  | title => (raw.get? "info").bind (field? Info.layout "title")
  | version => (raw.get? "info").bind (field? Info.layout "version")
  | serverDefault owner index name =>
    (((((owner.raw? raw).bind Json.items?).bind (·[index]?)).bind
      (field? Server.layout "variables")).bind (Json.get? name)).bind
        (field? ServerVariable.layout "default")
  | response path verb status =>
    (((rawOperation? raw path verb).bind (field? Operation.layout "responses")).bind
      (Json.get? status)).bind (field? Response.layout "description")
  | sharedResponse name =>
    (((raw.get? "components").bind (Json.get? "responses")).bind (Json.get? name)).bind
      (field? Response.layout "description")

/-- The text of a document at a place. -/
def text? (doc : Document) : TextPlace → Option String
  | openapi => some doc.openapi
  | title => some doc.info.title
  | version => some doc.info.version
  | serverDefault owner index name =>
    ((((owner.servers? doc).bind (·[index]?)).bind fun server => some server.slots).bind
      (Dict.get? · name)).bind fun slot => some slot.default
  | response path verb status =>
    (((((doc.paths.get? path).bind (·.operation? verb)).bind fun op => some op.responses).bind
      (Dict.get? · status)).bind Referable.item?).bind fun r => some r.description
  | sharedResponse name =>
    (((doc.components.bind fun components => some components.responses).bind
      (Dict.get? · name)).bind Referable.item?).bind fun r => some r.description

end TextPlace

section Texts

variable {raw : Json} {doc : Document} (hdoc : ReadOf Document.ofJson? (some raw) (some doc))

include hdoc

theorem readOf_texts (place : TextPlace) :
    ReadOf (fun v => some v.scalarText) (place.value? raw) (place.text? doc) := by
  have hdescription {v? : Option Json} {r? : Option Response}
      (h : ReadOf Response.ofJson? v? r?) :
      ReadOf (fun v => some v.scalarText) (v?.bind (field? Response.layout "description"))
        (r?.bind fun r => some r.description) :=
    h.field _ (fun _ _ hmembers h => .scalarText hmembers h.description)
      fun _ _ => Response.ofJson?_eq_some_iff.1
  cases place with
  | openapi =>
    exact hdoc.member (fun doc => some doc.openapi)
      (fun _ _ hmembers h => .scalarText hmembers h.openapi)
      fun _ _ => Document.ofJson?_eq_some_iff.1
  | title =>
    exact (readOf_info hdoc).field (fun info => some info.title)
      (fun _ _ hmembers h => .scalarText hmembers h.1) fun _ _ => Info.texts_of_ofJson?
  | version =>
    exact (readOf_info hdoc).field (fun info => some info.version)
      (fun _ _ hmembers h => .scalarText hmembers h.2) fun _ _ => Info.texts_of_ofJson?
  | serverDefault owner index name =>
    have hslots := ((readOf_servers hdoc owner).index index).field
      (fun server => some server.slots)
      (fun _ _ hmembers h => .withDefault? hmembers h.slots) fun _ _ => Server.ofJson?_eq_some_iff.1
    exact (hslots.key name).field (fun slot => some slot.default)
      (fun _ _ hmembers h => .scalarText hmembers h.default)
      fun _ _ => ServerVariable.ofJson?_eq_some_iff.1
  | response path verb status =>
    have hresponses := (readOf_operation hdoc path verb).field (fun op => some op.responses)
      (fun _ _ hmembers h => .withDefault? hmembers h.responses)
      fun _ _ => Operation.ofJson?_eq_some_iff.1
    exact hdescription (readOf_item (hresponses.key status))
  | sharedResponse name =>
    have hresponses := (readOf_components hdoc).member (fun x => some x.responses)
      (fun _ _ hmembers h => .withDefault? hmembers h.responses)
      fun _ _ => Components.ofJson?_eq_some_iff.1
    exact hdescription (readOf_item (hresponses.key name))

end Texts

end OpenApi

end ApiFolio

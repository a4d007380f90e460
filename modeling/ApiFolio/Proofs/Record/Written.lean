import ApiFolio.OpenApi.Referable
import ApiFolio.Proofs.Json.Ordered

/-!
# Reading what was written

A record writes its members in the order of its fields and is read again from the same members in
canonical form (`written`). A reader asks for one name after the other, and the answer is the last
member of that name (`get?_written`). So each reader of a field becomes a function of that member
(`rereadText`, `rereadOption`, `rereadList`, `rereadTable`), and each writer of a field has one
equation that says what this function gives.
-/

namespace ApiFolio.Record

universe u

variable {α : Type u}

/-- Members in the form in which they are read again. -/
def written (members : List (String × Json)) : List (String × Json) :=
  Entries.sort (Json.canonicalMembers members)

theorem canonical_obj (members : List (String × Json)) :
    (Json.obj members).canonical = .obj (written members) := rfl

theorem sorted_written (members : List (String × Json)) : Entries.Sorted (written members) :=
  Entries.sorted_sort _

theorem get?_written (name : String) (members : List (String × Json)) :
    Entries.get? name (written members) = (Entries.last? name members).map Json.canonical := by
  unfold written
  rw [Entries.get?_sort, Json.canonicalMembers_eq, Entries.last?_mapValues]

@[simp] theorem members?_obj (layout : Layout) (members : List (String × Json)) :
    members? layout (.obj members) = some members := rfl

/-! ## The last member of a name -/

/-- The value of a list that is written unless it is empty. -/
def listMember? (write : α → Json) : List α → Option Json
  | [] => none
  | x :: xs => some (.arr (write x :: xs.map write))

/-- The value of a table that is written unless it is empty. -/
def tableMember? (write : α → Json) (table : Dict α) : Option Json :=
  if table.isEmpty then none else some (writeDict write table)

theorem listMember?_eq (write : α → Json) (xs : List α) :
    listMember? write xs = if xs.isEmpty then none else some (.arr (xs.map write)) := by
  cases xs <;> rfl

@[simp] theorem last?_put (key name : String) (v : Json) :
    Entries.last? key (put name v) = if name = key then some v else none := by
  unfold put
  rw [Entries.last?_cons, Entries.last?_nil, Option.none_or]

@[simp] theorem last?_putOption (key name : String) (write : α → Json) (x : Option α) :
    Entries.last? key (putOption name write x) = if name = key then x.map write else none := by
  cases x with
  | none => simp [putOption]
  | some x => exact last?_put key name (write x)

@[simp] theorem last?_putList (key name : String) (write : α → Json) (xs : List α) :
    Entries.last? key (putList name write xs) =
      if name = key then listMember? write xs else none := by
  cases xs with
  | nil => simp [putList, listMember?]
  | cons x xs => exact last?_put key name _

@[simp] theorem last?_putDict (key name : String) (write : α → Json) (table : Dict α) :
    Entries.last? key (putDict name write table) =
      if name = key then tableMember? write table else none := by
  unfold putDict tableMember?
  split
  · simp
  · exact last?_put key name _

theorem putOption_eq (name : String) (write : α → Json) (x : Option α) :
    putOption name write x = putOption name id (x.map write) := by
  cases x <;> rfl

theorem putList_eq (name : String) (write : α → Json) (xs : List α) :
    putList name write xs = putOption name id (listMember? write xs) := by
  cases xs <;> rfl

/-- Where each of several keys has a member of its own name, the last member of a name is that of
its key. -/
theorem last?_flatMap_putOption {κ : Type} [DecidableEq κ] {keyName : κ → String}
    {ofName? : String → Option κ} (hof : ∀ name k, ofName? name = some k ↔ keyName k = name)
    (name : String) (keys : List κ) (value : κ → Option Json) :
    Entries.last? name (keys.flatMap fun k => putOption (keyName k) id (value k)) =
      (ofName? name).bind fun k => if k ∈ keys then value k else none := by
  induction keys with
  | nil => cases ofName? name <;> rfl
  | cons l rest ih =>
    rw [List.flatMap_cons, Entries.last?_append, ih, last?_putOption, Option.map_id]
    cases hname : ofName? name with
    | none =>
      have hl : keyName l ≠ name := fun heq => by
        rw [(hof name l).2 heq] at hname
        cases hname
      rw [if_neg hl]
      rfl
    | some k =>
      cases (hof name k).1 hname
      have hl : keyName l = keyName k ↔ k = l := by
        rw [← hof, hname, Option.some_inj]
      by_cases hkl : k = l
      · subst hkl
        by_cases hmem : k ∈ rest <;> simp [hmem]
      · by_cases hmem : k ∈ rest <;> simp [hmem, hkl, hl]

/-! ## Values that have a default -/

/-- Reads a value again that has a default. -/
def rereadDefault (default : α) (read : Json → Option α) : Option Json → Option α
  | none => some default
  | some v => read v.canonical

@[simp] theorem withDefault?_written (members : List (String × Json)) (name : String)
    (default : α) (read : Json → Option α) :
    withDefault? (written members) name default read =
      rereadDefault default read (Entries.last? name members) := by
  unfold withDefault?
  rw [get?_written]
  cases Entries.last? name members <;> rfl

@[simp] theorem rereadDefault_some (default : α) (read : Json → Option α) (v : Json) :
    rereadDefault default read (some v) = read v.canonical := rfl

/-! ## Texts -/

/-- Reads a string again that may be absent. -/
def rereadText : Option Json → Option String
  | none => some ""
  | some v => v.canonical.text?

@[simp] theorem string?_written (members : List (String × Json)) (name : String) :
    string? (written members) name = rereadText (Entries.last? name members) := by
  unfold string?
  rw [withDefault?_written]
  cases Entries.last? name members <;> rfl

@[simp] theorem rereadText_str (s : String) : rereadText (some (.str s)) = some s := rfl

@[simp] theorem scalarText_written (members : List (String × Json)) (name : String) :
    scalarText (written members) name =
      ((Entries.last? name members).map fun v => v.canonical.scalarText).getD "" := by
  unfold scalarText
  rw [get?_written, Option.map_map]
  rfl

@[simp] theorem scalarText_canonical_str (s : String) :
    (Json.str s).canonical.scalarText = s := rfl

/-! ## Values that may be absent -/

/-- Reads a value again that may be absent. -/
def rereadOption (read : Json → Option α) : Option Json → Option (Option α)
  | none => some none
  | some v =>
    match v.canonical with
    | .null => some none
    | w => (read w).map some

@[simp] theorem optional?_written (members : List (String × Json)) (name : String)
    (read : Json → Option α) :
    optional? (written members) name read = rereadOption read (Entries.last? name members) := by
  unfold optional?
  rw [get?_written]
  cases Entries.last? name members with
  | none => rfl
  | some v =>
    show _ = (match v.canonical with
      | .null => some none
      | w => (read w).map some)
    rw [Option.map_some]
    cases v.canonical <;> rfl

@[simp] theorem optionalString?_written (members : List (String × Json)) (name : String) :
    optionalString? (written members) name =
      rereadOption Json.text? (Entries.last? name members) :=
  optional?_written members name Json.text?

@[simp] theorem optionalBool?_written (members : List (String × Json)) (name : String) :
    optionalBool? (written members) name =
      rereadOption Json.bool? (Entries.last? name members) :=
  optional?_written members name Json.bool?

/-- A value that may be absent is read again if the value itself is. -/
theorem rereadOption_map {read : Json → Option α} {write : α → Json} (f : α → α) {x : Option α}
    (hnull : read .null = none) (h : ∀ y ∈ x, read (write y).canonical = some (f y)) :
    rereadOption read (x.map write) = some (x.map f) := by
  cases x with
  | none => rfl
  | some y =>
    have hy := h y rfl
    show (match (write y).canonical with
      | .null => some none
      | w => (read w).map some) = some (some (f y))
    split
    · rename_i heq
      rw [heq, hnull] at hy
      cases hy
    · rw [hy, Option.map_some]

@[simp] theorem rereadOption_str (x : Option String) :
    rereadOption Json.text? (x.map Json.str) = some x := by
  cases x <;> rfl

@[simp] theorem rereadOption_bool (x : Option Bool) :
    rereadOption Json.bool? (x.map Json.bool) = some x := by
  cases x <;> rfl

/-- A list of values of any shape is read again if they are ordered. -/
theorem rereadOption_arr {x : Option (List Json)} (h : ∀ vs ∈ x, ∀ v ∈ vs, v.Ordered) :
    rereadOption Json.items? (x.map Json.arr) = some x := by
  cases x with
  | none => rfl
  | some vs =>
    show (Json.items? (.arr (Json.canonicalItems vs))).map some = some (some vs)
    rw [Json.canonicalItems_of_ordered (Json.orderedItems_iff.2 (h vs rfl))]
    rfl

/-- A value unless it is null. -/
def settledValue (x : Option Json) : Option Json :=
  x.bind fun v =>
    match v with
    | .null => none
    | v => some v

@[simp] theorem value_written (members : List (String × Json)) (name : String) :
    value (written members) name =
      settledValue ((Entries.last? name members).map Json.canonical) := by
  unfold value
  rw [get?_written]
  cases (Entries.last? name members).map Json.canonical with
  | none => rfl
  | some v => cases v <;> rfl

theorem map_canonical_of_ordered {x : Option Json} (h : ∀ v ∈ x, v.Ordered) :
    x.map Json.canonical = x := by
  cases x with
  | none => rfl
  | some v => rw [Option.map_some, Json.canonical_of_ordered (h v rfl)]

/-! ## Lists and tables -/

/-- Reads a list again that may be absent. -/
def rereadList (read : Json → Option α) : Option Json → Option (List α)
  | none => some []
  | some v => readList? read v.canonical

/-- Reads a table again that may be absent. -/
def rereadTable (read : Json → Option α) : Option Json → Option (Dict α)
  | none => some ∅
  | some v => readDict? read v.canonical

@[simp] theorem list?_written (members : List (String × Json)) (name : String)
    (read : Json → Option α) :
    list? (written members) name read = rereadList read (Entries.last? name members) := by
  unfold list?
  rw [withDefault?_written]
  cases Entries.last? name members <;> rfl

@[simp] theorem strings?_written (members : List (String × Json)) (name : String) :
    strings? (written members) name = rereadList Json.text? (Entries.last? name members) :=
  list?_written members name Json.text?

@[simp] theorem dict?_written (members : List (String × Json)) (name : String)
    (read : Json → Option α) :
    dict? (written members) name read = rereadTable read (Entries.last? name members) := by
  unfold dict?
  rw [withDefault?_written]
  cases Entries.last? name members <;> rfl

theorem mapM_reread {read : Json → Option α} {write : α → Json} (f : α → α) {xs : List α}
    (h : ∀ x ∈ xs, read (write x).canonical = some (f x)) :
    ((xs.map write).map Json.canonical).mapM read = some (xs.map f) := by
  induction xs with
  | nil => rfl
  | cons x xs ih =>
    have hrest := ih fun y hy => h y (List.mem_cons_of_mem _ hy)
    rw [List.map_cons, List.map_cons, List.mapM_cons, h x List.mem_cons_self, hrest]
    rfl

/-- A list is read again if its items are. -/
theorem rereadList_listMember {read : Json → Option α} {write : α → Json} (f : α → α)
    {xs : List α} (h : ∀ x ∈ xs, read (write x).canonical = some (f x)) :
    rereadList read (listMember? write xs) = some (xs.map f) := by
  cases xs with
  | nil => rfl
  | cons x xs =>
    show (Json.canonicalItems ((x :: xs).map write)).mapM read = _
    rw [Json.canonicalItems_eq]
    exact mapM_reread f h

@[simp] theorem rereadList_str (xs : List String) :
    rereadList Json.text? (listMember? Json.str xs) = some xs := by
  have h := @rereadList_listMember String Json.text? Json.str id xs fun _ _ => rfl
  rwa [List.map_id] at h

theorem traverse_reread {read : Json → Option α} {write : α → Json} (f : α → α)
    {entries : List (String × α)}
    (h : ∀ e ∈ entries, read (write e.2).canonical = some (f e.2)) :
    Entries.traverse read (Entries.mapValues Json.canonical (Entries.mapValues write entries)) =
      some (Entries.mapValues f entries) := by
  induction entries with
  | nil => rfl
  | cons e rest ih =>
    obtain ⟨k, x⟩ := e
    have hrest := ih fun y hy => h y (List.mem_cons_of_mem _ hy)
    have hx : read (write x).canonical = some (f x) := h (k, x) List.mem_cons_self
    show (read (write x).canonical >>= fun y =>
      Entries.traverse read (Entries.mapValues Json.canonical (Entries.mapValues write rest)) >>=
        fun ys => some ((k, y) :: ys)) = _
    rw [hx, hrest]
    rfl

/-- A table is read again if its values are. -/
theorem readDict?_writeDict {read : Json → Option α} {write : α → Json} (f : α → α)
    {table : Dict α} (h : ∀ e ∈ table.entries, read (write e.2).canonical = some (f e.2)) :
    readDict? read (writeDict write table).canonical = some (table.map f) := by
  show (Entries.traverse read (Entries.sort (Json.canonicalMembers
    (Entries.mapValues write table.entries)))).map Dict.ofList = _
  rw [Json.canonicalMembers_eq, Entries.sort_of_sorted
    (Entries.sorted_mapValues _ (Entries.sorted_mapValues _ table.sorted)), traverse_reread f h]
  show some (Dict.ofList (Entries.mapValues f table.entries)) = _
  congr 1
  exact Dict.ext (Entries.sort_of_sorted (Entries.sorted_mapValues f table.sorted))

theorem rereadTable_writeDict {read : Json → Option α} {write : α → Json} (f : α → α)
    {table : Dict α} (h : ∀ e ∈ table.entries, read (write e.2).canonical = some (f e.2)) :
    rereadTable read (some (writeDict write table)) = some (table.map f) :=
  readDict?_writeDict f h

theorem map_of_isEmpty (f : α → α) {table : Dict α} (h : table.isEmpty = true) :
    table.map f = ∅ :=
  Dict.ext (by
    show Entries.mapValues f table.entries = []
    rw [List.isEmpty_iff.1 h]
    rfl)

theorem rereadTable_tableMember {read : Json → Option α} {write : α → Json} (f : α → α)
    {table : Dict α} (h : ∀ e ∈ table.entries, read (write e.2).canonical = some (f e.2)) :
    rereadTable read (tableMember? write table) = some (table.map f) := by
  unfold tableMember?
  split
  · rename_i hempty
    rw [map_of_isEmpty f hempty]
    rfl
  · exact rereadTable_writeDict f h

end ApiFolio.Record

import ApiFolio.Export.Item

/-!
# Collections

A collection is a folder of operations that may hold further collections. It can be put in order
at every level, searched by name, and listed.
-/

namespace ApiFolio.Export

/-- A folder of operations. -/
structure Collection where
  name : String
  items : List ApiItem := []
  children : List Collection := []
deriving Inhabited

namespace Collection

/-- The place of a verb in the order of verbs; a word that is no verb comes after all of them. -/
def methodRank (method : String) : Nat := (OpenApi.Verb.all.map (·.name)).idxOf method

/-- Operations stand by path and then by verb. -/
def itemLe (a b : ApiItem) : Bool :=
  if a.path = b.path then methodRank a.method ≤ methodRank b.method else a.path < b.path

/-- Folders stand by descending name. -/
def nameGe (a b : Collection) : Bool := b.name ≤ a.name

mutual

/-- Puts operations and folders in order, at every level. What is equal in this order keeps its
place. -/
def sort : Collection → Collection
  | .mk name items children =>
    .mk name (items.mergeSort itemLe) ((sortAll children).mergeSort nameGe)

def sortAll : List Collection → List Collection
  | [] => []
  | c :: rest => sort c :: sortAll rest

end

mutual

def allItems : Collection → List ApiItem
  | .mk _ items children => items ++ allItemsOf children

def allItemsOf : List Collection → List ApiItem
  | [] => []
  | c :: rest => allItems c ++ allItemsOf rest

end

mutual

/-- The folder with a name: this one, or the first inside it, an outer one before those in it. -/
def find? (name : String) : Collection → Option Collection
  | c@(.mk own _ children) => if own = name then some c else findIn? name children

/-- The folder with a name in or among the folders. -/
def findIn? (name : String) : List Collection → Option Collection
  | [] => none
  | c :: rest =>
    match find? name c with
    | some found => some found
    | none => findIn? name rest

end

mutual

def toJson : Collection → Json
  | .mk name items children =>
    .obj [("name", .str name), ("items", .arr (items.map ApiItem.toJson)),
      ("children", .arr (toJsonAll children))]

def toJsonAll : List Collection → List Json
  | [] => []
  | c :: rest => toJson c :: toJsonAll rest

end

end Collection

end ApiFolio.Export

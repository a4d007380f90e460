import ApiFolio.Export.Collection

/-!
# Filing by tag

A tag names a folder by a path: its segments between slashes, without white space around them and
without the empty ones. Filing an operation under a tag creates the folder and every folder above
it. The folders are kept side by side, each under its path with slashes, and are put inside one
another at the end: the folder at a path is taken out of the records together with those below it,
so that none is taken twice.
-/

namespace ApiFolio.Export

/-- What a folder tree holds at one path. -/
structure FolderRecord where
  /-- The name of the folder, the last segment of its path. -/
  name : String
  /-- The path of the folder above it, empty at the top. -/
  parent : String
  /-- The operations filed there, in the order in which they came. -/
  items : List ApiItem

/-- Folders side by side, filled tag by tag. -/
structure FolderTree where
  /-- The folders by path. -/
  records : Dict FolderRecord := ∅
deriving Inhabited

namespace FolderTree

/-- The segments of a tag. -/
def segments (tag : String) : List String :=
  ((Text.split '/' tag).map Text.trim).filter fun s => !s.isEmpty

/-- The path of a folder below another. -/
def pathBelow (parent name : String) : String :=
  if parent.isEmpty then name else parent ++ "/" ++ name

/-- Creates the folders below a path that are not there yet, from the outermost, and gives the
path of the innermost. -/
def ensure (records : Dict FolderRecord) (parent : String) :
    List String → Dict FolderRecord × String
  | [] => (records, parent)
  | name :: below =>
    let path := pathBelow parent name
    ensure (records.insertIfNew path { name, parent, items := [] }) path below

/-- Adds an operation to the folder at a path, if there is one. -/
def push (records : Dict FolderRecord) (path : String) (item : ApiItem) : Dict FolderRecord :=
  match records.get? path with
  | none => records
  | some record => records.insert path { record with items := record.items ++ [item] }

/-- Files an operation under a tag. A tag without segments takes nothing: the operation comes
back. -/
def insert (tree : FolderTree) (tag : String) (item : ApiItem) : FolderTree × Option ApiItem :=
  match segments tag with
  | [] => (tree, some item)
  | s :: ss =>
    let (records, path) := ensure tree.records "" (s :: ss)
    (⟨push records path item⟩, none)

def get? (tree : FolderTree) (path : String) : Option FolderRecord := tree.records.get? path

def size (tree : FolderTree) : Nat := tree.records.size

def isEmpty (tree : FolderTree) : Bool := tree.records.isEmpty

/-! ## Putting folders inside one another -/

/-- The paths of the folders directly below each path, in the order of the records. -/
def pathsBelow (records : Dict FolderRecord) : Dict (List String) :=
  records.entries.foldl (fun below e =>
    below.insert e.2.parent ((below.get? e.2.parent).getD [] ++ [e.1])) ∅

/-- Records that are left of others: there are no more of them. -/
abbrev Rest (records : Dict FolderRecord) : Type :=
  { rest : Dict FolderRecord // rest.size ≤ records.size }

mutual

/-- Takes the folder at a path out of the records, with all folders below it inside. -/
def build (below : Dict (List String)) (records : Dict FolderRecord) (path : String) :
    Option Collection × Rest records :=
  match h : records.get? path with
  | none => (none, ⟨records, Nat.le_refl _⟩)
  | some record =>
    let out := buildAll below (records.erase path) ((below.get? path).getD [])
    (some { name := record.name, items := record.items, children := out.1 },
      ⟨out.2.1, Nat.le_trans out.2.2 (Nat.le_of_lt (Dict.size_erase_lt h))⟩)
termination_by (records.size, 0)
decreasing_by exact Prod.Lex.left _ _ (Dict.size_erase_lt h)

/-- Takes the folders at several paths out of the records, one after the other. -/
def buildAll (below : Dict (List String)) (records : Dict FolderRecord) :
    List String → List Collection × Rest records
  | [] => ([], ⟨records, Nat.le_refl _⟩)
  | path :: paths =>
    let first := build below records path
    let others := buildAll below first.2.1 paths
    (first.1.toList ++ others.1, ⟨others.2.1, Nat.le_trans others.2.2 first.2.2⟩)
termination_by paths => (records.size, paths.length + 1)
decreasing_by
  · exact Prod.Lex.right _ (Nat.succ_pos _)
  · rcases Nat.lt_or_eq_of_le first.2.2 with h | h
    · exact Prod.Lex.left _ _ h
    · rw [h]
      exact Prod.Lex.right _ (Nat.lt_succ_self _)

end

/-- The folders at the top with all that is inside them. -/
def forest (tree : FolderTree) : List Collection :=
  let below := pathsBelow tree.records
  (buildAll (below.erase "") tree.records ((below.get? "").getD [])).1

end FolderTree

end ApiFolio.Export

/-!
# The tokens of YAML

Besides the marks that stand in a text there are tokens for what indentation says: where block
lists and tables start and end, and that what comes next is a key.
-/

namespace ApiFolio.Yaml

/-- A token of a YAML text. -/
inductive Token where
  | streamEnd
  /-- A directive that gives the version of the format. -/
  | version (major minor : Nat)
  /-- A directive that lets a handle stand for the bytes at the beginning of tags. -/
  | tagHandle (handle : String) (beginning : List UInt8)
  /-- Three hyphens. -/
  | documentStart
  /-- Three dots. -/
  | documentEnd
  | blockListStart
  | blockTableStart
  /-- The end of a block list or table. -/
  | blockEnd
  | flowListStart
  | flowListEnd
  | flowTableStart
  | flowTableEnd
  /-- The hyphen before an item. -/
  | blockEntry
  | flowEntry
  /-- A key comes next. -/
  | key
  /-- A value comes next. -/
  | value
  | alias (name : String)
  | anchor (name : String)
  /-- A tag by its handle and the bytes of the rest of it. -/
  | tag (handle : String) (suffix : List UInt8)
  /-- A scalar, and whether it is written without quotes or marks. -/
  | scalar (text : String) (plain : Bool)
deriving DecidableEq, Inhabited

end ApiFolio.Yaml

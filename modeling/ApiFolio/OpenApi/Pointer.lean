import ApiFolio.Text.Basic

/-!
# Component pointers

A component of a document is named by the pointer `#/components/` followed by its area, a slash
and its name, in which a tilde is written `~0` and a slash `~1`.
-/

namespace ApiFolio.OpenApi.Pointer

/-- Writes a name as one token of a pointer. -/
def escape : List Char → List Char
  | [] => []
  | c :: cs =>
    if c = '~' then '~' :: '0' :: escape cs
    else if c = '/' then '~' :: '1' :: escape cs
    else c :: escape cs

/-- The name that a token of a pointer writes; a tilde before another character stays. -/
def unescape : List Char → List Char
  | [] => []
  | '~' :: '1' :: cs => '/' :: unescape cs
  | '~' :: '0' :: cs => '~' :: unescape cs
  | c :: cs => c :: unescape cs

/-- The name that the text of a pointer token stands for. -/
def unescapeText (s : String) : String := String.ofList (unescape s.toList)

/-- What the pointers into all areas start with. -/
def root : String := "#/components/"

/-- What the pointers into an area start with. -/
def areaRoot (area : String) : String := root ++ area ++ "/"

/-- The pointer to the component of a name in an area. -/
def component (area name : String) : String :=
  areaRoot area ++ String.ofList (escape name.toList)

/-- The name of the component that a pointer into an area names; none if the rest of the pointer
is empty or goes further down. -/
def name? (pointer area : String) : Option String :=
  match Text.dropBeginning? (areaRoot area) pointer with
  | none => none
  | some token =>
    if token.isEmpty || token.toList.contains '/' then none else some (unescapeText token)

end ApiFolio.OpenApi.Pointer

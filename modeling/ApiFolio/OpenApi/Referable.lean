import ApiFolio.Record

/-!
# Objects that may be given by a pointer

Where the format allows it, an object stands for itself or is replaced by an object whose `$ref`
member is a string: the pointer to it.
-/

namespace ApiFolio.OpenApi

universe u

/-- An object, or a pointer to it. -/
inductive Referable (α : Type u) where
  | ref (pointer : String)
  | item (x : α)
deriving Inhabited

namespace Referable

variable {α : Type u}

/-- The pointer, if this is one. -/
def pointer? : Referable α → Option String
  | ref pointer => some pointer
  | item _ => none

/-- The object, if it stands here. -/
def item? : Referable α → Option α
  | ref _ => none
  | item x => some x

/-- An object with a string under `$ref` is a pointer, whatever else it holds. -/
def pointerOf? (v : Json) : Option String := v.get? "$ref" >>= Json.text?

def ofJson? (read : Json → Option α) (v : Json) : Option (Referable α) :=
  match pointerOf? v with
  | some pointer => some (ref pointer)
  | none => (read v).map item

def toJson (write : α → Json) : Referable α → Json
  | ref pointer => .obj [("$ref", .str pointer)]
  | item x => write x

end Referable

end ApiFolio.OpenApi

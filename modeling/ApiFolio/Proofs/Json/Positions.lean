import ApiFolio.Json.Basic

/-!
# Positions in a value

What stands in a value is reached by steps, each to an item of an array or to a member of an object
(`Json.at?`). A value without what is inside it is its outline. A value that has the outline of
another at every position has the same shape, and the same scalars in the same places.
-/

namespace ApiFolio.Json

/-- A step into a value: to an item of an array by its index, or to a member of an object by its
name. -/
inductive Step where
  | item (n : Nat)
  | member (name : String)
deriving DecidableEq, Repr

/-- What one step leads to. -/
def step? (v : Json) : Step → Option Json
  | .item n => v.items?.bind fun items => items[n]?
  | .member name => v.get? name

/-- What several steps lead to: the value itself if there are none. -/
def at? (v : Json) : List Step → Option Json
  | [] => some v
  | s :: rest => (v.step? s).bind fun w => w.at? rest

/-- A value without what is inside it: a scalar as it is, an array by the number of its items, an
object by the names of its members. -/
def outline : Json → Json
  | .arr items => .arr (items.map fun _ => .null)
  | .obj members => .obj (members.map fun m => (m.1, .null))
  | v => v

theorem at?_cons (v : Json) (s : Step) (rest : List Step) :
    v.at? (s :: rest) = (v.step? s).bind fun w => w.at? rest := rfl

theorem at?_append (v : Json) (p q : List Step) :
    v.at? (p ++ q) = (v.at? p).bind fun w => w.at? q := by
  induction p generalizing v with
  | nil => rfl
  | cons s rest ih =>
    rw [List.cons_append, at?_cons, at?_cons, Option.bind_assoc]
    exact Option.bind_congr fun w _ => ih w

/-- No step leads into a text. -/
theorem at?_str_cons (text : String) (s : Step) (rest : List Step) :
    (Json.str text).at? (s :: rest) = none := by
  cases s <;> rfl

end ApiFolio.Json

/-!
# Names in braces

Server addresses and paths hold names in braces. A name is a run of characters without braces, at
least one, directly between an opening and a closing brace. Both walks below go over the text once
and keep the run since the last opening brace, last character first.
-/

namespace ApiFolio.Text.Template

def opening : Char := '{'

def closing : Char := '}'

/-- A name in braces as it is written. -/
def written (name : List Char) : List Char := opening :: (name ++ [closing])

/-- Fills in the values of the names that have one, in one pass: what is filled in is not looked
at again. -/
def fill (value? : List Char → Option (List Char)) : Option (List Char) → List Char → List Char
  | none, [] => []
  | some seen, [] => opening :: seen.reverse
  | none, c :: cs => if c = opening then fill value? (some []) cs else c :: fill value? none cs
  | some seen, c :: cs =>
    if c = opening then opening :: (seen.reverse ++ fill value? (some []) cs)
    else if c = closing then
      let text :=
        if seen.isEmpty then written []
        else (value? seen.reverse).getD (written seen.reverse)
      text ++ fill value? none cs
    else fill value? (some (c :: seen)) cs

/-- The names in braces that hold no slash, in the order in which they stand. -/
def names : Option (List Char) → List Char → List (List Char)
  | _, [] => []
  | seen, c :: cs =>
    if c = opening then names (some []) cs
    else if c = closing then
      match seen with
      | some (d :: ds) => (d :: ds).reverse :: names none cs
      | _ => names none cs
    else if c = '/' then names none cs
    else names (seen.map (c :: ·)) cs

end ApiFolio.Text.Template

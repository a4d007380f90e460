import ApiFolio.Json.Token

/-!
# Reading JSON

The reader walks over the tokens once with the stack of the arrays and objects that are open. The
stack may grow to a limit only. Of several members with one name the last counts.
-/

namespace ApiFolio.Json

namespace Reader

/-- An array or object that is open. -/
inductive Frame where
  /-- An array with its items so far, last first. -/
  | list (items : List Json)
  /-- An object with its members so far and the name read last. -/
  | table (members : List (String × Json)) (name : String)

/-- What may come next. -/
inductive Stage where
  | value
  | itemOrEnd
  | nameOrEnd
  | name
  | colon
  /-- A comma, or the end of the innermost array or object. -/
  | separator
  | done (v : Json)

/-- The open arrays and objects, innermost first, and what may come next. -/
structure State where
  stack : List Frame
  stage : Stage

/-- A value is complete. -/
def complete (stack : List Frame) (v : Json) : State :=
  match stack with
  | [] => ⟨[], .done v⟩
  | .list items :: rest => ⟨.list (v :: items) :: rest, .separator⟩
  | .table members name :: rest => ⟨.table (Entries.insert name v members) name :: rest, .separator⟩

/-- A token where a value may start. -/
def begin? (limit : Nat) (stack : List Frame) : Token → Option State
  | .openArray =>
    if stack.length < limit then some ⟨.list [] :: stack, .itemOrEnd⟩ else none
  | .openObject =>
    if stack.length < limit then some ⟨.table [] "" :: stack, .nameOrEnd⟩ else none
  | .text s => some (complete stack (.str s))
  | .atom v => some (complete stack v)
  | _ => none

/-- The innermost array or object ends. -/
def close? : List Frame → Token → Option State
  | .list items :: rest, .closeArray => some (complete rest (.arr items.reverse))
  | .table members _ :: rest, .closeObject => some (complete rest (.obj members))
  | _, _ => none

/-- A token where a name may stand. -/
def name? : List Frame → Token → Option State
  | .table members _ :: rest, .text s => some ⟨.table members s :: rest, .colon⟩
  | _, _ => none

/-- One token more. -/
def step? (limit : Nat) (s : State) (t : Token) : Option State :=
  match s.stage with
  | .value => begin? limit s.stack t
  | .itemOrEnd => close? s.stack t <|> begin? limit s.stack t
  | .nameOrEnd => close? s.stack t <|> name? s.stack t
  | .name => name? s.stack t
  | .colon =>
    match t with
    | .colon => some ⟨s.stack, .value⟩
    | _ => none
  | .separator =>
    match t, s.stack with
    | .comma, .list _ :: _ => some ⟨s.stack, .value⟩
    | .comma, .table _ _ :: _ => some ⟨s.stack, .name⟩
    | t, stack => close? stack t
  | .done _ => none

/-- The value at the end of the tokens. -/
def finish? (s : State) : Option Json :=
  match s.stage with
  | .done v => some v
  | _ => none

end Reader

def ofTokens? (limit : Nat) (ts : List Token) : Option Json :=
  ts.foldlM (Reader.step? limit) ⟨[], .value⟩ >>= Reader.finish?

/-- The arrays and objects of a document may stand this deep in one another. -/
def depthLimit : Nat := 127

/-- Reads a JSON text with at most `limit` arrays and objects inside one another. -/
def readWithin? (limit : Nat) (s : String) : Option Json :=
  Token.scan? s.toList >>= ofTokens? limit

def read? (s : String) : Option Json := readWithin? depthLimit s

end ApiFolio.Json

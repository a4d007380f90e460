import ApiFolio.Text.Basic

/-!
# The journal

What is worth telling about a run, line by line, each line with how much it matters. A story is a
part of the journal that may break off, because what it tells of failed; nothing follows then.
-/

namespace ApiFolio.Journal

/-- How much a line matters. -/
inductive Level where
  | debug | info | warn | error
deriving DecidableEq, Repr, Inhabited

def Level.name : Level → String
  | debug => "DEBUG"
  | info => "INFO"
  | warn => "WARN"
  | error => "ERROR"

/-- A line of the journal. -/
structure Entry where
  level : Level
  message : String
deriving DecidableEq, Inhabited, Repr

/-- A line on a detail. -/
def debug (message : String) : Entry := ⟨.debug, message⟩

/-- A line on a step. -/
def info (message : String) : Entry := ⟨.info, message⟩

/-- A line on something that may be wrong. -/
def warn (message : String) : Entry := ⟨.warn, message⟩

/-- What a line calls an entry that could not be read: its key, up to the first colon with a space
after it, where the cause would start. -/
def subject (key : String) : String := String.ofList (Text.beforeInfix [':', ' '] key.toList)

/-- A message as it is put down: its further lines stand four columns in, and nothing blank is at
its end. -/
def laidOut (message : String) : String :=
  Text.trimEnd (Text.join "\n    " (Text.split '\n' message))

/-- A part of the journal. -/
structure Story where
  entries : List Entry := []
  /-- Whether it goes on to its end. -/
  goesOn : Bool := true
deriving Inhabited

namespace Story

/-- A story that goes on. -/
def tell (entries : List Entry) : Story := { entries }

/-- A story of nothing that goes on only under a condition. -/
def goOnIf (b : Bool) : Story := { goesOn := b }

/-- One story after another, unless the first breaks off. -/
def andThen (a b : Story) : Story :=
  if a.goesOn then ⟨a.entries ++ b.entries, b.goesOn⟩ else a

/-- Stories one after another, up to the first that breaks off. -/
def sequence : List Story → Story
  | [] => {}
  | a :: rest => a.andThen (sequence rest)

end Story

end ApiFolio.Journal

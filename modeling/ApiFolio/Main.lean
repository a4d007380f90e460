import ApiFolio.Cli.Program
import ApiFolio.Journal.Conversion

/-!
# The command line

Reads the document, prints or writes the export, and tells the journal on the error stream.
-/

namespace ApiFolio.Cli

/-- Tells lines of the journal, details only if they are asked for. -/
def tell (verbose : Bool) (entries : List Journal.Entry) : IO Unit := do
  for e in entries do
    if verbose || e.level != .debug then
      IO.eprintln ("[" ++ e.level.name ++ "] " ++ Journal.laidOut e.message)

/-- Tells an error, and gives the status that goes with it. -/
def tellError (message : String) : IO UInt32 := do
  tell false [⟨.error, message⟩]
  return 1

/-- The content of a file, if it can be read. -/
def content? (path : String) : IO (Option ByteArray) :=
  try
    return some (← IO.FS.readBinFile path)
  catch _ => return none

/-- Writes a file; tells whether that could be done. -/
def writeText (path text : String) : IO Bool :=
  try
    IO.FS.writeFile path text
    return true
  catch _ => return false

/-- Carries out a conversion. -/
def Job.carryOut (job : Job) : IO UInt32 := do
  let content ← content? job.input
  match content.map (InputFormat.ofPath job.input).read with
  | some (.ok v) => tell job.verbose (Journal.loading v)
  | _ => pure ()
  match job.load content with
  | .error e => tellError (job.loadFailure e)
  | .ok loaded =>
    tell job.verbose (Journal.converting loaded)
    match job.output with
    | none =>
      IO.println (job.exportText loaded)
      return 0
    | some output =>
      if ← writeText output (job.exportText loaded) then
        tell job.verbose [Journal.info ("Wrote export to " ++ Text.quoted output)]
        return 0
      else tellError (writeFailure output)

end ApiFolio.Cli

/-- Does what the arguments ask for. -/
def main (args : List String) : IO UInt32 := do
  match ApiFolio.Cli.Request.ofArgs args with
  | .print text status =>
    IO.print text
    return UInt32.ofNat status
  | .refuse =>
    IO.eprintln "The arguments are not understood; try --help."
    return 2
  | .convert job => job.carryOut

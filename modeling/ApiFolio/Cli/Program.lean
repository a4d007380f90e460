import ApiFolio.Cli.Args
import ApiFolio.Export.Conversion
import ApiFolio.Journal.Entry
import ApiFolio.Source

/-!
# The program

What the program does with its arguments and with the files of a directory: it converts one
document and prints the export or writes it to a file.
-/

namespace ApiFolio.Cli

def versionText : String := "swag-convert 0.1.0\n"

def helpText : String :=
  "Converts Swagger 2.0 / OpenAPI 3.x documents into a folder-oriented API collection export\n"
    ++ "\n"
    ++ "Usage: swag-convert [OPTIONS]\n"
    ++ "\n"
    ++ "Options:\n"
    ++ "  -i, --input <INPUT>      Path to the JSON or YAML document to convert\n"
    ++ "  -o, --output <OUTPUT>    Where to write the export; printed to stdout when omitted\n"
    ++ "      --pretty [<PRETTY>]  Indent the JSON output [default: true] "
    ++ "[possible values: true, false]\n"
    ++ "  -v, --verbose            Enable verbose output\n"
    ++ "  -h, --help               Print help\n"
    ++ "  -V, --version            Print version\n"

/-- A conversion that the arguments ask for. -/
structure Job where
  input : String
  /-- Where to write the export, if not to be printed. -/
  output : Option String
  pretty : Bool
  verbose : Bool
deriving Inhabited

/-- What the arguments ask for. -/
inductive Request where
  | print (text : String) (status : Nat)
  /-- Nothing that can be done. -/
  | refuse
  | convert (job : Job)
deriving Inhabited

/-- What some arguments ask for. -/
def Request.ofArgs (args : List String) : Request :=
  match Args.ofList args with
  | .error .displayHelp => print helpText 0
  | .error .displayVersion => print versionText 0
  | .error _ => refuse
  | .ok args =>
    match args.input with
    | none => print helpText 1
    | some input =>
      convert { input, output := args.output, pretty := args.pretty, verbose := args.verbose }

namespace Job

/-- Loads the document of a job, given the content of its file if that can be read. -/
def load (job : Job) (content : Option ByteArray) : Except LoadError Loaded :=
  match content with
  | none => .error .unreadable
  | some bytes => Loaded.ofBytes (InputFormat.ofPath job.input) bytes

/-- The text of the export of a loaded document. -/
def exportText (job : Job) (loaded : Loaded) : String :=
  (Export.convert loaded.document loaded.declaredVersion).render job.pretty

/-- What is said when the document cannot be loaded. -/
def loadFailure (job : Job) (e : LoadError) : String :=
  "Failed to convert " ++ Text.quoted job.input ++ ": " ++ e.message

end Job

/-- What is said when the export cannot be written. -/
def writeFailure (output : String) : String := "Failed to write " ++ Text.quoted output

/-! ## Files -/

/-- The files of a directory by their paths below it. -/
abbrev Files := Dict String

namespace Files

/-- Whether there is a directory at a path below. -/
def hasDirectory (files : Files) (parts : List String) : Bool :=
  parts.isEmpty || files.keys.any (Text.startsWith (Text.join "/" parts ++ "/"))

/-- Follows the parts of a path from a directory below, its parts being given last first. -/
def walk? (files : Files) : List String → List String → Option (List String)
  | here, [] => some here.reverse
  | here, part :: rest =>
    if part.isEmpty || part == "." then walk? files here rest
    else if part = ".." then
      match here with
      | [] => none
      | _ :: above => if files.hasDirectory here.reverse then walk? files above rest else none
    else walk? files (part :: here) rest

/-- The greatest number of bytes of a path. -/
def pathLimit : Nat := 4095

def nameLimit : Nat := 255

/-- The path below that a path names, if it may name a file. -/
def locate? (files : Files) (path : String) : Option String :=
  let parts := Text.split '/' path
  let last := parts.getLast?.getD ""
  if Text.startsWith "/" path || ["", ".", ".."].contains last then none
  else if pathLimit < path.utf8ByteSize || nameLimit < last.utf8ByteSize then none
  else (files.walk? [] parts).map (Text.join "/")

/-- The device that holds nothing and takes everything. -/
def nullDevice : String := "/dev/null"

def read? (files : Files) (path : String) : Option ByteArray :=
  if path = nullDevice then some .empty
  else (files.locate? path >>= files.get?).map String.toUTF8

/-- Writes a file, if its directory is there and it is no directory itself. -/
def write? (files : Files) (path content : String) : Option Files :=
  if path = nullDevice then some files
  else do
    let name ← files.locate? path
    let parts := Text.split '/' name
    if files.hasDirectory parts.dropLast && !files.hasDirectory parts then
      return files.insert name content
    else none

end Files

/-- What a run leaves behind. -/
structure Outcome where
  status : Nat
  stdout : String := ""
  files : Files
  /-- What the journal says of the error that ended the run, if one did. -/
  errorLine : Option String := none

/-- Runs the program in a directory. -/
def run (args : List String) (files : Files) : Outcome :=
  match Request.ofArgs args with
  | .print text status => { status, stdout := text, files }
  | .refuse => { status := 2, files }
  | .convert job =>
    match job.load (files.read? job.input) with
    | .error e => { status := 1, files, errorLine := some (Journal.laidOut (job.loadFailure e)) }
    | .ok loaded =>
      match job.output with
      | none => { status := 0, stdout := job.exportText loaded ++ "\n", files }
      | some output =>
        match files.write? output (job.exportText loaded) with
        | some after => { status := 0, files := after }
        | none => { status := 1, files, errorLine := some (Journal.laidOut (writeFailure output)) }

/-- The files of an outcome that were not there before, or not so. -/
def Outcome.written (o : Outcome) (before : Files) : Files :=
  o.files.filter fun name content => before.get? name != some content

end ApiFolio.Cli

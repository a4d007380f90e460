import ApiFolio.Text.Basic

/-!
# Arguments

The options of the command line. Arguments are read from left to right. The value of an option may
stand in the next argument, unless that looks like an option itself; it is looked at only when the
next option or the end is met, so that an unknown argument in between counts first.
-/

namespace ApiFolio.Cli

/-- What is wrong with the arguments, or what they ask for instead of a conversion. -/
inductive UsageError where
  /-- An option that is not known, or an argument that belongs to no option. -/
  | unknownArgument
  /-- A value that is missing or not allowed. -/
  | invalidValue
  /-- An option that is given twice. -/
  | argumentConflict
  /-- A value for an option that takes none. -/
  | tooManyValues
  | displayHelp
  | displayVersion
deriving DecidableEq, Repr, Inhabited

/-- What the arguments say. -/
structure Args where
  input : Option String := none
  output : Option String := none
  /-- Whether to indent the export, if the arguments say so. -/
  pretty? : Option Bool := none
  verbose : Bool := false
deriving DecidableEq, Inhabited

/-- Whether to indent the export; so it is done unless the arguments say otherwise. -/
def Args.pretty (args : Args) : Bool := args.pretty?.getD true

/-- The options. -/
inductive Flag where
  | input | output | pretty | verbose | help | version
deriving DecidableEq, Repr, Inhabited

namespace Flag

def ofLong? (name : String) : Option Flag :=
  if name = "input" then some input
  else if name = "output" then some output
  else if name = "pretty" then some pretty
  else if name = "verbose" then some verbose
  else if name = "help" then some help
  else if name = "version" then some version
  else none

def ofShort? (c : Char) : Option Flag :=
  if c = 'i' then some input
  else if c = 'o' then some output
  else if c = 'v' then some verbose
  else if c = 'h' then some help
  else if c = 'V' then some version
  else none

def takesValue : Flag → Bool
  | input => true
  | output => true
  | pretty => true
  | _ => false

end Flag

/-! ## Long options after one hyphen -/

/-- The long options that may stand after one hyphen. -/
def singleHyphenNames : List String := ["input", "output", "pretty", "verbose", "help"]

/-- Gives a long option that stands after one hyphen its second. -/
def doubleHyphen (arg : String) : String :=
  match arg.toList with
  | '-' :: rest =>
    let name := String.ofList (rest.takeWhile (· != '='))
    if rest.head? != some '-' && singleHyphenNames.contains name then "--" ++ String.ofList rest
    else arg
  | _ => arg

/-! ## Reading -/

/-- What has been read, and the option whose value is to come, with the value if it has come. -/
structure Reading where
  args : Args := {}
  /-- The option that is not taken in yet. -/
  pending : Option (Flag × Option String) := none
  /-- Whether all further arguments belong to no option. -/
  trailing : Bool := false
deriving Inhabited

/-- A path, which may not be empty. -/
def path? (value : Option String) : Except UsageError String :=
  match value with
  | some s => if s.isEmpty then .error .invalidValue else .ok s
  | none => .error .invalidValue

/-- Takes in an option with its value. -/
def Args.take (args : Args) (flag : Flag) (value : Option String) : Except UsageError Args :=
  match flag with
  | .input =>
    if value.isNone then .error .invalidValue
    else if args.input.isSome then .error .argumentConflict
    else (path? value).map fun s => { args with input := some s }
  | .output =>
    if value.isNone then .error .invalidValue
    else if args.output.isSome then .error .argumentConflict
    else (path? value).map fun s => { args with output := some s }
  | .pretty =>
    if args.pretty?.isSome then .error .argumentConflict
    else
      match value with
      | none => .ok { args with pretty? := some true }
      | some s =>
        if s = "true" then .ok { args with pretty? := some true }
        else if s = "false" then .ok { args with pretty? := some false }
        else .error .invalidValue
  | .verbose =>
    if args.verbose then .error .argumentConflict else .ok { args with verbose := true }
  | .help => .error .displayHelp
  | .version => .error .displayVersion

namespace Reading

/-- Takes in the option that is pending. -/
def settle (r : Reading) : Except UsageError Reading :=
  match r.pending with
  | none => .ok r
  | some (flag, value) =>
    (r.args.take flag value).map fun args => { r with args, pending := none }

/-- An option, with the value that is attached to it. -/
def option (r : Reading) (flag : Flag) (attached : Option String) : Except UsageError Reading := do
  let r ← r.settle
  if flag.takesValue && attached.isNone then return { r with pending := some (flag, none) }
  else
    let args ← r.args.take flag attached
    return { r with args }

/-- A long option after its hyphens. -/
def long (r : Reading) (cs : List Char) : Except UsageError Reading :=
  let name := String.ofList (cs.takeWhile (· != '='))
  let attached :=
    match cs.dropWhile (· != '=') with
    | _ :: value => some (String.ofList value)
    | [] => none
  match Flag.ofLong? name with
  | none => .error .unknownArgument
  | some flag =>
    if !flag.takesValue && attached.isSome then .error .tooManyValues else r.option flag attached

/-- Letters after one hyphen; the rest after a letter that takes a value is this value. -/
def short (r : Reading) : List Char → Except UsageError Reading
  | [] => .ok r
  | c :: rest =>
    match Flag.ofShort? c with
    | none => .error .unknownArgument
    | some flag =>
      if flag.takesValue then
        let attached :=
          match rest with
          | [] => none
          | '=' :: value => some (String.ofList value)
          | value => some (String.ofList value)
        r.option flag attached
      else do
        let r ← r.option flag none
        r.short rest

def argument (r : Reading) (arg : String) : Except UsageError Reading :=
  if r.trailing then .error .unknownArgument
  else
    match arg.toList with
    | ['-', '-'] => .ok { r with trailing := true }
    | '-' :: '-' :: cs => r.long cs
    | '-' :: c :: cs => r.short (c :: cs)
    | _ =>
      match r.pending with
      | some (flag, none) => .ok { r with pending := some (flag, some arg) }
      | _ => .error .unknownArgument

end Reading

def Args.ofList (args : List String) : Except UsageError Args := do
  let r ← (args.map doubleHyphen).foldlM Reading.argument {}
  let r ← r.settle
  return r.args

end ApiFolio.Cli

import ApiFolio.Json.Reader
import ApiFolio.Swagger.Upgrade
import ApiFolio.Validation.Document
import ApiFolio.Validation.Raw
import ApiFolio.Yaml.Reader

/-!
# Loading documents

A document comes as text in one of two formats and in one of two versions. Loading tells the
versions apart, upgrades the older one, and gathers the issues of the raw and of the typed form;
issues are no obstacle.
-/

namespace ApiFolio

/-- The format of a text. -/
inductive InputFormat where
  | json | yaml
deriving DecidableEq, Repr, Inhabited

namespace InputFormat

/-- The parts of a path that count: neither empty nor the place itself. -/
def pathParts (path : String) : List (List Char) :=
  (Text.splitChars '/' path.toList).filter fun part => !part.isEmpty && part != ['.']

/-- What follows the last dot of a file name, if something stands before it. -/
def extension? (path : String) : Option String :=
  match (pathParts path).getLast? with
  | none => none
  | some name =>
    if name = ['.', '.'] then none
    else
      let ending := (name.reverse.takeWhile (· != '.')).reverse
      if ending.length + 1 < name.length then some (String.ofList ending) else none

/-- The format of a file by the ending of its name. -/
def ofPath (path : String) : InputFormat :=
  match (extension? path).map Text.lowerAscii with
  | some "yaml" => yaml
  | some "yml" => yaml
  | _ => json

end InputFormat

/-- The version in which a document is written. -/
inductive Dialect where
  | swagger2
  | openApi3
deriving DecidableEq, Repr, Inhabited

/-- The name of a dialect. -/
def Dialect.name : Dialect → String
  | swagger2 => "Swagger2"
  | openApi3 => "OpenApi3"

/-- Why a document cannot be loaded. -/
inductive LoadError where
  | unreadable
  /-- The text is no JSON, or no JSON can be made of it. -/
  | invalidJson
  | invalidYaml
  | notAnObject (kind : String)
  | notADocument
  | upgrade (error : Swagger.UpgradeError)
deriving DecidableEq, Inhabited

/-- What is wrong, in words. -/
def LoadError.message : LoadError → String
  | unreadable => "Failed to read input"
  | invalidJson => "Invalid JSON input"
  | invalidYaml => "Invalid YAML input"
  | notAnObject kind => "Top-level document must be an object, found " ++ kind
  | notADocument => "Failed to load OpenAPI document"
  | upgrade error =>
    "Failed to upgrade Swagger 2.0 document" ++
      match error.detail? with
      | some detail => ": " ++ detail
      | none => ""

/-- A document that is ready for conversion. -/
structure Loaded where
  /-- The document, in version 3. -/
  document : OpenApi.Document
  dialect : Dialect
  /-- The version as it says itself. -/
  declaredVersion : String
  issues : List Validation.Issue

/-- The version of a document that says it is of version 2, as a string or as a number. -/
def swaggerVersion? (v : Json) : Option String :=
  let version? : Option String :=
    match v.get? "swagger" with
    | some (.str s) => some s
    | some (.num n) => some n.text
    | _ => none
  version?.filter fun s => Text.startsWith "2" (Text.trimStart s)

namespace Loaded

/-- Loads a document from its raw form. -/
def ofJson (v : Json) : Except LoadError Loaded :=
  match v with
  | .obj _ =>
    match swaggerVersion? v with
    | some version =>
      match Swagger.upgrade v with
      | .ok document =>
        .ok {
          document, dialect := .swagger2, declaredVersion := version,
          issues := Validation.raw v ++ Validation.document document }
      | .error e => .error (.upgrade e)
    | none =>
      match OpenApi.Document.ofJson? v with
      | some document =>
        .ok {
          document, dialect := .openApi3, declaredVersion := document.openapi,
          issues := Validation.raw v ++ Validation.document document }
      | none => .error .notADocument
  | v => .error (.notAnObject v.kind)

end Loaded

def readJson (bytes : ByteArray) : Except LoadError Json :=
  match String.fromUTF8? bytes >>= Json.read? with
  | some v => .ok v
  | none => .error .invalidJson

/-- The raw form of a YAML text. A value that JSON cannot hold is an error of JSON. -/
def readYaml (bytes : ByteArray) : Except LoadError Json :=
  match String.fromUTF8? bytes >>= Yaml.read? with
  | some v =>
    match v.toJson? with
    | some j => .ok j
    | none => .error .invalidJson
  | none => .error .invalidYaml

def InputFormat.read : InputFormat → ByteArray → Except LoadError Json
  | json, bytes => readJson bytes
  | yaml, bytes => readYaml bytes

/-- Loads a document from a text. -/
def Loaded.ofBytes (format : InputFormat) (bytes : ByteArray) : Except LoadError Loaded :=
  format.read bytes >>= Loaded.ofJson

end ApiFolio

import ApiClient.Config.Basic
import ApiClient.Document.Format
import ApiClient.Json.Reader
import ApiClient.Text.Pieces
import ApiClient.Toml.Reader
import ApiClient.Yaml.Typed

/-! Configuration files. The extension of a file's name tells its format. -/

namespace ApiClient

inductive ConfigError where
  | unsupported (path : String)
  | io | yaml | json | toml
  deriving DecidableEq

/-- The wording for a file that is not looked into. Other faults are told by the file's format. -/
def ConfigError.message? : ConfigError → Option String
  | .unsupported path => some ("unsupported config format: " ++ path)
  | _ => none

namespace Config

def fieldNames : List String := ["file_headers", "hook_factory", "client_request", "error_type"]

section

variable {m : Type → Type} [Monad m] [MonadExcept Unit m] {ν : Type}

def read (f : Format m ν) (v : ν) : m Config := do
  let r ← f.record fieldNames v
  let d : Config := {}
  return {
    fileHeaders := ← Format.defaulted r "file_headers" d.fileHeaders (f.listOf f.text)
    hookFactory := ← Format.defaulted r "hook_factory" d.hookFactory f.text
    clientRequest := ← Format.defaulted r "client_request" d.clientRequest f.text
    errorType := ← Format.defaulted r "error_type" d.errorType f.text }

end

/-- The values of unknown keys are skipped. -/
def ofJson? (text : String) : Option Config :=
  Json.Reader.tree? ⟨true, fieldNames.contains⟩ text >>= read Tree.strict

def ofYaml? (text : String) : Option Config := Yaml.read? read text

def ofToml? (text : String) : Option Config := Toml.tree? text >>= read Tree.strict

/-- The last part of a path, unless that leads upwards. -/
def fileName? (path : String) : Option (List Char) :=
  (((Text.pieces (· == '/') path.toList).filter fun p => p ≠ [] ∧ p ≠ ['.']).getLast?).filter
    (· ≠ ['.', '.'])

/-- What follows the last point of a file's name. A point at its beginning does not count. -/
def extension? (path : String) : Option String := do
  let name ← fileName? path
  let after := (name.reverse.takeWhile (· != '.')).reverse
  guard (after.length + 1 < name.length)
  return String.ofList (after.map Char.toLower)

/-- The reader of a file's format. -/
def reader? (path : String) : Option (String → Except ConfigError Config) :=
  let orElse (e : ConfigError) (read : String → Option Config) (text : String) :=
    match read text with
    | some c => .ok c
    | none => .error e
  match extension? path with
  | some "yaml" => some (orElse .yaml ofYaml?)
  | some "yml" => some (orElse .yaml ofYaml?)
  | some "json" => some (orElse .json ofJson?)
  | some "toml" => some (orElse .toml ofToml?)
  | _ => none

/-- The configuration in a file, whose text is missing when it cannot be read. -/
def load (path : String) (text : Option String) : Except ConfigError Config :=
  match reader? path, text with
  | none, _ => .error (.unsupported path)
  | some _, none => .error .io
  | some read, some text => read text

end Config

end ApiClient

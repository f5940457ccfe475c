import ApiClient.Document.Reading
import ApiClient.Json.Reader
import ApiClient.Text.Blank
import ApiClient.Yaml.Typed

/-! Description text, which is JSON or YAML. -/

namespace ApiClient

inductive LoadError where
  | json | yaml
  deriving DecidableEq

/-- A text that opens a brace is JSON if it can be read as JSON, and YAML otherwise. -/
def jsonOf? (text : String) : Option Json :=
  if (text.toList.dropWhile Text.isBlank).head? == some '{' then
    (Json.probe "document is not valid JSON, retrying as YAML" (.str text)).1
  else none

theorem read?_of_jsonOf? {text : String} {v : Json} (h : jsonOf? text = some v) :
    Json.read? text = some v := by
  rw [jsonOf?] at h
  split at h
  · obtain ⟨_, htext, hv⟩ := Json.probe_eq_some_iff.mp h
    rwa [Json.str.inj htext]
  · cases h

def Document.load (text : String) : Except LoadError Document :=
  match jsonOf? text with
  | some v =>
    match Document.ofJson? v with
    | some d => .ok d
    | none => .error .json
  | none =>
    match Yaml.read? Document.read text with
    | some d => .ok d
    | none => .error .yaml

/-- A schema, or a reference to one, as JSON text. -/
def Schema.ofText? (text : String) : Option (RefOr Schema) :=
  (Json.read? text).bind fun v => Schema.read? v.toTree

end ApiClient

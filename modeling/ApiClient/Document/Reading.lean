import ApiClient.Document.Basic
import ApiClient.Document.Format

/-! Reading a description out of data of any format. Where a component may be referred to, a value is
taken as it stands, whatever the format. -/

namespace ApiClient

open Format
open ApiClient.Tree (strict)

/-- A mapping whose `$ref` is one string is a reference, whatever else it holds. -/
def RefOr.ofTree? (read : Tree → Option α) (t : Tree) : Option (RefOr α) :=
  let reference := match t with
    | .map entries => do
      let fields ← Tree.knownFields ["$ref"] entries
      fields.lookup "$ref" >>= Tree.str?
    | _ => none
  match reference with
  | some r => some (.ref r)
  | none => (read t).map .inline

def SchemaType.ofTree? : Tree → Option SchemaType
  | .str name => some (.single name)
  | t => (strict.listOf Tree.str? t).map .several

def Additional.ofTree? (read : Tree → Option α) : Tree → Option (Additional α)
  | .bool b => some (.allowed b)
  | t => (read t).map .values

namespace Schema

def fieldNames : List String :=
  ["type", "format", "enum", "properties", "required", "items", "additionalProperties", "allOf",
    "oneOf", "anyOf", "nullable"]

/-- A schema, given how the schemas inside are read. -/
def ofTree? (inner : Tree → Option (RefOr Schema)) (t : Tree) : Option Schema := do
  let r ← t.record? fieldNames
  return {
    type := ← strict.optionally r "type" SchemaType.ofTree?
    format := ← strict.optionally r "format" Tree.str?
    enum := ← strict.optionally r "enum" (strict.listOf Json.ofTree?)
    properties := ← defaulted r "properties" [] (strict.tableOf inner)
    required := ← defaulted r "required" [] (strict.listOf Tree.str?)
    items := ← strict.optionally r "items" inner
    additional := ← strict.optionally r "additionalProperties" (Additional.ofTree? inner)
    allOf := ← defaulted r "allOf" [] (strict.listOf inner)
    oneOf := ← defaulted r "oneOf" [] (strict.listOf inner)
    anyOf := ← defaulted r "anyOf" [] (strict.listOf inner)
    nullable := ← defaulted r "nullable" false Tree.bool? }

/-- The schemas of a tree with at most `levels` levels. -/
def ofLevels? : Nat → Tree → Option (RefOr Schema)
  | 0, _ => none
  | levels + 1, t => RefOr.ofTree? (ofTree? (ofLevels? levels)) t

def read? (t : Tree) : Option (RefOr Schema) := ofLevels? t.depth t

end Schema

namespace Parameter

def fieldNames : List String := ["name", "in", "required", "schema", "type"]

def ofTree? (t : Tree) : Option Parameter := do
  let r ← t.record? fieldNames
  return {
    name := ← Format.required r "name" Tree.str?
    location := ← Format.required r "in" Tree.str?
    required := ← defaulted r "required" false Tree.bool?
    schema := ← strict.optionally r "schema" Schema.read?
    type := ← strict.optionally r "type" Tree.str? }

def read? (t : Tree) : Option (RefOr Parameter) := RefOr.ofTree? ofTree? t

end Parameter

namespace Body

def mediaType? (t : Tree) : Option (Option (RefOr Schema)) := do
  let r ← t.record? ["schema"]
  strict.optionally r "schema" Schema.read?

def ofTree? (t : Tree) : Option Body := do
  let r ← t.record? ["content"]
  return { content := ← defaulted r "content" [] (strict.tableOf mediaType?) }

def read? (t : Tree) : Option (RefOr Body) := RefOr.ofTree? ofTree? t

end Body

section

variable {m : Type → Type} [Monad m] [MonadExcept Unit m] {ν : Type}

def Operation.read (f : Format m ν) (v : ν) : m Operation := do
  let r ← f.record ["operationId", "parameters", "requestBody", "responses"] v
  return {
    operationId := ← f.optionally r "operationId" f.text
    parameters := ← defaulted r "parameters" [] (f.listOf (f.within Parameter.read?))
    requestBody := ← f.optionally r "requestBody" (f.within Body.read?)
    responses := ← defaulted r "responses" [] (f.tableOf (f.within Body.read?)) }

namespace PathItem

def fieldNames : List String := Method.all.map Method.text ++ ["parameters"]

def method (f : Format m ν) (r : Record ν) (method : Method) : m (Method × Option Operation) := do
  return (method, ← f.optionally r method.text (Operation.read f))

def read (f : Format m ν) (v : ν) : m PathItem := do
  let r ← f.record fieldNames v
  let operations ← Method.all.mapM (method f r)
  let parameters ← defaulted r "parameters" [] (f.listOf (f.within Parameter.read?))
  return { operation? := fun m => (operations.lookup m).join, parameters }

end PathItem

def Components.read (f : Format m ν) (v : ν) : m Components := do
  let r ← f.record ["schemas", "parameters", "requestBodies", "responses"] v
  return {
    schemas := ← defaulted r "schemas" [] (f.tableOf (f.within Schema.read?))
    parameters := ← defaulted r "parameters" [] (f.tableOf (f.within Parameter.read?))
    requestBodies := ← defaulted r "requestBodies" [] (f.tableOf (f.within Body.read?))
    responses := ← defaulted r "responses" [] (f.tableOf (f.within Body.read?)) }

namespace Document

def server (f : Format m ν) (v : ν) : m String := do
  let r ← f.record ["url"] v
  required r "url" f.text

def read (f : Format m ν) (v : ν) : m Document := do
  let r ← f.record ["servers", "paths", "components"] v
  return {
    servers := ← defaulted r "servers" [] (f.listOf (server f))
    paths := ← defaulted r "paths" [] (f.tableOf (PathItem.read f))
    components := ← defaulted r "components" {} (Components.read f) }

end Document

end

/-- A description out of a JSON value. -/
def Document.ofJson? (v : Json) : Option Document := Document.read strict v.toTree

end ApiClient

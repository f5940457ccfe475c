import ApiClient.Resolution.Schema
import ApiClient.Url

/-! Operations as endpoints. Parameters are gathered from the path and the operation, grouped by their
place in the request, and typed together with the body. -/

namespace ApiClient

/-- The places of parameters that a request has. -/
inductive Place where
  | path | query | body | form
  deriving DecidableEq

namespace Place

/-- Cookies travel with the form. -/
def ofLocation? (location : String) : Option Place :=
  if location = "path" then some .path
  else if location = "query" then some .query
  else if location = "body" then some .body
  else if location = "cookie" ∨ location = "formData" then some .form
  else none

end Place

namespace Parameter

def samePlace (p q : Parameter) : Bool := p.name == q.name && p.location == q.location

/-- A parameter takes the place of the one with its name and location, or comes last. -/
def merge (p : Parameter) : List Parameter → List Parameter
  | [] => [p]
  | q :: qs => if p.samePlace q then p :: qs else q :: merge p qs

def mergeAll (ps : List Parameter) : List Parameter := ps.foldl (fun merged p => p.merge merged) []

def group (place : Place) (ps : List Parameter) : List Parameter :=
  ps.filter fun p => Place.ofLocation? p.location == some place

end Parameter

/-- One operation of a description, and where it stands. -/
structure Site where
  path : String
  item : PathItem
  method : Method
  operation : Operation

/-- The operations of a description, path by path. -/
def Document.sites (d : Document) : List Site :=
  d.paths.flatMap fun (path, item) => item.operations.map fun (m, op) => ⟨path, item, m, op⟩

namespace Resolver

def lift (result : Except ReferenceError α) : Resolver α :=
  match result with
  | .ok a => return a
  | .error e => throw e

/-- The parameters of an operation, those of its path first. -/
def parameters (c : Components) (site : Site) : Resolver (List Parameter) := do
  let ps ← (site.item.parameters ++ site.operation.parameters).mapM fun p =>
    lift (Reference.follow .parameters c.parameters p)
  return Parameter.mergeAll ps

/-- The type of a parameter: that of its schema, else the one that it names. -/
def parameterType (c : Components) (p : Parameter) : Resolver TypeExpr :=
  match p.schema with
  | some s => schema c.schemas s p.name p.name
  | none =>
    match p.type.bind Primitive.ofTypeName? with
    | some t => return .primitive t
    | none => return .unknown

def addParameters (c : Components) : List Parameter → Fields → Resolver Fields
  | [], fields => return fields
  | p :: ps, fields => do
    let t ← parameterType c p
    addParameters c ps (Assoc.put (FieldKey.ofRequired p.name p.required) t fields)

/-- Every media type gives its type to the one key of the body, so that the last one stays. -/
def addContent (c : Components) (key : String) :
    List (String × Option (RefOr Schema)) → Fields → Resolver Fields
  | [], fields => return fields
  | (_, s) :: rest, fields => do
    let t ← schema? c.schemas s key key
    addContent c key rest (Assoc.put ⟨key, false⟩ t fields)

/-- Whether a body is a reference to a schema instead of a request body. -/
def schemaReference? : RefOr Body → Option String
  | .ref r =>
    match Reference.split? r with
    | some (part, _) => if part = Section.schemas.text then some r else none
    | none => none
  | .inline _ => none

/-- Adds the body of a request under its key, and tells whether there was anything to add. -/
def addBody (c : Components) (key : String) (body : RefOr Body) (fields : Fields) :
    Resolver (Bool × Fields) :=
  match schemaReference? body with
  | some r => do
    let t ← reference c.schemas r
    return (true, Assoc.put ⟨key, false⟩ t fields)
  | none => do
    let b ← lift (Reference.follow .requestBodies c.requestBodies body)
    return (!b.content.isEmpty, ← addContent c key b.content fields)

def addRequestBody (c : Components) (key : String) (body : Option (RefOr Body))
    (fields : Fields) : Resolver (Bool × Fields) :=
  match body with
  | some body => addBody c key body fields
  | none => return (false, fields)

/-- The answers that are looked at, the preferred ones first. -/
def preferredAnswers : List (String × String) :=
  [("200", "application/json"), ("200", "*/*"), ("201", "application/json")]

/-- The schema of the first preferred answer that has one. -/
def answerSchema (c : Components) (responses : List (String × RefOr Body)) :
    List (String × String) → Resolver (Option (RefOr Schema))
  | [] => return none
  | (status, mediaType) :: rest =>
    match responses.lookup status with
    | none => answerSchema c responses rest
    | some response => do
      let b ← lift (Reference.follow .responses c.responses response)
      match (b.content.lookup mediaType).join with
      | some s => return some s
      | none => answerSchema c responses rest

/-- The endpoint of an operation, under a base path. -/
def endpoint (c : Components) (base : String) (site : Site) : Resolver Endpoint := do
  let operationId := site.operation.operationId.getD ""
  let ps ← parameters c site
  let inPath := Parameter.group .path ps
  let inQuery := Parameter.group .query ps
  let inBody := Parameter.group .body ps
  let inForm := Parameter.group .form ps
  let fields ← addParameters c (inPath ++ inBody ++ inQuery ++ inForm) []
  let bodyKey := operationId ++ "Request"
  let (hasBody, requestType) ← addRequestBody c bodyKey site.operation.requestBody fields
  let answerKey := operationId ++ "Response"
  let answer ← answerSchema c site.operation.responses preferredAnswers
  let responseType ← schema? c.schemas answer answerKey answerKey
  return {
    url := Url.request base site.path
    method := site.method
    operationId
    pathParams := inPath.map (·.name)
    queryParams := inQuery.map (·.name)
    bodyParams := inBody.map (·.name) ++ if hasBody then [bodyKey] else []
    formParams := inForm.map (·.name)
    requestType
    responseType }

/-- All operations of a description, in its order. -/
def endpoints (d : Document) : Resolver (List Endpoint) :=
  d.sites.mapM (endpoint d.components (Url.basePath d.servers))

end Resolver

end ApiClient

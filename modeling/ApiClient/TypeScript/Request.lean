import ApiClient.Config.Basic
import ApiClient.Endpoint
import ApiClient.Naming
import ApiClient.TypeScript.Types

/-! One request as a TypeScript function: a `get` is wrapped by the hook factory, every other method
calls the client directly. -/

namespace ApiClient.TypeScript

/-- Names that are blank have no argument. -/
def given (names : List String) : List String := names.filter (· ≠ "")

/-- The arguments of a request, in the order of their groups. -/
def argumentNames (op : Endpoint) : List String :=
  (given (op.pathParams ++ op.queryParams ++ op.bodyParams ++ op.formParams)).map argumentName

/-- The types of the arguments. -/
def argumentTypes (g : Registry) (op : Endpoint) : List String :=
  op.requestType.map fun (k, t) => propertyText (argumentName k.name) k.optional (typeText g t)

/-- One object that is taken apart into the arguments; nothing when there are none. -/
def requestArguments (g : Registry) (op : Endpoint) : String :=
  match argumentNames op with
  | [] => ""
  | names =>
    let types := argumentTypes g op
    "\x7b " ++ ", ".intercalate names ++ " \x7d: " ++
      if types.isEmpty then "\x7b\x7d" else "\x7b " ++ " ".intercalate types ++ " \x7d"

/-- What a request is handed to, with the type of its response. -/
def clientName (c : Config) (method response : String) : String :=
  if isGet method then c.hookFactory ++ "<" ++ response ++ ", " ++ c.errorType ++ ">"
  else c.clientRequest ++ "<" ++ response ++ ">"

/-- Renames the placeholders of a text. While one is read, its name so far is kept, last character
first; one that is not closed stays as it is. -/
def renamePlaceholders (rename : List Char → List Char) : Option (List Char) → List Char → List Char
  | none, [] => []
  | none, '$' :: '{' :: rest => '$' :: '{' :: renamePlaceholders rename (some []) rest
  | none, c :: rest => c :: renamePlaceholders rename none rest
  | some name, [] => name.reverse
  | some name, '}' :: rest => rename name.reverse ++ '}' :: renamePlaceholders rename none rest
  | some name, c :: rest => renamePlaceholders rename (some (c :: name)) rest

def interpolated (url : String) : String :=
  String.ofList (renamePlaceholders Text.lowerCamel none url.toList)

/-- A query parameter under the name that the server knows. -/
def queryText (raw : String) : String :=
  if argumentName raw = raw then raw else propertyKey raw ++ ": " ++ argumentName raw

/-- What is sent as the body: the first body parameter, else the first form parameter. -/
def bodySource? (op : Endpoint) : Option String :=
  (given op.bodyParams).head?.or (given op.formParams).head?

def contentType (op : Endpoint) : String :=
  if (given op.formParams).isEmpty then "application/json" else "multipart/form-data"

/-- The entries of the object that describes a request. -/
def requestEntries (op : Endpoint) : List String :=
  let params := (given op.queryParams).map queryText
  ["url: \x60" ++ interpolated op.url ++ "\x60", "method: \"" ++ op.method.text ++ "\""] ++
    (if params.isEmpty then [] else ["params: \x7b " ++ ", ".intercalate params ++ " \x7d"]) ++
    match bodySource? op with
    | some source =>
      ["data: " ++ argumentName source,
        "headers: \x7b \"Content-Type\": \"" ++ contentType op ++ "\" \x7d"]
    | none => []

def requestObject (op : Endpoint) (indent : String) : String :=
  String.join ((requestEntries op).map fun e => indent ++ e ++ ",\n")

def operationText (c : Config) (g : Registry) (op : Endpoint) : String :=
  let name := functionName op.method.text op.operationId
  let client := clientName c op.method.text (typeText g op.responseType)
  let arguments := requestArguments g op
  if op.method = .get then
    "export const " ++ name ++ " = " ++ client ++ "((" ++ arguments ++ ") => (\x7b\n" ++
      requestObject op "  " ++ "\x7d));"
  else
    "export const " ++ name ++ " = (" ++ arguments ++ ") =>\n  " ++ client ++ "(\x7b\n" ++
      requestObject op "    " ++ "  \x7d);"

/-- The headers, the requests and the declarations, with an empty line between them. -/
def moduleText (c : Config) (r : Resolution) : String :=
  let headers := if c.fileHeaders.isEmpty then [] else ["\n".intercalate c.fileHeaders]
  let requests := r.operations.map (operationText c r.definitions)
  let declarations := r.definitions.entries.map fun (n, d) => definitionText r.definitions n d
  "\n\n".intercalate (headers ++ requests ++ declarations) ++ "\n"

end ApiClient.TypeScript

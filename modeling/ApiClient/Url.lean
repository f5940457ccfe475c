import ApiClient.Text.Pieces

/-! The address of a request: the base path of the server, then the path with its placeholders. -/

namespace ApiClient.Url

/-- The path of a server address: all of it when it names no scheme, else what follows the
authority. -/
def serverPath (url : List Char) : List Char :=
  match Text.cut? [':', '/', '/'] url with
  | some (_, rest) => rest.dropWhile (· != '/')
  | none => url

/-- The segments of a path that hold something. -/
def segments (path : List Char) : List (List Char) :=
  (Text.pieces (· == '/') path).filter (· ≠ [])

/-- A slash before every segment. -/
def ofSegments (ps : List (List Char)) : List Char := ps.flatMap ('/' :: ·)

/-- The path of the first server without its first segment. -/
def basePath : List String → String
  | [] => ""
  | url :: _ => String.ofList (ofSegments ((segments (serverPath url.toList)).drop 1))

/-- A segment that opens a brace is a placeholder. -/
def markSegment (segment : List Char) : List Char :=
  match segment with
  | '{' :: _ => '$' :: segment
  | _ => segment

def template (path : String) : String :=
  String.ofList (Text.joined '/' ((Text.pieces (· == '/') path.toList).map markSegment))

/-- The root path adds nothing to a base path. -/
def request (base path : String) : String :=
  if template path = "/" ∧ base ≠ "" then base else base ++ template path

end ApiClient.Url

import ApiClient.Document.Basic
import ApiClient.Text.Pieces

/-! References to components, and following them to a value. -/

namespace ApiClient

/-- The tables of components. -/
inductive Section where
  | schemas | parameters | requestBodies | responses
  deriving DecidableEq

def Section.text : Section → String
  | .schemas => "schemas"
  | .parameters => "parameters"
  | .requestBodies => "requestBodies"
  | .responses => "responses"

/-- Why a reference cannot be resolved. The last cause is the end of a bound on the work, which the
resolution of a description never reaches. -/
inductive ReferenceError where
  | dangling (reference : String)
  | unsupported (reference : String) (expected : Section)
  | cycle (reference : String)
  | unfinished (reference : String)
  deriving DecidableEq

def ReferenceError.message : ReferenceError → String
  | .dangling r => "reference '" ++ r ++ "' does not point at an existing component"
  | .unsupported r s =>
    "reference '" ++ r ++ "' is not a local '#/components/" ++ s.text ++ "/...' reference"
  | .cycle r => "reference '" ++ r ++ "' is part of a reference cycle"
  | .unfinished r => "reference '" ++ r ++ "' takes too many steps"

namespace Reference

def componentsPath : List Char := "#/components/".toList

/-- `~1` stands for a slash and `~0` for a tilde. -/
def unescape (token : List Char) : List Char :=
  Text.replacePair '~' '0' '~' (Text.replacePair '~' '1' '/' token)

/-- The section and the component that a reference names. -/
def splitChars (cs : List Char) : Option (List Char × List Char) :=
  if componentsPath.isPrefixOf cs then
    match Text.cut? ['/'] (cs.drop componentsPath.length) with
    | some (part, token) =>
      if part = [] ∨ token = [] ∨ token.contains '/' then none else some (part, unescape token)
    | none => none
  else none

def split? (reference : String) : Option (String × String) :=
  (splitChars reference.toList).map fun (part, name) => (String.ofList part, String.ofList name)

/-- The component that a reference into one section names. -/
def component (part : Section) (reference : String) : Except ReferenceError String :=
  match split? reference with
  | some (found, name) =>
    if found = part.text then .ok name else .error (.unsupported reference part)
  | none => .error (.unsupported reference part)

/-- Follows references inside one section until a value stands there. Of the references on the way
none may come twice. -/
def followFrom (part : Section) (table : List (String × RefOr α)) :
    Nat → List String → RefOr α → Except ReferenceError α
  | _, _, .inline value => .ok value
  | 0, _, .ref r => .error (.unfinished r)
  | steps + 1, seen, .ref r =>
    if seen.contains r then .error (.cycle r)
    else match component part r with
      | .error e => .error e
      | .ok name =>
        match table.lookup name with
        | none => .error (.dangling r)
        | some next => followFrom part table steps (r :: seen) next

/-- After a step for every component and one for the start, a reference must have come twice. -/
def follow (part : Section) (table : List (String × RefOr α)) (item : RefOr α) :
    Except ReferenceError α :=
  followFrom part table (table.length + 2) [] item

end Reference

end ApiClient

import ApiClient.Document.Loading
import ApiClient.Resolution.Document
import ApiClient.TypeScript.Request

/-! From the text of a description to the text of a client. -/

namespace ApiClient

inductive GenerationError where
  | load (e : LoadError)
  | reference (e : ReferenceError)

/-- The wording of a failed resolution. What is wrong with a text is told by its format. -/
def GenerationError.message? : GenerationError → Option String
  | .load _ => none
  | .reference e => some ("failed to resolve API description: " ++ e.message)

def resolveText (text : String) : Except GenerationError Resolution :=
  match Document.load text with
  | .error e => .error (.load e)
  | .ok d =>
    match d.resolve with
    | .error e => .error (.reference e)
    | .ok r => .ok r

def generate (c : Config) (text : String) : Except GenerationError String :=
  (resolveText text).map (TypeScript.moduleText c)

end ApiClient

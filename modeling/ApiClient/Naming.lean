import ApiClient.Text.Words

/-! Names made from the names of a description: types, request functions and their arguments. -/

namespace ApiClient

/-- The first character in uppercase, the rest as it is. -/
def capitalCase (word : String) : String :=
  match word.toList with
  | [] => ""
  | c :: cs => String.ofList (Text.upper c ++ cs)

/-- Whether a method is `get`, in whatever ASCII case. -/
def isGet (method : String) : Bool := method.toList.map Char.toLower == ['g', 'e', 't']

/-- The request function of an operation: a `get` is named for what it asks, any other method for
what it creates. -/
def functionName (method operationId : String) : String :=
  if isGet method then String.ofList (Text.lowerCamel operationId.toList) ++ "Request"
  else "create" ++ String.ofList (Text.upperCamel operationId.toList) ++ "Request"

def argumentName (name : String) : String := String.ofList (Text.lowerCamel name.toList)

end ApiClient

import ApiClient.Registry

/-! What is known of an operation once its description is resolved: where the request goes, which
arguments it takes and in which part of the request, and what answers it. -/

namespace ApiClient

inductive Method where
  | get | put | post | delete | options | head | patch | trace
  deriving DecidableEq

namespace Method

def text : Method → String
  | .get => "get"
  | .put => "put"
  | .post => "post"
  | .delete => "delete"
  | .options => "options"
  | .head => "head"
  | .patch => "patch"
  | .trace => "trace"

/-- In the order in which the operations of a path are listed. -/
def all : List Method := [.get, .put, .post, .delete, .options, .head, .patch, .trace]

def ofText? (s : String) : Option Method := all.find? (·.text == s)

end Method

structure Endpoint where
  url : String
  method : Method
  operationId : String
  pathParams : List String
  queryParams : List String
  bodyParams : List String
  formParams : List String
  requestType : Fields
  responseType : TypeExpr

/-- The endpoints of a description, and the shapes that they mention. -/
structure Resolution where
  operations : List Endpoint
  definitions : Registry

end ApiClient

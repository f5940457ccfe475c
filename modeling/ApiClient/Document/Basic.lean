import ApiClient.Document.Schema
import ApiClient.Endpoint

/-! An API description: paths with their operations, and the components that they refer to. -/

namespace ApiClient

/-- A parameter says where it stands in the request by a word; `type` is used when there is no
schema. -/
structure Parameter where
  name : String
  location : String
  required : Bool := false
  schema : Option (RefOr Schema) := none
  type : Option String := none

/-- The body of a request or of a response: a schema for each media type. -/
structure Body where
  content : List (String × Option (RefOr Schema)) := []

structure Operation where
  operationId : Option String := none
  parameters : List (RefOr Parameter) := []
  requestBody : Option (RefOr Body) := none
  responses : List (String × RefOr Body) := []

/-- The operations of one path, and the parameters that they share. -/
structure PathItem where
  operation? : Method → Option Operation := fun _ => none
  parameters : List (RefOr Parameter) := []

/-- The operations in the order of the methods. -/
def PathItem.operations (item : PathItem) : List (Method × Operation) :=
  Method.all.filterMap fun m => (item.operation? m).map (m, ·)

structure Components where
  schemas : List (String × RefOr Schema) := []
  parameters : List (String × RefOr Parameter) := []
  requestBodies : List (String × RefOr Body) := []
  responses : List (String × RefOr Body) := []

/-- The servers are given by their addresses. -/
structure Document where
  servers : List String := []
  paths : List (String × PathItem) := []
  components : Components := {}

end ApiClient

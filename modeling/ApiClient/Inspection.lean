import ApiClient.Endpoint
import ApiClient.Json.Printer

/-! A resolution as JSON. The key of a field is its name with the mark of an optional field; two keys
with one text are both written. -/

namespace ApiClient

mutual

def TypeExpr.toJson : TypeExpr → Json
  | .primitive p => .obj [("primitive", .str p.tag)]
  | .object fields => .obj [("object", .obj (TypeExpr.fieldsToJson fields))]
  | .named name => .obj [("named", .str name)]
  | .array items => .obj [("array", items.toJson)]
  | .map values => .obj [("map", values.toJson)]
  | .union members => .obj [("union", .arr (TypeExpr.membersToJson members))]
  | .intersection members => .obj [("intersection", .arr (TypeExpr.membersToJson members))]
  | .unknown => .str "unknown"

def TypeExpr.membersToJson : List TypeExpr → List Json
  | [] => []
  | t :: ts => t.toJson :: membersToJson ts

def TypeExpr.fieldsToJson : List (FieldKey × TypeExpr) → List (String × Json)
  | [] => []
  | (k, t) :: fs => (k.text, t.toJson) :: fieldsToJson fs

end

def Definition.toJson : Definition → Json
  | .object fields =>
    .obj [("kind", .str "object"), ("shape", .obj (TypeExpr.fieldsToJson fields))]
  | .enum values => .obj [("kind", .str "enum"), ("shape", .arr values)]
  | .alias t => .obj [("kind", .str "alias"), ("shape", t.toJson)]

def Registry.toJson (g : Registry) : Json := .obj (g.entries.map fun (n, d) => (n, d.toJson))

def Endpoint.toJson (op : Endpoint) : Json :=
  let names (ns : List String) := Json.arr (ns.map .str)
  .obj [
    ("url", .str op.url),
    ("method", .str op.method.text),
    ("operation_id", .str op.operationId),
    ("path_params", names op.pathParams),
    ("query_params", names op.queryParams),
    ("body_params", names op.bodyParams),
    ("form_data_params", names op.formParams),
    ("request_type", .obj (TypeExpr.fieldsToJson op.requestType)),
    ("response_type", op.responseType.toJson)]

def Resolution.toJson (r : Resolution) : Json :=
  .obj [("operations", .arr (r.operations.map Endpoint.toJson)),
    ("definitions", r.definitions.toJson)]

end ApiClient

import ApiClient.Json.Value

/-! Schemas, as far as the shape of a client depends on them. -/

namespace ApiClient

/-- A component's reference, or a value in place. -/
inductive RefOr (α : Type) where
  | ref (reference : String)
  | inline (value : α)

def RefOr.reference? : RefOr α → Option String
  | .ref r => some r
  | .inline _ => none

/-- The type that a schema declares: one name, or a list of alternatives. -/
inductive SchemaType where
  | single (name : String)
  | several (names : List String)

/-- What an object holds beside its declared properties. -/
inductive Additional (α : Type) where
  | allowed (flag : Bool)
  | values (schema : α)

structure Schema where
  type : Option SchemaType := none
  format : Option String := none
  enum : Option (List Json) := none
  properties : List (String × RefOr Schema) := []
  required : List String := []
  items : Option (RefOr Schema) := none
  additional : Option (Additional (RefOr Schema)) := none
  allOf : List (RefOr Schema) := []
  oneOf : List (RefOr Schema) := []
  anyOf : List (RefOr Schema) := []
  nullable : Bool := false

mutual

/-- The references that stand in a schema, at any depth. -/
def Schema.references : Schema → List String
  | ⟨_, _, _, properties, _, items, additional, allOf, oneOf, anyOf, _⟩ =>
    Schema.referencesOfFields properties ++ Schema.referencesOfItems items ++
      Schema.referencesOfAdditional additional ++ Schema.referencesOfAll allOf ++
      Schema.referencesOfAll oneOf ++ Schema.referencesOfAll anyOf
termination_by structural s => s

def Schema.referencesOf : RefOr Schema → List String
  | .ref r => [r]
  | .inline s => s.references

def Schema.referencesOfItems : Option (RefOr Schema) → List String
  | none => []
  | some s => Schema.referencesOf s

def Schema.referencesOfAdditional : Option (Additional (RefOr Schema)) → List String
  | some (.values s) => Schema.referencesOf s
  | some (.allowed _) => []
  | none => []

def Schema.referencesOfAll : List (RefOr Schema) → List String
  | [] => []
  | s :: ss => Schema.referencesOf s ++ Schema.referencesOfAll ss

def Schema.referencesOfFields : List (String × RefOr Schema) → List String
  | [] => []
  | (_, s) :: fs => Schema.referencesOf s ++ Schema.referencesOfFields fs

end

end ApiClient

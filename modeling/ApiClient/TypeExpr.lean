import ApiClient.Assoc

/-! Type expressions, the canonical shapes of schemas. A shape that has a name is mentioned by its
name alone. -/

namespace ApiClient

inductive Primitive where
  | string | number | boolean | null | file
  deriving DecidableEq

namespace Primitive

/-- The primitive that a schema's type name stands for. -/
def ofTypeName? (name : String) : Option Primitive :=
  if name = "string" then some .string
  else if name = "integer" ∨ name = "number" then some .number
  else if name = "boolean" then some .boolean
  else if name = "null" then some .null
  else if name = "file" then some .file
  else none

def tag : Primitive → String
  | .string => "string"
  | .number => "number"
  | .boolean => "boolean"
  | .null => "null"
  | .file => "file"

end Primitive

/-- A field's name and whether it may be missing. The same name may occur once as a required and
once as an optional field. -/
structure FieldKey where
  name : String
  optional : Bool
  deriving DecidableEq

namespace FieldKey

def ofRequired (name : String) (required : Bool) : FieldKey := ⟨name, !required⟩

/-- An optional field is marked by a question mark. -/
def text (key : FieldKey) : String := key.name ++ if key.optional then "?" else ""

end FieldKey

inductive TypeExpr where
  | primitive (p : Primitive)
  | object (fields : List (FieldKey × TypeExpr))
  | named (name : String)
  | array (items : TypeExpr)
  | map (values : TypeExpr)
  | union (members : List TypeExpr)
  | intersection (members : List TypeExpr)
  | unknown

/-- The fields of an object, in order, each key once. -/
abbrev Fields := List (FieldKey × TypeExpr)

namespace TypeExpr

def null : TypeExpr := .primitive .null

def isNull : TypeExpr → Bool
  | .primitive .null => true
  | _ => false

theorem isNull_iff {t : TypeExpr} : t.isNull = true ↔ t = null := by
  cases t with
  | primitive p => cases p <;> simp [isNull, null]
  | _ => simp [isNull, null]

mutual

/-- Equality of types; the order of an object's fields does not count. -/
def same : TypeExpr → TypeExpr → Bool
  | .primitive p, .primitive q => p == q
  | .object fs, .object gs => fs.length == gs.length && sameFields fs gs
  | .named m, .named n => m == n
  | .array t, .array u => t.same u
  | .map t, .map u => t.same u
  | .union ts, .union us => sameMembers ts us
  | .intersection ts, .intersection us => sameMembers ts us
  | .unknown, .unknown => true
  | _, _ => false

def sameMembers : List TypeExpr → List TypeExpr → Bool
  | [], [] => true
  | t :: ts, u :: us => t.same u && sameMembers ts us
  | _, _ => false

/-- Whether every field is one of `gs` with the same type. -/
def sameFields : List (FieldKey × TypeExpr) → List (FieldKey × TypeExpr) → Bool
  | [], _ => true
  | (k, t) :: fs, gs =>
    (match gs.lookup k with
      | some u => t.same u
      | none => false) && sameFields fs gs

end

end TypeExpr

end ApiClient

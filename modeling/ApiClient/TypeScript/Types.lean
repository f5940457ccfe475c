import ApiClient.Json.Printer
import ApiClient.Registry

/-! Types and declarations as TypeScript text. An enum is declared as a constant object whose keys
are the texts of its values. -/

namespace ApiClient.TypeScript

/-- A name in single quotes. -/
def propertyKey (name : String) : String :=
  String.ofList ('\'' :: name.toList.flatMap (fun c =>
    if c = '\\' ∨ c = '\'' then ['\\', c] else [c]) ++ ['\''])

def optionalMark (optional : Bool) : String := if optional then "?" else ""

/-- A property with its type, up to the semicolon. -/
def propertyText (name : String) (optional : Bool) (type : String) : String :=
  propertyKey name ++ optionalMark optional ++ ": " ++ type ++ ";"

def primitiveText : Primitive → String
  | .string => "string"
  | .number => "number"
  | .boolean => "boolean"
  | .null => "null"
  | .file => "File"

/-- The values of the enum of that name. -/
def enumValues? (g : Registry) (name : String) : Option (List Json) :=
  match g.get? name with
  | some (.enum values) => some values
  | _ => none

/-- A mention of an enum stands for its values, which are its keys when all of them are strings. -/
def namedText (g : Registry) (name : String) : String :=
  match enumValues? g name with
  | some values =>
    if values.all Json.isStr then "keyof typeof " ++ name
    else "(typeof " ++ name ++ ")[keyof typeof " ++ name ++ "]"
  | none => name

/-- Whether a type stands in parentheses as an element or a member of another. -/
def needsParens (g : Registry) : TypeExpr → Bool
  | .union _ => true
  | .intersection _ => true
  | .named name =>
    match enumValues? g name with
    | some values => values.all Json.isStr
    | none => false
  | _ => false

def parenthesised (parens : Bool) (text : String) : String :=
  if parens then "(" ++ text ++ ")" else text

def inlineObject (properties : List String) : String :=
  if properties.isEmpty then "\x7b\x7d"
  else "\x7b " ++ String.join (properties.map (· ++ " ")) ++ "\x7d"

mutual

def typeText (g : Registry) : TypeExpr → String
  | .primitive p => primitiveText p
  | .object fields => inlineObject (fieldTexts g fields)
  | .named name => namedText g name
  | .array items => parenthesised (needsParens g items) (typeText g items) ++ "[]"
  | .map values => "\x7b [key: string]: " ++ typeText g values ++ " \x7d"
  | .union members => " | ".intercalate (memberTexts g members)
  | .intersection members => " & ".intercalate (memberTexts g members)
  | .unknown => "any"

def memberTexts (g : Registry) : List TypeExpr → List String
  | [] => []
  | t :: ts => parenthesised (needsParens g t) (typeText g t) :: memberTexts g ts

def fieldTexts (g : Registry) : List (FieldKey × TypeExpr) → List String
  | [] => []
  | (k, t) :: fs => propertyText k.name k.optional (typeText g t) :: fieldTexts g fs

end

/-- The key of an enum's value: a string itself, and any other value's JSON text. -/
def enumKey : Json → String
  | .str s => Json.quoted s
  | v => Json.quoted v.text

def definitionText (g : Registry) (name : String) : Definition → String
  | .object fields =>
    "export interface " ++ name ++ " \x7b\n" ++
      String.join ((fieldTexts g fields).map fun p => "  " ++ p ++ "\n") ++ "\x7d"
  | .enum values =>
    "export const " ++ name ++ " = \x7b\n" ++
      String.join (values.map fun v => "  " ++ enumKey v ++ ": " ++ v.text ++ ",\n") ++
      "\x7d as const;"
  | .alias t => "export type " ++ name ++ " = " ++ typeText g t ++ ";"

end ApiClient.TypeScript

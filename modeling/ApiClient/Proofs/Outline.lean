import ApiClient.Proofs.Registry
import ApiClient.Resolution.Schema

/-! Outlines: what is left of a schema once its branches are decided. An outline is a type in which
references and enums have no names yet. Resolving a schema is resolving its outline. -/

namespace ApiClient

inductive Outline where
  | ref (reference : String)
  | enum (values : List Json)
  | primitive (p : Primitive)
  | unknown
  | array (items : Outline)
  | map (values : Outline)
  | object (fields : List (FieldKey × Outline))
  | all (parts : List Outline)
  | any (variants : List Outline)
  | orNull (o : Outline)

namespace Outline

/-- What one type name stands for, where `object` and `array` tell what those two stand for. -/
def ofTypeName (object array : Outline) (name : String) : Outline :=
  if name = "object" then object
  else if name = "array" then array
  else match Primitive.ofTypeName? name with
    | some p => .primitive p
    | none => .unknown

mutual

/-- The references in an outline, in the order in which they are met. -/
def refs : Outline → List String
  | .ref r => [r]
  | .enum _ => []
  | .primitive _ => []
  | .unknown => []
  | .array o => o.refs
  | .map o => o.refs
  | .object fs => refsOfFields fs
  | .all os => refsOfAll os
  | .any os => refsOfAll os
  | .orNull o => o.refs

def refsOfAll : List Outline → List String
  | [] => []
  | o :: os => o.refs ++ refsOfAll os

def refsOfFields : List (FieldKey × Outline) → List String
  | [] => []
  | (_, o) :: fs => o.refs ++ refsOfFields fs

end

mutual

/-- Puts names into an outline: references are left to `onRef`, enums are registered. -/
def resolve (onRef : String → Resolver TypeExpr) :
    Outline → (key parent : String) → Resolver TypeExpr
  | .ref r, _, _ => onRef r
  | .enum vs, key, parent => do
    return .named (← Resolver.register (Schema.enumName key parent) (.enum vs))
  | .primitive p, _, _ => return .primitive p
  | .unknown, _, _ => return .unknown
  | .array o, key, parent => do return .array (← o.resolve onRef key parent)
  | .map o, key, _ => do return .map (← o.resolve onRef key key)
  | .object fs, key, _ => do return .object (← resolveFields onRef fs key)
  | .all os, key, parent => do
    return Schema.collapse .intersection (← resolveAll onRef os key parent)
  | .any os, key, parent => do
    return Schema.collapse .union (← resolveAll onRef os key parent)
  | .orNull o, key, parent => do return Schema.orNull (← o.resolve onRef key parent)

def resolveAll (onRef : String → Resolver TypeExpr) :
    List Outline → (key parent : String) → Resolver (List TypeExpr)
  | [], _, _ => return []
  | o :: os, key, parent => do
    let t ← o.resolve onRef key parent
    let ts ← resolveAll onRef os key parent
    return t :: ts

def resolveFields (onRef : String → Resolver TypeExpr) :
    List (FieldKey × Outline) → (key : String) → Resolver Fields
  | [], _ => return []
  | (k, o) :: fs, key => do
    let t ← o.resolve onRef k.name key
    let rest ← resolveFields onRef fs key
    return (k, t) :: rest

end

end Outline

namespace Schema

mutual

/-- The branches of a schema, decided: an enum is nothing else, a composition comes before the
declared type, and null is added to whatever comes out. -/
def outline : Schema → Outline
  | ⟨type, _, enum, properties, required, items, additional, allOf, oneOf, anyOf, nullable⟩ =>
    let object :=
      if properties.isEmpty then outlineOfAdditional additional
      else .object (outlineOfFields properties required)
    let array := .array (outlineOf? items)
    let declared : Outline := match enumValues? enum with
      | some values => .enum values
      | none =>
        if !allOf.isEmpty then .all (outlinesOf allOf)
        else if !oneOf.isEmpty || !anyOf.isEmpty then .any (outlinesOf oneOf ++ outlinesOf anyOf)
        else match type with
          | some (.single name) => .ofTypeName object array name
          | some (.several names) => .any (names.map (.ofTypeName object array))
          | none =>
            if !properties.isEmpty || additional.isSome then object
            else if items.isSome then array
            else .unknown
    if nullable then .orNull declared else declared
termination_by structural s => s

def outlineOf : RefOr Schema → Outline
  | .ref r => .ref r
  | .inline s => outline s

def outlineOf? : Option (RefOr Schema) → Outline
  | none => .unknown
  | some s => outlineOf s

def outlinesOf : List (RefOr Schema) → List Outline
  | [] => []
  | s :: ss => outlineOf s :: outlinesOf ss

def outlineOfFields : List (String × RefOr Schema) → (required : List String) →
    List (FieldKey × Outline)
  | [], _ => []
  | (name, s) :: fs, required =>
    (FieldKey.ofRequired name (required.contains name), outlineOf s) :: outlineOfFields fs required

def outlineOfAdditional : Option (Additional (RefOr Schema)) → Outline
  | some (.values s) => .map (outlineOf s)
  | some (.allowed true) => .map .unknown
  | some (.allowed false) => .object []
  | none => .object []

end

end Schema

/-- What a component comes to before it is stored: a shape with names missing. -/
inductive Shape where
  | object (fields : List (FieldKey × Outline))
  | enum (values : List Json)
  | type (o : Outline)

namespace Shape

def refs : Shape → List String
  | .object fs => Outline.refsOfFields fs
  | .enum _ => []
  | .type o => o.refs

/-- Puts names into a shape that is going to be stored under `name`. -/
def resolve (onRef : String → Resolver TypeExpr) (name : String) : Shape → Resolver Definition
  | .object fs => do return .object (← Outline.resolveFields onRef fs name)
  | .enum vs => return .enum vs
  | .type o => do return .alias (← o.resolve onRef name name)

end Shape

/-- The shape of a component with its schema in place. -/
def Schema.shape (s : Schema) : Shape :=
  match enumValues? s.enum with
  | some values => .enum values
  | none =>
    if s.isPlainObject then .object (outlineOfFields s.properties s.required)
    else .type s.outline

/-- A component that is a reference itself is another name for it. -/
def RefOr.shape : RefOr Schema → Shape
  | .ref r => .type (.ref r)
  | .inline s => s.shape

/-! ### Resolving a schema is resolving its outline -/

variable {onRef : String → Resolver TypeExpr}

theorem Outline.resolveAll_append (os us : List Outline) (key parent : String) :
    resolveAll onRef (os ++ us) key parent = do
      let ts ← resolveAll onRef os key parent
      let us ← resolveAll onRef us key parent
      return ts ++ us := by
  induction os with
  | nil => simp [resolveAll]
  | cons o os ih => simp [resolveAll, ih]

theorem Outline.resolve_ofTypeName (object array : Outline) (name key parent : String) :
    (ofTypeName object array name).resolve onRef key parent =
      Schema.namedType (object.resolve onRef key parent) (array.resolve onRef key parent) name := by
  simp only [ofTypeName, Schema.namedType]
  split_ifs
  · rfl
  · rfl
  · cases Primitive.ofTypeName? name <;> rfl

theorem Outline.resolveAll_ofTypeName (object array : Outline) (names : List String)
    (key parent : String) :
    resolveAll onRef (names.map (ofTypeName object array)) key parent =
      names.mapM (Schema.namedType (object.resolve onRef key parent)
        (array.resolve onRef key parent)) := by
  induction names with
  | nil => rfl
  | cons n ns ih => simp [resolveAll, resolve_ofTypeName, ih]

theorem Outline.resolve_nullable (nullable : Bool) {o : Outline} {x : Resolver TypeExpr}
    {key parent : String} (h : x = o.resolve onRef key parent) :
    (do let t ← x; return if nullable then Schema.orNull t else t) =
      (if nullable then .orNull o else o).resolve onRef key parent := by
  cases nullable with
  | true => simp [resolve, h]
  | false => simp [h]

namespace Schema

mutual

theorem typeOf_eq : (s : Schema) → (key parent : String) →
    typeOf onRef s key parent = s.outline.resolve onRef key parent
  | ⟨type, format, enum, properties, required, items, additional, allOf, oneOf, anyOf, nullable⟩,
      key, parent => by
    have hobject : (if properties.isEmpty then typeOfAdditional onRef additional key
        else do return .object (← typesOfFields onRef properties required key)) =
        (if properties.isEmpty then outlineOfAdditional additional
          else .object (outlineOfFields properties required)).resolve onRef key parent := by
      split_ifs
      · exact typeOfAdditional_eq additional key parent
      · rw [typesOfFields_eq properties required key, Outline.resolve]
    have harray : (do return .array (← typeOfItems onRef items key parent)) =
        (Outline.array (outlineOf? items)).resolve onRef key parent := by
      rw [typeOfItems_eq items key parent, Outline.resolve]
    simp only [typeOf, outline, hobject, harray]
    generalize (if properties.isEmpty = true then outlineOfAdditional additional
      else Outline.object (outlineOfFields properties required)) = object
    generalize Outline.array (outlineOf? items) = array
    refine Outline.resolve_nullable nullable ?_
    cases enumValues? enum with
    | some values => rfl
    | none =>
      by_cases hall : allOf.isEmpty
      · by_cases hsome : oneOf.isEmpty && anyOf.isEmpty
        · simp only [hall, hsome, ← Bool.not_and, Bool.not_true, Bool.false_eq_true, if_false]
          rcases type with _ | name | names
          · split_ifs <;> rfl
          · exact (Outline.resolve_ofTypeName ..).symm
          · simp only [Outline.resolve, Outline.resolveAll_ofTypeName]
        · simp [hall, hsome, ← Bool.not_and, typesOfAll_eq oneOf, typesOfAll_eq anyOf,
            Outline.resolve, Outline.resolveAll_append]
      · simp [hall, typesOfAll_eq allOf, Outline.resolve]

theorem typeOfRef_eq : (s : RefOr Schema) → (key parent : String) →
    typeOfRef onRef s key parent = (outlineOf s).resolve onRef key parent
  | .ref r, _, _ => by simp only [typeOfRef, outlineOf, Outline.resolve]
  | .inline s, key, parent => by simpa only [typeOfRef, outlineOf] using typeOf_eq s key parent

theorem typeOfItems_eq : (s : Option (RefOr Schema)) → (key parent : String) →
    typeOfItems onRef s key parent = (outlineOf? s).resolve onRef key parent
  | none, _, _ => by simp only [typeOfItems, outlineOf?, Outline.resolve]
  | some s, key, parent => by
    simpa only [typeOfItems, outlineOf?] using typeOfRef_eq s key parent

theorem typesOfAll_eq : (ss : List (RefOr Schema)) → (key parent : String) →
    typesOfAll onRef ss key parent = Outline.resolveAll onRef (outlinesOf ss) key parent
  | [], _, _ => by simp only [typesOfAll, outlinesOf, Outline.resolveAll]
  | s :: ss, key, parent => by
    simp only [typesOfAll, outlinesOf, Outline.resolveAll, typeOfRef_eq s key parent,
      typesOfAll_eq ss key parent]

theorem typesOfFields_eq : (fs : List (String × RefOr Schema)) → (required : List String) →
    (key : String) →
    typesOfFields onRef fs required key =
      Outline.resolveFields onRef (outlineOfFields fs required) key
  | [], _, _ => by simp only [typesOfFields, outlineOfFields, Outline.resolveFields]
  | (name, s) :: fs, required, key => by
    simp only [typesOfFields, outlineOfFields, Outline.resolveFields, typeOfRef_eq s name key,
      typesOfFields_eq fs required key, FieldKey.ofRequired]

theorem typeOfAdditional_eq : (a : Option (Additional (RefOr Schema))) → (key parent : String) →
    typeOfAdditional onRef a key = (outlineOfAdditional a).resolve onRef key parent
  | some (.values s), key, parent => by
    simp only [typeOfAdditional, outlineOfAdditional, Outline.resolve, typeOfRef_eq s key key]
  | some (.allowed true), key, parent => by
    simp [typeOfAdditional, outlineOfAdditional, Outline.resolve]
  | some (.allowed false), key, parent => by
    simp [typeOfAdditional, outlineOfAdditional, Outline.resolve, Outline.resolveFields]
  | none, key, parent => by
    simp [typeOfAdditional, outlineOfAdditional, Outline.resolve, Outline.resolveFields]

end

theorem define_eq (s : Schema) (name : String) :
    s.define onRef name = s.shape.resolve onRef name := by
  simp only [define, shape]
  cases enumValues? s.enum with
  | some values => rfl
  | none =>
    by_cases h : s.isPlainObject
    · simp [h, Shape.resolve, typesOfFields_eq]
    · simp [h, Shape.resolve, typeOf_eq]

end Schema

theorem Resolver.schema?_eq (schemas : List (String × RefOr Schema)) (s : Option (RefOr Schema))
    (key parent : String) :
    schema? schemas s key parent =
      (Schema.outlineOf? s).resolve (reference schemas) key parent := by
  cases s with
  | none => rfl
  | some s => rw [schema?, schema, Schema.typeOfRef_eq, Schema.outlineOf?]

end ApiClient

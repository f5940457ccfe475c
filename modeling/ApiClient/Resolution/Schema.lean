import ApiClient.Naming
import ApiClient.Reference
import ApiClient.Registry

/-! Schemas as type expressions. A referenced component becomes a named shape of the registry: it gets
its name before it is worked out, so that schemas may refer to themselves. Enums inside other schemas
become named shapes as well. -/

namespace ApiClient

/-- What a pass over a description has found so far: the shapes, the names given to references, and
the references that are being resolved because the one before consists of nothing else, the last one
first. -/
structure Pass where
  registry : Registry
  names : List (String × String) := []
  aliasing : List String := []

abbrev Resolver (α : Type) := ExceptT ReferenceError (StateM Pass) α

namespace Resolver

def register (name : String) (d : Definition) : Resolver String := do
  let pass ← get
  let (used, registry) := pass.registry.register name d
  set { pass with registry }
  return used

/-- Promises a name to a reference and remembers it. -/
def promise (reference name : String) : Resolver String := do
  let pass ← get
  let (used, registry) := pass.registry.reserve name
  set { pass with registry, names := (reference, used) :: pass.names }
  return used

def fill (name : String) (d : Definition) : Resolver Unit :=
  modify fun pass => { pass with registry := pass.registry.fill name d }

/-- Resolves with one more reference in the chain of aliases. -/
def chained (reference : String) (action : Resolver α) : Resolver α := fun pass =>
  let (result, after) := action { pass with aliasing := reference :: pass.aliasing }
  (result, { after with aliasing := after.aliasing.drop 1 })

/-- Resolves a structure, inside of which the chain of aliases starts anew. -/
def apart (action : Resolver α) : Resolver α := fun pass =>
  let (result, after) := action { pass with aliasing := [] }
  (result, { after with aliasing := pass.aliasing })

end Resolver

namespace Schema

/-- The values of an enum; no values are no enum. -/
def enumValues? : Option (List Json) → Option (List Json)
  | some (v :: vs) => some (v :: vs)
  | _ => none

/-- An enum is named after its field and what encloses it. -/
def enumName (key parent : String) : String :=
  if key = parent then capitalCase key else capitalCase parent ++ capitalCase key

/-- One variant stands for itself. -/
def collapse (combine : List TypeExpr → TypeExpr) : List TypeExpr → TypeExpr
  | [] => .unknown
  | [t] => t
  | ts => combine ts

def orNull : TypeExpr → TypeExpr
  | .union members =>
    .union (if members.any TypeExpr.isNull then members else members ++ [TypeExpr.null])
  | t => if t.isNull then t else .union [t, TypeExpr.null]

/-- The type of one type name, where `object` and `array` tell what those two stand for. -/
def namedType (object array : Resolver TypeExpr) (name : String) : Resolver TypeExpr :=
  if name = "object" then object
  else if name = "array" then array
  else match Primitive.ofTypeName? name with
    | some p => return .primitive p
    | none => return .unknown

/-- An object with declared properties that nothing else is combined with. -/
def isPlainObject (s : Schema) : Bool :=
  (match s.type with
    | some (.single name) => name == "object"
    | some (.several _) => false
    | none => true) &&
  !s.properties.isEmpty && !s.nullable && s.allOf.isEmpty && s.oneOf.isEmpty && s.anyOf.isEmpty

mutual

/-- The type of a schema in the place `key` of `parent`; the two only name the enums in it.
References are left to `onRef`. -/
def typeOf (onRef : String → Resolver TypeExpr) :
    Schema → (key parent : String) → Resolver TypeExpr
  | ⟨type, _, enum, properties, required, items, additional, allOf, oneOf, anyOf, nullable⟩,
      key, parent => do
    let object :=
      if properties.isEmpty then typeOfAdditional onRef additional key
      else do return .object (← typesOfFields onRef properties required key)
    let array := do return .array (← typeOfItems onRef items key parent)
    let declared : Resolver TypeExpr := match enumValues? enum with
      | some values => do
        return .named (← Resolver.register (enumName key parent) (.enum values))
      | none =>
        if !allOf.isEmpty then do
          return collapse .intersection (← typesOfAll onRef allOf key parent)
        else if !oneOf.isEmpty || !anyOf.isEmpty then do
          let one ← typesOfAll onRef oneOf key parent
          let any ← typesOfAll onRef anyOf key parent
          return collapse .union (one ++ any)
        else match type with
          | some (.single name) => namedType object array name
          | some (.several names) => do
            return collapse .union (← names.mapM (namedType object array))
          | none =>
            if !properties.isEmpty || additional.isSome then object
            else if items.isSome then array
            else return .unknown
    let t ← declared
    return if nullable then orNull t else t
termination_by structural s => s

def typeOfRef (onRef : String → Resolver TypeExpr) :
    RefOr Schema → (key parent : String) → Resolver TypeExpr
  | .ref r, _, _ => onRef r
  | .inline s, key, parent => typeOf onRef s key parent

/-- Elements of an unknown kind, if nothing is said of them. -/
def typeOfItems (onRef : String → Resolver TypeExpr) :
    Option (RefOr Schema) → (key parent : String) → Resolver TypeExpr
  | none, _, _ => return .unknown
  | some s, key, parent => typeOfRef onRef s key parent

def typesOfAll (onRef : String → Resolver TypeExpr) :
    List (RefOr Schema) → (key parent : String) → Resolver (List TypeExpr)
  | [], _, _ => return []
  | s :: ss, key, parent => do
    let t ← typeOfRef onRef s key parent
    let ts ← typesOfAll onRef ss key parent
    return t :: ts

/-- The fields of an object; those that it does not require are optional. -/
def typesOfFields (onRef : String → Resolver TypeExpr) :
    List (String × RefOr Schema) → (required : List String) → (key : String) → Resolver Fields
  | [], _, _ => return []
  | (name, s) :: fs, required, key => do
    let t ← typeOfRef onRef s name key
    let rest ← typesOfFields onRef fs required key
    return (FieldKey.ofRequired name (required.contains name), t) :: rest

/-- An object without declared properties is a map if anything is said of its values. -/
def typeOfAdditional (onRef : String → Resolver TypeExpr) :
    Option (Additional (RefOr Schema)) → (key : String) → Resolver TypeExpr
  | some (.values s), key => do return .map (← typeOfRef onRef s key key)
  | some (.allowed true), _ => return .map .unknown
  | some (.allowed false), _ => return .object []
  | none, _ => return .object []

end

/-- The shape that a referenced component is stored as. -/
def define (onRef : String → Resolver TypeExpr) (s : Schema) (name : String) :
    Resolver Definition :=
  match enumValues? s.enum with
  | some values => return .enum values
  | none =>
    if s.isPlainObject then do
      return .object (← typesOfFields onRef s.properties s.required name)
    else do return .alias (← typeOf onRef s name name)

end Schema

namespace Resolver

def componentOf (reference : String) : Resolver String :=
  match Reference.component .schemas reference with
  | .ok name => return name
  | .error e => throw e

/-- The shape of a component. One that is a reference itself is an alias, unless the chain of such
references leads back to one of them. -/
def shapeOf (onRef : String → Resolver TypeExpr) (reference name : String) :
    RefOr Schema → Resolver Definition
  | .ref next => do
    if next = reference ∨ next ∈ (← get).aliasing then throw (.cycle next)
    else do return .alias (← chained reference (onRef next))
  | .inline s => apart (s.define onRef name)

/-- Works out a reference that has no name yet. It gets its name first, so that it may be met again
inside of its component. -/
def workOut (schemas : List (String × RefOr Schema)) (onRef : String → Resolver TypeExpr)
    (reference : String) : Resolver TypeExpr := do
  let component ← componentOf reference
  match schemas.lookup component with
  | none => throw (.dangling reference)
  | some target =>
    let name ← promise reference (capitalCase component)
    let definition ← shapeOf onRef reference name target
    fill name definition
    return .named name

/-- The named type of a reference. Each reference is worked out once; `levels` bounds how many are
worked out at the same time. -/
def expand (schemas : List (String × RefOr Schema)) (levels : Nat) (reference : String) :
    Resolver TypeExpr := do
  match (← get).names.lookup reference with
  | some name => return .named name
  | none =>
    match levels with
    | 0 => throw (.unfinished reference)
    | levels + 1 => workOut schemas (expand schemas levels) reference

/-- The references that are worked out at the same time are different, and all but the first one
stand in the schemas of the components. -/
def levels (schemas : List (String × RefOr Schema)) : Nat :=
  (Schema.referencesOfFields schemas).length + 2

def reference (schemas : List (String × RefOr Schema)) (r : String) : Resolver TypeExpr :=
  expand schemas (levels schemas) r

def schema (schemas : List (String × RefOr Schema)) (s : RefOr Schema) (key parent : String) :
    Resolver TypeExpr :=
  Schema.typeOfRef (reference schemas) s key parent

/-- A schema that is not there says nothing. -/
def schema? (schemas : List (String × RefOr Schema)) (s : Option (RefOr Schema))
    (key parent : String) : Resolver TypeExpr :=
  match s with
  | some s => schema schemas s key parent
  | none => return .unknown

end Resolver

end ApiClient

import ApiClient.Proofs.Agreement
import ApiClient.Proofs.Promises

/-! One step of the resolver. A visit to a schema leaves the schemas in it to further calls, and a reference
leaves its component to them. The resolver takes these steps, with itself for the calls they make. -/

namespace ApiClient

open Resolver (Call)

/-! ### One step of the recursion -/

namespace Schema

variable (self : Call → Resolver TypeExpr)

def visitAll (ss : List (RefOr Schema)) (key parent : String) : Resolver (List TypeExpr) :=
  ss.mapM fun s => self (.schema (some s) key parent)

def visitFields (fs : List (String × RefOr Schema)) (required : List String) (key : String) :
    Resolver Fields :=
  fs.mapM fun (name, s) => do
    let t ← self (.schema (some s) name key)
    return (FieldKey.ofRequired name (required.contains name), t)

def visitObject (s : Schema) (key : String) : Resolver TypeExpr :=
  if s.properties.isEmpty then
    match s.additional with
    | some (.values v) => do return .map (← self (.schema (some v) key key))
    | some (.allowed true) => return .map .unknown
    | some (.allowed false) => return .object []
    | none => return .object []
  else do return .object (← visitFields self s.properties s.required key)

/-- The type of a schema, with the schemas in it left to `self`. -/
def visit (s : Schema) (key parent : String) : Resolver TypeExpr := do
  let object := s.visitObject self key
  let array := do return .array (← self (.schema s.items key parent))
  let declared : Resolver TypeExpr := match enumValues? s.enum with
    | some values => do
      return .named (← Resolver.register (enumName key parent) (.enum values))
    | none =>
      if !s.allOf.isEmpty then do
        return collapse .intersection (← visitAll self s.allOf key parent)
      else if !s.oneOf.isEmpty || !s.anyOf.isEmpty then do
        let one ← visitAll self s.oneOf key parent
        let any ← visitAll self s.anyOf key parent
        return collapse .union (one ++ any)
      else match s.type with
        | some (.single name) => namedType object array name
        | some (.several names) => do
          return collapse .union (← names.mapM (namedType object array))
        | none =>
          if !s.properties.isEmpty || s.additional.isSome then object
          else if s.items.isSome then array
          else return .unknown
  let t ← declared
  return if s.nullable then orNull t else t

/-- The shape of a component, with the schemas in it left to `self`. -/
def visitComponent (s : Schema) (name : String) : Resolver Definition :=
  match enumValues? s.enum with
  | some values => return .enum values
  | none =>
    if s.isPlainObject then do
      return .object (← visitFields self s.properties s.required name)
    else do return .alias (← s.visit self name name)

end Schema

namespace Resolver

variable (schemas : List (String × RefOr Schema)) (self : Call → Resolver TypeExpr)

/-- The shape of a component, which may be a reference itself, with all in it left to `self`. -/
def visitShape (r name : String) : RefOr Schema → Resolver Definition
  | .ref next => shapeOf (fun s => self (.reference s)) r name (.ref next)
  | .inline s => apart (s.visitComponent self name)

/-- Works out a reference that has no name yet, with its component left to `self`. -/
def visitTarget (r : String) : Resolver TypeExpr := do
  let component ← componentOf r
  match schemas.lookup component with
  | none => throw (.dangling r)
  | some target =>
    let name ← promise r (capitalCase component)
    let definition ← visitShape self r name target
    fill name definition
    return .named name

def visitReference (r : String) : Resolver TypeExpr := do
  match (← get).names.lookup r with
  | some name => return .named name
  | none => visitTarget schemas self r

/-- A call, with the calls that it makes itself left to `self`. -/
def Call.step : Call → Resolver TypeExpr
  | .reference r => visitReference schemas self r
  | .schema none _ _ => return .unknown
  | .schema (some (.ref r)) _ _ => self (.reference r)
  | .schema (some (.inline s)) key parent => s.visit self key parent

end Resolver

/-! ### The resolver takes these steps -/

namespace Schema

variable {schemas : List (String × RefOr Schema)}

theorem visitAll_run (ss : List (RefOr Schema)) (key parent : String) :
    visitAll (Call.run schemas) ss key parent =
      typesOfAll (Resolver.reference schemas) ss key parent := by
  induction ss with
  | nil => simp [visitAll, typesOfAll]
  | cons s ss ih =>
    rw [visitAll] at ih
    rw [visitAll, List.mapM_cons, ih, typesOfAll]
    rfl

theorem visitFields_run (fs : List (String × RefOr Schema)) (required : List String) (key : String) :
    visitFields (Call.run schemas) fs required key =
      typesOfFields (Resolver.reference schemas) fs required key := by
  induction fs with
  | nil => simp [visitFields, typesOfFields]
  | cons f fs ih =>
    obtain ⟨name, s⟩ := f
    rw [visitFields] at ih
    rw [visitFields, List.mapM_cons, ih, typesOfFields, bind_assoc]
    rfl

theorem visitItems_run (items : Option (RefOr Schema)) (key parent : String) :
    Call.run schemas (.schema items key parent) =
      typeOfItems (Resolver.reference schemas) items key parent := by
  cases items with
  | none => simp only [typeOfItems, Call.run, Resolver.schema?]
  | some s => simp only [typeOfItems, Call.run, Resolver.schema?, Resolver.schema]

theorem visitObject_run (s : Schema) (key : String) :
    s.visitObject (Call.run schemas) key =
      if s.properties.isEmpty then typeOfAdditional (Resolver.reference schemas) s.additional key
      else do
        return .object (← typesOfFields (Resolver.reference schemas) s.properties s.required key) := by
  rw [visitObject, visitFields_run]
  split_ifs
  · rcases s.additional with _ | (_ | _) | v
    · simp only [typeOfAdditional]
    · simp only [typeOfAdditional]
    · simp only [typeOfAdditional]
    · simp only [typeOfAdditional, visitItems_run, typeOfItems]
  · rfl

theorem visit_run (s : Schema) (key parent : String) :
    s.visit (Call.run schemas) key parent =
      typeOf (Resolver.reference schemas) s key parent := by
  have hobject : s.visitObject (Call.run schemas) key = _ := visitObject_run s key
  obtain ⟨type, format, enum, properties, required, items, additional, allOf, oneOf, anyOf, nullable⟩ := s
  simp only [typeOf, ← hobject, ← visitAll_run, ← visitItems_run]
  rfl

theorem visitComponent_run (s : Schema) (name : String) :
    s.visitComponent (Call.run schemas) name = s.define (Resolver.reference schemas) name := by
  rw [visitComponent, visitFields_run, visit_run]
  rfl

end Schema

namespace Resolver

variable {schemas : List (String × RefOr Schema)}

theorem visitShape_run (r name : String) (target : RefOr Schema) :
    visitShape (Call.run schemas) r name target = shapeOf (reference schemas) r name target := by
  cases target with
  | ref next => rfl
  | inline s => rw [visitShape, Schema.visitComponent_run, shapeOf]

theorem visitTarget_run (r : String) :
    visitTarget schemas (Call.run schemas) r = workOut schemas (reference schemas) r := by
  simp only [visitTarget, visitShape_run]
  rfl

variable {self : Call → Resolver TypeExpr} {r : String} {p : Pass}

theorem visitReference_of_name? {n : String} (h : p.name? r = some n) :
    visitReference schemas self r p = (.ok (.named n), p) := by
  rw [Pass.name?] at h
  rw [visitReference, bind_ok (get_apply p), h]
  rfl

theorem visitReference_of_none (h : p.name? r = none) :
    visitReference schemas self r p = visitTarget schemas self r p := by
  rw [Pass.name?] at h
  rw [visitReference, bind_ok (get_apply p), h]

/-- The references of the components, and those in a list. -/
def within (schemas : List (String × RefOr Schema)) (rs : List String) : Finset String :=
  (rs ++ Schema.referencesOfFields schemas).toFinset

theorem closedUnder_within (schemas : List (String × RefOr Schema)) (rs : List String) :
    ClosedUnder schemas (· ∈ within schemas rs) := fun _ _ _ _ hpoints _ hs =>
  List.mem_toFinset.mpr (List.mem_append_right _ (hpoints.mem_references hs))

/-- There are levels enough for one reference and those of the components. -/
theorem card_unmet_within_le (schemas : List (String × RefOr Schema)) (r : String) (p : Pass) :
    (p.unmet (within schemas [r])).card ≤ (Schema.referencesOfFields schemas).length + 1 := by
  have hfilter : (p.unmet (within schemas [r])).card ≤ _ := Finset.card_filter_le _ _
  exact hfilter.trans (List.toFinset_card_le _)

theorem mem_within_self (schemas : List (String × RefOr Schema)) (r : String) :
    r ∈ within schemas [r] := by simp [within]

theorem reference_advances (r : String) (p : Pass) : Advances p (reference schemas r p) :=
  expand_hasRoom (closedUnder_within schemas [r]) _ (mem_within_self schemas r) p
    ((card_unmet_within_le schemas r p).trans (Nat.le_succ _))

/-- A reference without a name is worked out with the resolver itself for all it refers to. -/
theorem reference_of_none (h : p.name? r = none) :
    reference schemas r p = workOut schemas (reference schemas) r p := by
  have hclosed := closedUnder_within schemas [r]
  rw [reference, levels, expand_succ h]
  refine workOut_tallies hclosed (fun _ _ _ _ => rfl) (fun s hs => expand_hasRoom hclosed _ hs)
    (fun s hs => ?_) (mem_within_self schemas r) h ((card_unmet_within_le schemas r p).trans (Nat.le_succ _))
  exact expand_tallies hclosed (fun _ _ _ _ => rfl) _ (Nat.le_refl _) (Nat.le_succ _) hs

namespace Call

/-- The resolver takes the steps that its description gives, however many levels there are. -/
theorem run_eq_step (call : Call) : call.run schemas = call.step schemas (Call.run schemas) := by
  cases call with
  | reference r =>
    funext p
    cases hn : p.name? r with
    | some n =>
      rw [step, visitReference_of_name? hn]
      exact expand_of_name? hn _
    | none =>
      rw [step, visitReference_of_none hn, visitTarget_run]
      exact reference_of_none hn
  | schema s key parent =>
    rcases s with _ | r | s
    · rfl
    · simp only [run, step, schema?, Resolver.schema, Schema.typeOfRef]
    · rw [step, Schema.visit_run]
      simp only [run, schema?, Resolver.schema, Schema.typeOfRef]

theorem run_advances (call : Call) (p : Pass) : Advances p (call.run schemas p) := by
  cases call with
  | reference r => exact reference_advances r p
  | schema s key parent =>
    have hrefs (r : String) :
        Upholds p.Extends (fun e q => p.Extends q ∧ e.Proper) (Resolver.reference schemas r) :=
      fun q hq => (reference_advances r q).trans hq
    rw [run, schema?_eq]
    exact Outline.resolve_upholds Pass.extends_enumStable.kept _ key parent (fun r _ => hrefs r) p
      (.refl p)

end Call

end Resolver

end ApiClient

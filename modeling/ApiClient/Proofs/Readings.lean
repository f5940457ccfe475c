import ApiClient.Proofs.Outline
import ApiClient.Proofs.Runs
import ApiClient.Resolution.Document

/-! What an operation says before any of its types is resolved: its parameters, its body and its answer,
and the outlines that it asks types for. These can be read off the description; what is left of the
resolution of an operation is to resolve the outlines one after the other. -/

namespace ApiClient

/-- An outline in the place that names the enums in it. -/
structure Ask where
  outline : Outline
  key : String
  parent : String

def Ask.resolve (schemas : List (String × RefOr Schema)) (a : Ask) : Resolver TypeExpr :=
  a.outline.resolve (Resolver.reference schemas) a.key a.parent

def Parameter.ask (p : Parameter) : Ask where
  outline := match p.schema with
    | some s => Schema.outlineOf s
    | none => match p.type.bind Primitive.ofTypeName? with
      | some t => .primitive t
      | none => .unknown
  key := p.name
  parent := p.name

def Parameter.field (p : Parameter) : FieldKey × Ask := (.ofRequired p.name p.required, p.ask)

/-- Parameters in the order in which their types are asked for. -/
def Parameter.asked (ps : List Parameter) : List Parameter :=
  group .path ps ++ group .body ps ++ group .query ps ++ group .form ps

/-- Every media type of a body asks for the one key of the body. -/
def Body.fields (key : String) (b : Body) : List (FieldKey × Ask) :=
  b.content.map fun m => (⟨key, false⟩, ⟨Schema.outlineOf? m.2, key, key⟩)

/-- What an operation says. -/
structure Reading where
  parameters : List Parameter
  hasBody : Bool
  bodyFields : List (FieldKey × Ask)
  answer : Option (RefOr Schema)

namespace Site

variable (c : Components) (site : Site)

def operationId : String := site.operation.operationId.getD ""

def bodyKey : String := site.operationId ++ "Request"

def answerKey : String := site.operationId ++ "Response"

/-- Whether there is a body, and what it asks for. -/
def body : Except ReferenceError (Bool × List (FieldKey × Ask)) :=
  match site.operation.requestBody with
  | none => .ok (false, [])
  | some body =>
    match Resolver.schemaReference? body with
    | some r => .ok (true, [(⟨site.bodyKey, false⟩, ⟨.ref r, site.bodyKey, site.bodyKey⟩)])
    | none => (Reference.follow .requestBodies c.requestBodies body).map fun b =>
      (!b.content.isEmpty, b.fields site.bodyKey)

def answerAsk (s : Option (RefOr Schema)) : Ask :=
  ⟨Schema.outlineOf? s, site.answerKey, site.answerKey⟩

/-- The description says this of the operation. -/
structure Reads (R : Reading) : Prop where
  parameters : Resolver.parameters c site = pure R.parameters
  body : Resolver.lift (site.body c) = pure (R.hasBody, R.bodyFields)
  answer : Resolver.answerSchema c site.operation.responses Resolver.preferredAnswers = pure R.answer

/-- Reading the operation fails. -/
inductive Refuses : ReferenceError → Prop
  | parameters {e : ReferenceError} : Resolver.parameters c site = throw e → Refuses e
  | body {e : ReferenceError} : Resolver.lift (site.body c) = throw e → Refuses e
  | answer {e : ReferenceError} :
    Resolver.answerSchema c site.operation.responses Resolver.preferredAnswers = throw e → Refuses e

/-- The operation needs the type of an outline. -/
inductive Asks : Ask → Prop
  | parameter {ps : List Parameter} {f : FieldKey × Ask} :
    Resolver.parameters c site = pure ps → f ∈ (Parameter.asked ps).map Parameter.field → Asks f.2
  | body {hasBody : Bool} {fields : List (FieldKey × Ask)} {f : FieldKey × Ask} :
    Resolver.lift (site.body c) = pure (hasBody, fields) → f ∈ fields → Asks f.2
  | answer {s : Option (RefOr Schema)} :
    Resolver.answerSchema c site.operation.responses Resolver.preferredAnswers = pure s →
      Asks (site.answerAsk s)

end Site

namespace Reading

variable (R : Reading)

/-- The fields of the request, in the order in which they are put. -/
def fields : List (FieldKey × Ask) :=
  (Parameter.asked R.parameters).map Parameter.field ++ R.bodyFields

/-- The endpoint of an operation, once it has got its types. -/
def endpoint (base : String) (site : Site) (requestType : Fields) (responseType : TypeExpr) :
    Endpoint where
  url := Url.request base site.path
  method := site.method
  operationId := site.operationId
  pathParams := (Parameter.group .path R.parameters).map (·.name)
  queryParams := (Parameter.group .query R.parameters).map (·.name)
  bodyParams := (Parameter.group .body R.parameters).map (·.name) ++
    if R.hasBody then [site.bodyKey] else []
  formParams := (Parameter.group .form R.parameters).map (·.name)
  requestType
  responseType

end Reading

namespace Resolver

/-- Resolves the types of fields and puts each in its place. -/
def askFields (schemas : List (String × RefOr Schema)) :
    List (FieldKey × Ask) → Fields → Resolver Fields
  | [], fields => return fields
  | (k, a) :: asks, fields => do
    let t ← a.resolve schemas
    askFields schemas asks (Assoc.put k t fields)

variable {c : Components} {α β : Type}

/-! ### Steps that have nothing to do with the pass -/

/-- The step has one result, whatever the state of the pass, and leaves the pass as it is. -/
def Steady (x : Resolver α) : Prop := (∃ a, x = pure a) ∨ ∃ e, x = throw e

theorem Steady.bind {x : Resolver α} {f : α → Resolver β} (hx : Steady x) (hf : ∀ a, Steady (f a)) :
    Steady (x >>= f) := by
  rcases hx with ⟨a, rfl⟩ | ⟨e, rfl⟩
  · simpa using hf a
  · exact .inr ⟨e, rfl⟩

theorem lift_ok (a : α) : lift (.ok a) = (pure a : Resolver α) := rfl

theorem lift_steady (result : Except ReferenceError α) : Steady (lift result) := by
  cases result with
  | ok a => exact .inl ⟨a, rfl⟩
  | error e => exact .inr ⟨e, rfl⟩

theorem mapM_steady {f : α → Resolver β} (hf : ∀ a, Steady (f a)) (as : List α) :
    Steady (as.mapM f) := by
  induction as with
  | nil => exact .inl ⟨[], rfl⟩
  | cons a as ih =>
    rw [List.mapM_cons]
    exact (hf a).bind fun b => ih.bind fun bs => .inl ⟨b :: bs, rfl⟩

theorem parameters_steady (site : Site) : Steady (parameters c site) :=
  (mapM_steady (fun _ => lift_steady _) _).bind fun _ => .inl ⟨_, rfl⟩

theorem answerSchema_steady (responses : List (String × RefOr Body))
    (answers : List (String × String)) : Steady (answerSchema c responses answers) := by
  induction answers with
  | nil => exact .inl ⟨none, rfl⟩
  | cons answer answers ih =>
    rw [answerSchema]
    split
    · exact ih
    · refine (lift_steady _).bind fun b => ?_
      split
      · exact .inl ⟨_, rfl⟩
      · exact ih

theorem pure_injective {a b : α} (h : (pure a : Resolver α) = pure b) : a = b :=
  Except.ok.inj (Prod.mk.inj (congrFun h { registry := .empty })).1

theorem pure_ne_throw (a : α) (e : ReferenceError) : (pure a : Resolver α) ≠ throw e :=
  fun h => by cases congrFun h { registry := .empty }

/-! ### Types that are asked for -/

theorem parameterType_eq (p : Parameter) : parameterType c p = p.ask.resolve c.schemas := by
  rw [parameterType, Parameter.ask, Ask.resolve]
  cases p.schema with
  | some s => exact schema?_eq c.schemas (some s) p.name p.name
  | none => cases p.type.bind Primitive.ofTypeName? <;> rfl

theorem addParameters_eq (ps : List Parameter) (fields : Fields) :
    addParameters c ps fields = askFields c.schemas (ps.map Parameter.field) fields := by
  induction ps generalizing fields with
  | nil => rfl
  | cons p ps ih => simp [addParameters, askFields, Parameter.field, parameterType_eq, ih]

theorem addContent_eq (key : String) (content : List (String × Option (RefOr Schema)))
    (fields : Fields) :
    addContent c key content fields = askFields c.schemas (Body.fields key ⟨content⟩) fields := by
  induction content generalizing fields with
  | nil => rfl
  | cons m content ih =>
    rw [addContent, schema?_eq]
    exact congrArg _ (funext fun t => ih _)

/-- Adding a body is reading it, then resolving what it asks for. -/
theorem addRequestBody_eq (site : Site) (fields : Fields) :
    addRequestBody c site.bodyKey site.operation.requestBody fields = do
      let body ← lift (site.body c)
      return (body.1, ← askFields c.schemas body.2 fields) := by
  rw [Site.body]
  cases site.operation.requestBody with
  | none => rfl
  | some body =>
    rw [addRequestBody, addBody]
    dsimp only
    cases schemaReference? body with
    | some r => simp [lift_ok, askFields, Ask.resolve, Outline.resolve]
    | none =>
      cases Reference.follow .requestBodies c.requestBodies body with
      | error e => rfl
      | ok b => simp [Except.map, lift_ok, addContent_eq]

/-! ### Whole operations -/

/-- Resolving an operation, with what does not depend on the pass set apart from the rest. -/
theorem endpoint_eq (base : String) (site : Site) :
    endpoint c base site = do
      let ps ← parameters c site
      let fields ← askFields c.schemas ((Parameter.asked ps).map Parameter.field) []
      let body ← lift (site.body c)
      let requestType ← askFields c.schemas body.2 fields
      let answer ← answerSchema c site.operation.responses preferredAnswers
      let responseType ← (site.answerAsk answer).resolve c.schemas
      return Reading.endpoint ⟨ps, body.1, body.2, answer⟩ base site requestType responseType := by
  rw [endpoint]
  refine congrArg (parameters c site >>= ·) (funext fun ps => ?_)
  change addParameters c (Parameter.asked ps) [] >>= _ = _
  rw [addParameters_eq]
  refine congrArg (askFields _ _ _ >>= ·) (funext fun fields => ?_)
  change addRequestBody c site.bodyKey site.operation.requestBody fields >>= _ = _
  rw [addRequestBody_eq]
  simp only [bind_assoc, pure_bind, schema?_eq]
  rfl

end Resolver

theorem Site.Reads.not_refuses {c : Components} {site : Site} {R : Reading} {e : ReferenceError}
    (h : site.Reads c R) : ¬ site.Refuses c e := by
  rintro (hnone | hnone | hnone)
  · exact Resolver.pure_ne_throw _ _ (h.parameters.symm.trans hnone)
  · exact Resolver.pure_ne_throw _ _ (h.body.symm.trans hnone)
  · exact Resolver.pure_ne_throw _ _ (h.answer.symm.trans hnone)

end ApiClient

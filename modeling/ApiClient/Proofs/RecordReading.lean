import ApiClient.Proofs.SchemaReading
import Mathlib

/-! The records that a description is made of. What is read of a record depends on its fields only, and of
a field that holds further records only on what these are read as. -/

namespace ApiClient

open Format
open ApiClient.Tree (strict)

/-! ### Where records stand -/

/-- The records that a description is made of. -/
inductive RecordKind where
  | document | server | components | pathItem | operation | parameter | body | mediaType | schema
  deriving DecidableEq

/-- What is expected of a value in which records stand. -/
inductive Expected where
  | record (kind : RecordKind)
  | list (items : Expected)
  | table (values : Expected)
  deriving DecidableEq

namespace RecordKind

/-- The fields of a record, in the order in which they are listed. -/
def names : RecordKind → List String
  | document => ["servers", "paths", "components"]
  | server => ["url"]
  | components => ["schemas", "parameters", "requestBodies", "responses"]
  | pathItem => PathItem.fieldNames
  | operation => ["operationId", "parameters", "requestBody", "responses"]
  | parameter => Parameter.fieldNames
  | body => ["content"]
  | mediaType => ["schema"]
  | schema => Schema.fieldNames

/-- The fields in which further records stand. -/
def parts : RecordKind → List (String × Expected)
  | document => [("servers", .list (.record server)), ("paths", .table (.record pathItem)),
      ("components", .record components)]
  | server => []
  | components => [("schemas", .table (.record schema)), ("parameters", .table (.record parameter)),
      ("requestBodies", .table (.record body)), ("responses", .table (.record body))]
  | pathItem => [("get", .record operation), ("put", .record operation), ("post", .record operation),
      ("delete", .record operation), ("options", .record operation), ("head", .record operation),
      ("patch", .record operation), ("trace", .record operation),
      ("parameters", .list (.record parameter))]
  | operation => [("parameters", .list (.record parameter)), ("requestBody", .record body),
      ("responses", .table (.record body))]
  | parameter => [("schema", .record schema)]
  | body => [("content", .table (.record mediaType))]
  | mediaType => [("schema", .record schema)]
  | schema => [("properties", .table (.record schema)), ("items", .record schema),
      ("additionalProperties", .record schema), ("allOf", .list (.record schema)),
      ("oneOf", .list (.record schema)), ("anyOf", .list (.record schema))]

/-- Whether a reference may stand in the place of the record. -/
def referable : RecordKind → Bool
  | parameter | body | schema => true
  | _ => false

end RecordKind

/-! ### Readers -/

namespace RecordKind

/-- What a record is read as. -/
def Value : RecordKind → Type
  | document => Document
  | server => String
  | components => Components
  | pathItem => PathItem
  | operation => Operation
  | parameter => RefOr Parameter
  | body => RefOr Body
  | mediaType => Option (RefOr Schema)
  | schema => RefOr Schema

def read : (k : RecordKind) → Tree → Option k.Value
  | document => Document.read strict
  | server => Document.server strict
  | components => Components.read strict
  | pathItem => PathItem.read strict
  | operation => Operation.read strict
  | parameter => Parameter.read?
  | body => Body.read?
  | mediaType => Body.mediaType?
  | schema => Schema.read?

end RecordKind

/-- The tree is a list or a mapping. -/
def Tree.Compound : Tree → Prop
  | .seq _ | .map _ => True
  | _ => False

theorem Tree.Compound.present {t : Tree} (h : t.Compound) : t.present = some t := by
  cases t <;> first | rfl | cases h

theorem Tree.Compound.additional {α : Type} {t : Tree} (h : t.Compound) (read : Tree → Option α) :
    Additional.ofTree? read t = (read t).map .values := by
  cases t <;> first | rfl | cases h

namespace Expected

def Value : Expected → Type
  | record k => k.Value
  | list e => List e.Value
  | table e => List (String × e.Value)

def read : (e : Expected) → Tree → Option e.Value
  | record k => k.read
  | list e => strict.listOf e.read
  | table e => strict.tableOf e.read

/-- Two lists or mappings that are read as the same. -/
structure Alike (e : Expected) (t t' : Tree) : Prop where
  compound : t.Compound ∧ t'.Compound
  read_eq : e.read t = e.read t'

end Expected

/-- The field is the same in both, or it holds records that are read as the same. -/
def RecordKind.Agrees (k : RecordKind) (name : String) (t t' : Tree) : Prop :=
  t = t' ∨ ∃ e, k.parts.lookup name = some e ∧ e.Alike t t'

/-- The fields of two records of one kind agree. -/
structure Record.Agrees (k : RecordKind) (r r' : Record Tree) : Prop where
  byPlace : r.byPlace = r'.byPlace
  fields : ∀ name, Option.Rel (k.Agrees name) (r.given.lookup name) (r'.given.lookup name)

section

variable {α : Type} {k : RecordKind} {name : String} {e : Expected} {t t' : Tree} {r r' : Record Tree}

theorem RecordKind.Agrees.eq (h : k.Agrees name t t') (hplain : k.parts.lookup name = none) : t = t' := by
  rcases h with h | ⟨e, hpart, -⟩
  · exact h
  · rw [hplain] at hpart
    cases hpart

theorem RecordKind.Agrees.read_eq (h : k.Agrees name t t') (e : Expected)
    (hpart : k.parts.lookup name = some e) : e.read t = e.read t' := by
  rcases h with rfl | ⟨e', hpart', halike⟩
  · rfl
  · obtain rfl := Option.some.inj (hpart.symm.trans hpart')
    exact halike.read_eq

theorem RecordKind.Agrees.additional_eq (h : RecordKind.schema.Agrees "additionalProperties" t t') :
    Additional.ofTree? Schema.read? t = Additional.ofTree? Schema.read? t' := by
  rcases h with rfl | ⟨e, hpart, halike⟩
  · rfl
  · obtain rfl : e = .record .schema := (Option.some.inj hpart).symm
    rw [halike.compound.1.additional, halike.compound.2.additional]
    exact congrArg _ halike.read_eq

theorem optionally_of_compound {read : Tree → Option α} (h : r.given.lookup name = some t)
    (ht : t.Compound) : strict.optionally r name read = (read t).map some := by
  rw [Format.optionally, h]
  show (some t.present).bind _ = _
  rw [ht.present]
  exact Option.map_eq_bind.symm

namespace Record.Agrees

variable (h : r.Agrees k r') {read : Tree → Option α}
  (hread : ∀ t t', k.Agrees name t t' → read t = read t')

include h hread

theorem required : required r name read = Format.required r' name read := by
  have hfield := h.fields name
  rw [Format.required, Format.required]
  generalize r.given.lookup name = found, r'.given.lookup name = found' at hfield
  cases hfield with
  | none => rfl
  | some hagrees => exact hread _ _ hagrees

theorem defaulted (default : α) : defaulted r name default read = Format.defaulted r' name default read := by
  have hfield := h.fields name
  rw [Format.defaulted, Format.defaulted]
  generalize r.given.lookup name = found, r'.given.lookup name = found' at hfield
  cases hfield with
  | none => rfl
  | some hagrees => exact hread _ _ hagrees

/-- Where an optional field holds records, it is no null in either of the two. -/
theorem optionally : strict.optionally r name read = strict.optionally r' name read := by
  have hfield := h.fields name
  generalize hv : r.given.lookup name = found, hv' : r'.given.lookup name = found' at hfield
  cases hfield with
  | none => rw [Format.optionally, Format.optionally, hv, hv', h.byPlace]
  | @some t t' hagrees =>
    rcases hagrees with rfl | ⟨e, hpart, halike⟩
    · rw [Format.optionally, Format.optionally, hv, hv']
    · rw [optionally_of_compound hv halike.compound.1, optionally_of_compound hv' halike.compound.2,
        hread t t' (.inr ⟨e, hpart, halike⟩)]

end Record.Agrees

end

theorem strict_within {α : Type} (read : Tree → Option α) : strict.within read = read := by
  funext t
  rw [Format.within]
  cases h : read t <;> simp [strict, h]

/-! ### Records that agree -/

namespace RecordKind

variable {k : RecordKind} {t t' : Tree}

/-- Records whose fields agree, where there are records at all. -/
def SameRecord (k : RecordKind) (t t' : Tree) : Prop :=
  Option.Rel (Record.Agrees k) (t.record? k.names) (t'.record? k.names)

/-- What is made of the fields of a record is made of fields that agree as well. -/
theorem bind_record? {α : Type} {f : Record Tree → Option α} (h : SameRecord k t t')
    (hf : ∀ r r', r.Agrees k r' → f r = f r') :
    (t.record? k.names).bind f = (t'.record? k.names).bind f := by
  rw [SameRecord] at h
  generalize t.record? k.names = x, t'.record? k.names = x' at h
  cases h with
  | none => rfl
  | some hr => exact hf _ _ hr

theorem read_document (h : SameRecord document t t') :
    Document.read strict t = Document.read strict t' := by
  refine bind_record? h fun r r' hr => ?_
  have hservers : defaulted r "servers" [] (strict.listOf (Document.server strict)) = _ :=
    hr.defaulted (fun _ _ ha => ha.read_eq (.list (.record server)) rfl) []
  have hpaths : defaulted r "paths" [] (strict.tableOf (PathItem.read strict)) = _ :=
    hr.defaulted (fun _ _ ha => ha.read_eq (.table (.record pathItem)) rfl) []
  have hcomponents : defaulted r "components" {} (Components.read strict) = _ :=
    hr.defaulted (fun _ _ ha => ha.read_eq (.record components) rfl) {}
  simp only [hservers, hpaths, hcomponents]
  rfl

theorem read_server (h : SameRecord server t t') :
    Document.server strict t = Document.server strict t' :=
  bind_record? h fun _ _ hr => hr.required fun _ _ ha => congrArg _ (ha.eq rfl)

theorem read_components (h : SameRecord components t t') :
    Components.read strict t = Components.read strict t' := by
  refine bind_record? h fun r r' hr => ?_
  have hschemas : defaulted r "schemas" [] (strict.tableOf Schema.read?) = _ :=
    hr.defaulted (fun _ _ ha => ha.read_eq (.table (.record schema)) rfl) []
  have hparameters : defaulted r "parameters" [] (strict.tableOf Parameter.read?) = _ :=
    hr.defaulted (fun _ _ ha => ha.read_eq (.table (.record parameter)) rfl) []
  have hbodies (name : String) (hname : components.parts.lookup name = some (.table (.record body))) :
      defaulted r name [] (strict.tableOf Body.read?) = defaulted r' name [] (strict.tableOf Body.read?) :=
    hr.defaulted (fun _ _ ha => ha.read_eq (.table (.record body)) hname) []
  simp only [strict_within, hschemas, hparameters, hbodies "requestBodies" rfl, hbodies "responses" rfl]
  rfl

theorem read_pathItem (h : SameRecord pathItem t t') :
    PathItem.read strict t = PathItem.read strict t' := by
  refine bind_record? h fun r r' hr => ?_
  have hmethods : Method.all.mapM (PathItem.method strict r) =
      Method.all.mapM (PathItem.method strict r') := by
    refine Option.mapM_congr (List.forall₂_same.mpr fun m hm => ?_)
    have hpart : ∀ m ∈ Method.all, pathItem.parts.lookup m.text = some (.record operation) := by decide
    have hmethod : strict.optionally r m.text (Operation.read strict) = _ :=
      hr.optionally fun _ _ ha => ha.read_eq (.record operation) (hpart m hm)
    rw [PathItem.method, PathItem.method, hmethod]
  have hparameters : defaulted r "parameters" [] (strict.listOf Parameter.read?) = _ :=
    hr.defaulted (fun _ _ ha => ha.read_eq (.list (.record parameter)) rfl) []
  simp only [strict_within, hmethods, hparameters]
  rfl

theorem read_operation (h : SameRecord operation t t') :
    Operation.read strict t = Operation.read strict t' := by
  refine bind_record? h fun r r' hr => ?_
  have hid : strict.optionally r "operationId" strict.text = _ :=
    hr.optionally fun _ _ ha => congrArg _ (ha.eq rfl)
  have hparameters : defaulted r "parameters" [] (strict.listOf Parameter.read?) = _ :=
    hr.defaulted (fun _ _ ha => ha.read_eq (.list (.record parameter)) rfl) []
  have hbody : strict.optionally r "requestBody" Body.read? = _ :=
    hr.optionally fun _ _ ha => ha.read_eq (.record body) rfl
  have hresponses : defaulted r "responses" [] (strict.tableOf Body.read?) = _ :=
    hr.defaulted (fun _ _ ha => ha.read_eq (.table (.record body)) rfl) []
  simp only [strict_within, hid, hparameters, hbody, hresponses]
  rfl

theorem read_parameter (h : SameRecord parameter t t') :
    Parameter.ofTree? t = Parameter.ofTree? t' := by
  refine bind_record? h fun r r' hr => ?_
  have htext (name : String) (hname : parameter.parts.lookup name = none) :
      required r name Tree.str? = required r' name Tree.str? :=
    hr.required fun _ _ ha => congrArg _ (ha.eq hname)
  have hrequired : defaulted r "required" false Tree.bool? = _ :=
    hr.defaulted (fun _ _ ha => congrArg _ (ha.eq rfl)) false
  have hschema : strict.optionally r "schema" Schema.read? = _ :=
    hr.optionally fun _ _ ha => ha.read_eq (.record schema) rfl
  have htype : strict.optionally r "type" Tree.str? = _ :=
    hr.optionally fun _ _ ha => congrArg _ (ha.eq rfl)
  simp only [htext "name" rfl, htext "in" rfl, hrequired, hschema, htype]

theorem read_body (h : SameRecord body t t') : Body.ofTree? t = Body.ofTree? t' := by
  refine bind_record? h fun r r' hr => ?_
  have hcontent : defaulted r "content" [] (strict.tableOf Body.mediaType?) = _ :=
    hr.defaulted (fun _ _ ha => ha.read_eq (.table (.record mediaType)) rfl) []
  simp only [hcontent]
  rfl

theorem read_mediaType (h : SameRecord mediaType t t') : Body.mediaType? t = Body.mediaType? t' :=
  bind_record? h fun _ _ hr => hr.optionally fun _ _ ha => ha.read_eq (.record schema) rfl

theorem read_schema (h : SameRecord schema t t') :
    Schema.ofTree? Schema.read? t = Schema.ofTree? Schema.read? t' := by
  refine bind_record? h fun r r' hr => ?_
  have hplain {α : Type} (name : String) (hname : schema.parts.lookup name = none)
      (read : Tree → Option α) :
      strict.optionally r name read = strict.optionally r' name read :=
    hr.optionally fun _ _ ha => congrArg _ (ha.eq hname)
  have hproperties : defaulted r "properties" [] (strict.tableOf Schema.read?) = _ :=
    hr.defaulted (fun _ _ ha => ha.read_eq (.table (.record schema)) rfl) []
  have hrequired : defaulted r "required" [] (strict.listOf Tree.str?) = _ :=
    hr.defaulted (fun _ _ ha => congrArg _ (ha.eq rfl)) []
  have hitems : strict.optionally r "items" Schema.read? = _ :=
    hr.optionally fun _ _ ha => ha.read_eq (.record schema) rfl
  have hadditional :
      strict.optionally r "additionalProperties" (Additional.ofTree? Schema.read?) = _ :=
    hr.optionally fun _ _ ha => ha.additional_eq
  have hlist (name : String) (hname : schema.parts.lookup name = some (.list (.record schema))) :
      defaulted r name [] (strict.listOf Schema.read?) = defaulted r' name [] (strict.listOf Schema.read?) :=
    hr.defaulted (fun _ _ ha => ha.read_eq (.list (.record schema)) hname) []
  have hnullable : defaulted r "nullable" false Tree.bool? = _ :=
    hr.defaulted (fun _ _ ha => congrArg _ (ha.eq rfl)) false
  simp only [hplain "type" rfl, hplain "format" rfl, hplain "enum" rfl, hproperties, hrequired, hitems,
    hadditional, hlist "allOf" rfl, hlist "oneOf" rfl, hlist "anyOf" rfl, hnullable]
  rfl

/-- Records whose fields agree are read as the same, unless a reference stands in the place of one. -/
theorem read_congr (k : RecordKind) (h : k.SameRecord t t')
    (href : k.referable → t.referred? = t'.referred?) : k.read t = k.read t' := by
  cases k with
  | document => exact read_document h
  | server => exact read_server h
  | components => exact read_components h
  | pathItem => exact read_pathItem h
  | operation => exact read_operation h
  | parameter => exact RefOr.ofTree?_congr (href rfl) fun _ => read_parameter h
  | body => exact RefOr.ofTree?_congr (href rfl) fun _ => read_body h
  | mediaType => exact read_mediaType h
  | schema =>
    show Schema.read? t = Schema.read? t'
    rw [Schema.read?_eq, Schema.read?_eq]
    exact RefOr.ofTree?_congr (href rfl) fun _ => read_schema h

/-- One reference is read as such, whatever stands beside it. -/
theorem read_of_referred? (hk : k.referable) {r : String} (h : t.referred? = some r)
    (h' : t'.referred? = some r) : k.read t = k.read t' := by
  have hread {α : Type} (read : Tree → Option α) : RefOr.ofTree? read t = RefOr.ofTree? read t' :=
    RefOr.ofTree?_congr (h.trans h'.symm) fun hnone => by
      rw [h] at hnone
      cases hnone
  cases k with
  | parameter => exact hread _
  | body => exact hread _
  | schema =>
    show Schema.read? t = Schema.read? t'
    rw [Schema.read?_eq, Schema.read?_eq]
    exact hread _
  | _ => cases hk

end RecordKind

end ApiClient

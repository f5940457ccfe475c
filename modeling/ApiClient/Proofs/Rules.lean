import ApiClient.Proofs.Occurrences

/-! Rules for the parts of a description: for its names, its objects and its enums. Outlines, shapes and
all that an operation asks for obey the rules that the description obeys. -/

namespace ApiClient

/-- What is asked of the name of a component, of the names of the properties of one object, of the values
of one enum, and of the names of parameters and operations. -/
structure Rules where
  component : String → Prop := fun _ => True
  properties : List String → Prop := fun _ => True
  values : List Json → Prop := fun _ => True
  parameter : String → Prop := fun _ => True
  operation : String → Prop := fun _ => True

/-! ### Schemas -/

mutual

/-- The objects and the enums of a schema obey the rules, at any depth. -/
def Schema.Obeys (K : Rules) : Schema → Prop
  | ⟨_, _, enum, properties, _, items, additional, allOf, oneOf, anyOf, _⟩ =>
    (∀ vs ∈ enum, K.values vs) ∧ K.properties (properties.map (·.1)) ∧
      Schema.ObeyFields K properties ∧ Schema.ObeysItems K items ∧
      Schema.ObeysAdditional K additional ∧ Schema.ObeyAll K allOf ∧ Schema.ObeyAll K oneOf ∧
      Schema.ObeyAll K anyOf
termination_by structural s => s

def Schema.ObeysOf (K : Rules) : RefOr Schema → Prop
  | .ref _ => True
  | .inline s => s.Obeys K

def Schema.ObeysItems (K : Rules) : Option (RefOr Schema) → Prop
  | none => True
  | some s => Schema.ObeysOf K s

def Schema.ObeysAdditional (K : Rules) : Option (Additional (RefOr Schema)) → Prop
  | some (.values s) => Schema.ObeysOf K s
  | some (.allowed _) => True
  | none => True

def Schema.ObeyAll (K : Rules) : List (RefOr Schema) → Prop
  | [] => True
  | s :: ss => Schema.ObeysOf K s ∧ Schema.ObeyAll K ss

def Schema.ObeyFields (K : Rules) : List (String × RefOr Schema) → Prop
  | [] => True
  | (_, s) :: fs => Schema.ObeysOf K s ∧ Schema.ObeyFields K fs

end

namespace Outline

mutual

/-- The objects and the enums of an outline obey the rules. -/
def Obeys (K : Rules) : Outline → Prop
  | .enum vs => K.values vs
  | .array o => o.Obeys K
  | .map o => o.Obeys K
  | .object fs => K.properties (fs.map (·.1.name)) ∧ ObeyFields K fs
  | .all os => ObeyAll K os
  | .any os => ObeyAll K os
  | .orNull o => o.Obeys K
  | _ => True

def ObeyAll (K : Rules) : List Outline → Prop
  | [] => True
  | o :: os => o.Obeys K ∧ ObeyAll K os

def ObeyFields (K : Rules) : List (FieldKey × Outline) → Prop
  | [] => True
  | (_, o) :: fs => o.Obeys K ∧ ObeyFields K fs

end

variable {K : Rules} {o : Outline} {os us : List Outline}

theorem obeyAll_iff : ObeyAll K os ↔ ∀ o ∈ os, o.Obeys K := by
  induction os with
  | nil => simp [ObeyAll]
  | cons o os ih => simp [ObeyAll, ih]

theorem ofTypeName_obeys {object array : Outline} (hobject : object.Obeys K) (harray : array.Obeys K)
    (name : String) : (ofTypeName object array name).Obeys K := by
  rw [ofTypeName]
  split_ifs
  · exact hobject
  · exact harray
  · cases Primitive.ofTypeName? name <;> exact trivial

theorem orNull_obeys (h : o.Obeys K) (nullable : Bool) : (if nullable then orNull o else o).Obeys K := by
  cases nullable <;> exact h

end Outline

namespace Schema

open Outline

variable {K : Rules}

theorem enumValues?_eq_some {enum : Option (List Json)} {vs : List Json}
    (h : enumValues? enum = some vs) : enum = some vs := by
  rcases enum with _ | _ | ⟨w, ws⟩
  · cases h
  · cases h
  · exact h

theorem map_name_outlineOfFields (fs : List (String × RefOr Schema)) (required : List String) :
    (outlineOfFields fs required).map (·.1.name) = fs.map (·.1) := by
  induction fs with
  | nil => rfl
  | cons f fs ih =>
    rw [outlineOfFields, List.map_cons, List.map_cons, ih]
    rfl

mutual

theorem outline_obeys : (s : Schema) → s.Obeys K → s.outline.Obeys K
  | ⟨type, format, enum, properties, required, items, additional, allOf, oneOf, anyOf, nullable⟩,
      h => by
    rw [Obeys] at h
    obtain ⟨hvalues, hnames, hproperties, hitems, hadditional, hallOf, honeOf, hanyOf⟩ := h
    have hobject : (if properties.isEmpty then outlineOfAdditional additional
        else .object (outlineOfFields properties required)).Obeys K := by
      split_ifs with hempty
      · rw [List.isEmpty_iff.mp hempty] at hnames
        exact outlineOfAdditional_obeys hnames additional hadditional
      · exact ⟨(map_name_outlineOfFields properties required).symm ▸ hnames,
          outlineOfFields_obey properties required hproperties⟩
    have harray : (Outline.array (outlineOf? items)).Obeys K := outlineOf?_obeys items hitems
    simp only [outline]
    generalize (if properties.isEmpty = true then outlineOfAdditional additional
      else Outline.object (outlineOfFields properties required)) = object at hobject
    generalize Outline.array (outlineOf? items) = array at harray
    refine orNull_obeys ?_ nullable
    cases henum : enumValues? enum with
    | some values => exact hvalues values (enumValues?_eq_some henum)
    | none =>
      by_cases hall : !allOf.isEmpty
      · rw [if_pos hall]
        exact outlinesOf_obey allOf hallOf
      rw [if_neg hall]
      by_cases hsome : !oneOf.isEmpty || !anyOf.isEmpty
      · rw [if_pos hsome]
        refine obeyAll_iff.mpr fun o ho => ?_
        rcases List.mem_append.mp ho with ho | ho
        · exact obeyAll_iff.mp (outlinesOf_obey oneOf honeOf) o ho
        · exact obeyAll_iff.mp (outlinesOf_obey anyOf hanyOf) o ho
      rw [if_neg hsome]
      rcases type with _ | name | names
      · dsimp only
        split_ifs
        · exact hobject
        · exact harray
        · exact trivial
      · exact ofTypeName_obeys hobject harray name
      · refine obeyAll_iff.mpr fun o ho => ?_
        obtain ⟨name, -, rfl⟩ := List.mem_map.mp ho
        exact ofTypeName_obeys hobject harray name

theorem outlineOf_obeys : (s : RefOr Schema) → ObeysOf K s → (outlineOf s).Obeys K
  | .ref _, _ => by
    rw [outlineOf]
    exact trivial
  | .inline s, h => by
    rw [ObeysOf] at h
    rw [outlineOf]
    exact outline_obeys s h

theorem outlineOf?_obeys : (s : Option (RefOr Schema)) → ObeysItems K s → (outlineOf? s).Obeys K
  | none, _ => by
    rw [outlineOf?]
    exact trivial
  | some s, h => by
    rw [ObeysItems] at h
    rw [outlineOf?]
    exact outlineOf_obeys s h

theorem outlinesOf_obey : (ss : List (RefOr Schema)) → Schema.ObeyAll K ss →
    Outline.ObeyAll K (outlinesOf ss)
  | [], _ => trivial
  | s :: ss, h => by
    rw [Schema.ObeyAll] at h
    rw [outlinesOf, Outline.ObeyAll]
    exact ⟨outlineOf_obeys s h.1, outlinesOf_obey ss h.2⟩

theorem outlineOfFields_obey : (fs : List (String × RefOr Schema)) → (required : List String) →
    Schema.ObeyFields K fs → Outline.ObeyFields K (outlineOfFields fs required)
  | [], _, _ => trivial
  | (_, s) :: fs, required, h => by
    rw [Schema.ObeyFields] at h
    rw [outlineOfFields, Outline.ObeyFields]
    exact ⟨outlineOf_obeys s h.1, outlineOfFields_obey fs required h.2⟩

theorem outlineOfAdditional_obeys (hnone : K.properties []) :
    (a : Option (Additional (RefOr Schema))) → ObeysAdditional K a → (outlineOfAdditional a).Obeys K
  | some (.values s), h => by
    rw [ObeysAdditional] at h
    rw [outlineOfAdditional, Outline.Obeys]
    exact outlineOf_obeys s h
  | some (.allowed true), _ => by
    rw [outlineOfAdditional]
    exact trivial
  | some (.allowed false), _ => by
    rw [outlineOfAdditional]
    exact ⟨hnone, trivial⟩
  | none, _ => by
    rw [outlineOfAdditional]
    exact ⟨hnone, trivial⟩

end

end Schema

namespace Shape

/-- The objects and the enums of a shape obey the rules. -/
def Obeys (K : Rules) : Shape → Prop
  | .object fs => K.properties (fs.map (·.1.name)) ∧ Outline.ObeyFields K fs
  | .enum vs => K.values vs
  | .type o => o.Obeys K

end Shape

theorem Schema.shape_obeys {K : Rules} {s : Schema} (h : s.Obeys K) : s.shape.Obeys K := by
  have houtline := outline_obeys s h
  obtain ⟨type, format, enum, properties, required, items, additional, allOf, oneOf, anyOf, nullable⟩ :=
    s
  rw [Obeys] at h
  obtain ⟨hvalues, hnames, hproperties, -⟩ := h
  rw [shape]
  split
  · rename_i values henum
    exact hvalues values (enumValues?_eq_some henum)
  · split_ifs
    · exact ⟨(map_name_outlineOfFields properties required).symm ▸ hnames,
        outlineOfFields_obey properties required hproperties⟩
    · exact houtline

theorem RefOr.shape_obeys {K : Rules} {target : RefOr Schema} (h : Schema.ObeysOf K target) :
    target.shape.Obeys K := by
  cases target with
  | ref r => exact trivial
  | inline s =>
    rw [Schema.ObeysOf] at h
    exact Schema.shape_obeys h

/-! ### Descriptions -/

/-- The value obeys the rules if it is there and not a reference to it. -/
def RefOr.All {α : Type} (P : α → Prop) (item : RefOr α) : Prop := ∀ a, item = .inline a → P a

structure Parameter.Obeys (K : Rules) (p : Parameter) : Prop where
  name : K.parameter p.name
  schema : Schema.ObeysItems K p.schema

def Body.Obeys (K : Rules) (b : Body) : Prop := ∀ m ∈ b.content, Schema.ObeysItems K m.2

structure Components.Obeys (K : Rules) (c : Components) : Prop where
  names : ∀ e ∈ c.schemas, K.component e.1
  schemas : ∀ e ∈ c.schemas, Schema.ObeysOf K e.2
  parameters : ∀ e ∈ c.parameters, e.2.All (Parameter.Obeys K)
  requestBodies : ∀ e ∈ c.requestBodies, e.2.All (Body.Obeys K)
  responses : ∀ e ∈ c.responses, e.2.All (Body.Obeys K)

/-- An operation without a name has the empty one. -/
structure Site.Obeys (K : Rules) (site : Site) : Prop where
  operation : K.operation site.operationId
  parameters : ∀ p ∈ site.item.parameters ++ site.operation.parameters, p.All (Parameter.Obeys K)
  requestBody : ∀ b ∈ site.operation.requestBody, b.All (Body.Obeys K)
  responses : ∀ e ∈ site.operation.responses, e.2.All (Body.Obeys K)

/-- All parts of the description obey the rules. -/
structure Document.Obeys (K : Rules) (d : Document) : Prop where
  components : d.components.Obeys K
  sites : ∀ site ∈ d.sites, site.Obeys K

/-- The names that places of enums are made from: those of properties and parameters, those of bodies and
answers, which are made from those of operations, and those that components get. -/
inductive Rules.Key (K : Rules) : String → Prop
  | property {names : List String} {n : String} : K.properties names → n ∈ names → Key K n
  | parameter {n : String} : K.parameter n → Key K n
  | request {id : String} : K.operation id → Key K (id ++ "Request")
  | response {id : String} : K.operation id → Key K (id ++ "Response")
  | component {c n : String} : K.component c → Registry.IsNumbered (capitalCase c) n → Key K n

structure Ask.Obeys (K : Rules) (a : Ask) : Prop where
  outline : a.outline.Obeys K
  key : K.Key a.key
  parent : K.Key a.parent

namespace Site

open Resolver

variable {K : Rules} {c : Components} {site : Site}

theorem follow_obeys {α : Type} {P : α → Prop} {part : Section} {table : List (String × RefOr α)}
    {item : RefOr α} {a : α} (hitem : item.All P) (htable : ∀ e ∈ table, e.2.All P)
    (h : Reference.follow part table item = .ok a) : P a := by
  rcases Reference.follow_ok h with rfl | ⟨name, hname⟩
  · exact hitem a rfl
  · exact htable _ (Assoc.mem_of_lookup hname) a rfl

theorem parameter_obeys {p : Parameter} (h : p.Obeys K) : p.ask.Obeys K := by
  refine ⟨?_, .parameter h.name, .parameter h.name⟩
  have hschema := h.schema
  rw [Parameter.ask]
  cases hs : p.schema with
  | some s =>
    rw [hs] at hschema
    exact Schema.outlineOf?_obeys (some s) hschema
  | none => cases p.type.bind Primitive.ofTypeName? <;> exact trivial

theorem content_obeys {b : Body} (h : b.Obeys K) {m : String × Option (RefOr Schema)}
    (hm : m ∈ b.content) : (Schema.outlineOf? m.2).Obeys K := Schema.outlineOf?_obeys m.2 (h m hm)

/-- What an operation asks for obeys the rules if it and the components do. -/
theorem Asks.obeys {a : Ask} (hc : c.Obeys K) (hsite : site.Obeys K) (h : site.Asks c a) :
    a.Obeys K := by
  cases h with
  | parameter hps hf =>
    obtain ⟨p, hp, rfl⟩ := List.mem_map.mp hf
    obtain ⟨item, hitem, hfollow⟩ := exists_of_mem_parameters hps (Parameter.mem_of_asked hp)
    exact parameter_obeys (follow_obeys (hsite.parameters item hitem) hc.parameters hfollow)
  | @body hasBody fields f hbody hf =>
    have hkey : K.Key site.bodyKey := .request hsite.operation
    have hread := lift_eq_pure hbody
    obtain ⟨-, hnone⟩ | ⟨r, -, -, href⟩ | ⟨b, hb, -, hfollow⟩ := site.body_cases c
    · obtain ⟨-, rfl⟩ := Prod.mk.inj (Except.ok.inj (hnone.symm.trans hread))
      cases hf
    · obtain ⟨-, rfl⟩ := Prod.mk.inj (Except.ok.inj (href.symm.trans hread))
      obtain rfl := List.mem_singleton.mp hf
      exact ⟨trivial, hkey, hkey⟩
    · rw [hread] at hfollow
      cases hv : Reference.follow .requestBodies c.requestBodies b with
      | error e => simp [hv, Except.map] at hfollow
      | ok v =>
        rw [hv] at hfollow
        obtain ⟨-, rfl⟩ := Prod.mk.inj (Except.ok.inj hfollow)
        obtain ⟨m, hm, rfl⟩ := List.mem_map.mp hf
        exact ⟨content_obeys (follow_obeys (hsite.requestBody b hb) hc.requestBodies hv) hm, hkey, hkey⟩
  | @answer s hanswer =>
    have hkey : K.Key site.answerKey := .response hsite.operation
    refine ⟨?_, hkey, hkey⟩
    cases s with
    | none => exact trivial
    | some s =>
      obtain ⟨status, response, b, mediaType, hresponse, hfollow, hcontent⟩ :=
        answerSchema_eq_some hanswer
      have hresponse := hsite.responses _ (Assoc.mem_of_lookup hresponse)
      exact content_obeys (follow_obeys hresponse hc.responses hfollow) (Assoc.mem_of_lookup hcontent)

end Site

end ApiClient

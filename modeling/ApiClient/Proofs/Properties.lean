import ApiClient.Proofs.Listing

/-! The properties that a schema declares. They are the fields of an object in the type of the schema, as long
as nothing is composed; the properties of a composition are not read. -/

namespace ApiClient

/-- The type is `u`, or it combines `u` with others. -/
def TypeExpr.Offers (t u : TypeExpr) : Prop :=
  t = u ∨ ∃ ts, (t = .union ts ∨ t = .intersection ts) ∧ u ∈ ts

namespace Schema

/-- The schema is a composition of others. -/
def Composed (s : Schema) : Prop := s.allOf ≠ [] ∨ s.oneOf ≠ [] ∨ s.anyOf ≠ []

/-- Nothing is said of the type, or that it is an object. -/
def MayBeObject (s : Schema) : Prop := s.type = none ∨ s.type = some (.single "object")

/-- The schemas differ at most in what they say of a type of their own. -/
structure SameComposition (s u : Schema) : Prop where
  enum : s.enum = u.enum
  allOf : s.allOf = u.allOf
  oneOf : s.oneOf = u.oneOf
  anyOf : s.anyOf = u.anyOf
  nullable : s.nullable = u.nullable

variable {s u : Schema}

theorem outline_of_properties (henum : enumValues? s.enum = none) (htype : s.MayBeObject)
    (hproperties : s.properties ≠ []) (hcomposed : ¬ s.Composed) :
    s.outline = if s.nullable then .orNull (.object (outlineOfFields s.properties s.required))
      else .object (outlineOfFields s.properties s.required) := by
  obtain ⟨type, format, enum, properties, required, items, additional, allOf, oneOf, anyOf,
    nullable⟩ := s
  simp only [Composed, not_or, not_not] at hcomposed
  obtain ⟨rfl, rfl, rfl⟩ := hcomposed
  simp only at henum hproperties
  rcases htype with rfl | rfl <;> simp [outline, Outline.ofTypeName, henum, hproperties]

theorem outline_of_sameComposition (henum : enumValues? s.enum = none) (hcomposed : s.Composed)
    (h : s.SameComposition u) : s.outline = u.outline := by
  obtain ⟨type, format, enum, properties, required, items, additional, allOf, oneOf, anyOf,
    nullable⟩ := s
  obtain ⟨type', format', _, properties', required', items', additional', _, _, _, _⟩ := u
  obtain ⟨rfl, rfl, rfl, rfl, rfl⟩ := h
  simp only at henum
  by_cases hall : allOf = []
  · have hsome : ¬ oneOf = [] ∨ ¬ anyOf = [] := by simpa [Composed, hall] using hcomposed
    simp [outline, henum, hall, hsome]
  · simp [outline, henum, hall]

end Schema

namespace Resolver

variable {schemas : List (String × RefOr Schema)} {s : Schema} {key parent : String} {p q : Pass}

/-- The field is the property: under its name, optional unless the schema requires it, and with the type
that its own schema comes to. -/
def Declares (schemas : List (String × RefOr Schema)) (required : List String) (key : String)
    (e : String × RefOr Schema) (f : FieldKey × TypeExpr) : Prop :=
  f.1.name = e.1 ∧ (f.1.optional = true ↔ e.1 ∉ required) ∧
    ∃ p q, schema? schemas (some e.2) e.1 key p = (.ok f.2, q)

theorem resolveFields_declares {properties : List (String × RefOr Schema)} {required : List String}
    {fs : Fields}
    (h : Outline.resolveFields (reference schemas) (Schema.outlineOfFields properties required) key p =
      (.ok fs, q)) : List.Forall₂ (Declares schemas required key) properties fs := by
  induction properties generalizing p q fs with
  | nil =>
    obtain ⟨rfl, -⟩ := pure_eq_ok h
    exact .nil
  | cons e properties ih =>
    obtain ⟨name, s⟩ := e
    rw [Schema.outlineOfFields, Outline.resolveFields] at h
    obtain ⟨t, z, ht, h⟩ := bind_eq_ok h
    obtain ⟨rest, y, hrest, h⟩ := bind_eq_ok h
    obtain ⟨rfl, -⟩ := pure_eq_ok h
    refine .cons ⟨rfl, by simp [FieldKey.ofRequired], p, z, ?_⟩ (ih hrest)
    rwa [schema?_eq]

/-- A schema that may be an object and is not a composition offers an object of its properties. The
properties of a composition do not matter. -/
theorem properties_offered {t : TypeExpr} (henum : Schema.enumValues? s.enum = none)
    (htype : s.MayBeObject) (hproperties : s.properties ≠ [])
    (h : schema? schemas (some (.inline s)) key parent p = (.ok t, q)) :
    (¬ s.Composed → ∃ fs, t.Offers (.object fs) ∧
        List.Forall₂ (Declares schemas s.required key) s.properties fs) ∧
      (s.Composed → ∀ u, s.SameComposition u →
        schema? schemas (some (.inline u)) key parent p = (.ok t, q)) := by
  rw [schema?_eq, Schema.outlineOf?, Schema.outlineOf] at h
  refine ⟨fun hcomposed => ?_, fun hcomposed u hu => ?_⟩
  · rw [Schema.outline_of_properties henum htype hproperties hcomposed] at h
    cases hnullable : s.nullable with
    | false =>
      rw [hnullable] at h
      obtain ⟨fs, z, hfs, h⟩ := bind_eq_ok h
      obtain ⟨rfl, -⟩ := pure_eq_ok h
      exact ⟨fs, .inl rfl, resolveFields_declares hfs⟩
    | true =>
      rw [hnullable] at h
      obtain ⟨o, z, ho, h⟩ := bind_eq_ok h
      obtain ⟨fs, y, hfs, ho⟩ := bind_eq_ok ho
      obtain ⟨rfl, -⟩ := pure_eq_ok ho
      obtain ⟨rfl, -⟩ := pure_eq_ok h
      exact ⟨fs, .inr ⟨_, .inl rfl, List.mem_cons_self⟩, resolveFields_declares hfs⟩
  · rw [schema?_eq, Schema.outlineOf?, Schema.outlineOf,
      ← Schema.outline_of_sameComposition henum hcomposed hu]
    exact h

/-- A property that is required and one that is not, in an object that may be null. -/
def pointSchema : Schema where
  properties := [("x", .inline { type := some (.single "number") }),
    ("label", .inline { type := some (.single "string") })]
  required := ["x"]
  additional := some (.allowed true)
  nullable := true

theorem properties_offered_point :
    let fs : Fields := [(⟨"x", false⟩, .primitive .number), (⟨"label", true⟩, .primitive .string)]
    ∃ t, schema? [] (some (.inline pointSchema)) "Point" "Point" { registry := .empty } =
        (.ok t, { registry := .empty }) ∧
      t = .union [.object fs, .null] ∧ ∃ fs', t.Offers (.object fs') ∧
        List.Forall₂ (Declares [] ["x"] "Point") pointSchema.properties fs' := by
  intro fs
  have hrun : schema? [] (some (.inline pointSchema)) "Point" "Point" { registry := .empty } =
      (.ok (.union [.object fs, .null]), { registry := .empty }) := by cbv
  have hcomposed : ¬ pointSchema.Composed := by simp [Schema.Composed, pointSchema]
  exact ⟨_, hrun, rfl, (properties_offered rfl (.inl rfl) (by simp [pointSchema]) hrun).1 hcomposed⟩

/-- A property beside a part that the schema consists of. -/
def extendedSchema : Schema where
  properties := [("id", .inline { type := some (.single "string") })]
  allOf := [.inline { properties := [("name", .inline { type := some (.single "string") })] }]

/-- The property is in no object that the type offers. -/
theorem properties_lost_extended :
    ∃ t, schema? [] (some (.inline extendedSchema)) "Note" "Note" { registry := .empty } =
        (.ok t, { registry := .empty }) ∧
      extendedSchema.enum = none ∧ extendedSchema.type = none ∧ extendedSchema.properties ≠ [] ∧
      ∀ fs, t.Offers (.object fs) →
        fs.map (·.1) ≠ extendedSchema.properties.map fun e =>
          FieldKey.ofRequired e.1 (extendedSchema.required.contains e.1) := by
  have hrun : schema? [] (some (.inline extendedSchema)) "Note" "Note" { registry := .empty } =
      (.ok (.object [(⟨"name", true⟩, .primitive .string)]), { registry := .empty }) := by cbv
  refine ⟨_, hrun, rfl, rfl, by simp [extendedSchema], fun fs hoffers hkeys => ?_⟩
  rcases hoffers with h | ⟨ts, h | h, -⟩
  · obtain rfl := TypeExpr.object.inj h
    exact absurd hkeys (by decide)
  · cases h
  · cases h

end Resolver

end ApiClient

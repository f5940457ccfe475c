import ApiClient.Proofs.Endpoints
import ApiClient.Proofs.Likeness

/-! A reference to a component next to the schema of the component in the same place. Both mean the
same, except that the shape of an enum forgets that the enum is nullable. -/

namespace ApiClient

mutual

/-- The registries that come about: shapes are registered, and resolvers add what they find. -/
inductive Registry.Arises : Registry → Prop
  | empty : Registry.Arises .empty
  | register {g : Registry} (name : String) (d : Definition) :
    Registry.Arises g → Registry.Arises (g.register name d).2
  | endpoints {g : Registry} (d : Document) :
    Registry.Arises g → Registry.Arises (d.endpoints g).2
  | resolver {schemas : List (String × RefOr Schema)} {p : Pass} :
    Resolver.Reached schemas p → Registry.Arises p.registry

/-- The states of a resolver of these components, between two calls; the calls before may have failed. -/
inductive Resolver.Reached : List (String × RefOr Schema) → Pass → Prop
  | fresh {schemas : List (String × RefOr Schema)} {g : Registry} :
    Registry.Arises g → Resolver.Reached schemas { registry := g }
  | reference {schemas : List (String × RefOr Schema)} {p : Pass} (r : String) :
    Resolver.Reached schemas p → Resolver.Reached schemas (Resolver.reference schemas r p).2
  | schema {schemas : List (String × RefOr Schema)} {p : Pass} (s : Option (RefOr Schema))
    (key parent : String) : Resolver.Reached schemas p →
      Resolver.Reached schemas (Resolver.schema? schemas s key parent p).2

end

open Resolver Pass

namespace Resolver

variable {schemas : List (String × RefOr Schema)} {base : Registry} {p : Pass}

/-- How a call ends: the type is what the outline of the schema means, or nothing is lost. -/
theorem schema?_outcome (hp : p.Sound schemas (fun _ => True) base) (s : Option (RefOr Schema))
    (key parent : String) :
    Outcome (fun t q => p.Completes schemas (fun _ => True) base q ∧
        (Schema.outlineOf? s).Means q.name? q.registry t)
      (fun _ q => p.Follows schemas (fun _ => True) base q) (schema? schemas s key parent p) := by
  rw [schema?_eq]
  have hruns := Outline.resolve_runs completes_enumStable (Schema.outlineOf? s) key parent
    fun r _ => reference_named schemas base p r
  exact (hruns p (.refl hp)).mono (fun _ q h => ⟨h.1, h.2.2 q (.refl q)⟩) fun _ _ h => h

theorem schema?_sound (hp : p.Sound schemas (fun _ => True) base) (s : Option (RefOr Schema))
    (key parent : String) :
    (schema? schemas s key parent p).2.Sound schemas (fun _ => True) base :=
  (schema?_outcome hp s key parent).either (fun _ _ h => h.1.sound) fun _ _ h => h.sound

/-- A reference is a schema like others. -/
theorem reference_sound (hp : p.Sound schemas (fun _ => True) base) (r : String) :
    (reference schemas r p).2.Sound schemas (fun _ => True) base :=
  schema?_sound hp (some (.ref r)) r r

theorem endpoints_outcome (d : Document) {g : Registry} (hg : g.Ordered) :
    Outcome
      (fun _ q => Completes d.components.schemas (fun _ => True) g { registry := g } q)
      (fun _ q => Follows d.components.schemas (fun _ => True) g { registry := g } q)
      (endpoints d { registry := g }) := by
  have hstart : Sound d.components.schemas (fun _ => True) g { registry := g } := .start hg
  have hruns := endpoints_runs (d := d) (fun _ _ _ _ _ hp => hp.toFollows) fun _ _ a _ =>
    a.resolve_runs completes_enumStable d.components.schemas
      fun r _ => reference_named _ g { registry := g } r
  exact (hruns _ (.refl hstart)).mono (fun _ _ h => h.1) fun _ _ h => h

end Resolver

theorem Document.endpoints_ordered (d : Document) {g : Registry} (hg : g.Ordered) :
    (d.endpoints g).2.Ordered := by
  rw [endpoints_apply]
  exact (endpoints_outcome d hg).either (fun _ _ h => h.sound.ordered) fun _ _ h => h.sound.ordered

mutual

theorem Registry.Arises.ordered {g : Registry} : g.Arises → g.Ordered
  | .empty => .empty
  | .register name d h => h.ordered.register name d
  | .endpoints d h => d.endpoints_ordered h.ordered
  | .resolver h => let ⟨_, hp⟩ := h.sound; hp.ordered

theorem Resolver.Reached.sound {schemas : List (String × RefOr Schema)} {p : Pass} :
    Reached schemas p → ∃ base, p.Sound schemas (fun _ => True) base
  | .fresh h => ⟨_, .start h.ordered⟩
  | .reference r h => let ⟨base, hp⟩ := h.sound; ⟨base, reference_sound hp r⟩
  | .schema s key parent h => let ⟨base, hp⟩ := h.sound; ⟨base, schema?_sound hp s key parent⟩

end

/-! ### The two ways of reading a schema -/

namespace Schema

/-- An enum that null is added to. -/
def NullableEnum (s : Schema) : Prop := s.nullable = true ∧ ∃ vs, enumValues? s.enum = some vs

theorem outline_of_enum {s : Schema} {vs : List Json} (h : enumValues? s.enum = some vs) :
    s.outline = if s.nullable then .orNull (.enum vs) else .enum vs := by
  obtain ⟨type, format, enum, properties, required, items, additional, allOf, oneOf, anyOf,
    nullable⟩ := s
  simp only at h
  simp only [outline, h]

theorem outline_of_plain {s : Schema} (h : enumValues? s.enum = none)
    (hplain : s.isPlainObject = true) :
    s.outline = .object (outlineOfFields s.properties s.required) := by
  obtain ⟨type, format, enum, properties, required, items, additional, allOf, oneOf, anyOf,
    nullable⟩ := s
  simp only at h
  simp only [isPlainObject, Bool.and_eq_true, Bool.not_eq_true'] at hplain
  obtain ⟨⟨⟨⟨⟨htype, hproperties⟩, hnullable⟩, hall⟩, hone⟩, hany⟩ := hplain
  rcases type with _ | name | names
  · simp [outline, h, hproperties, hnullable, hall, hone, hany]
  · obtain rfl : name = "object" := beq_iff_eq.mp htype
    simp [outline, Outline.ofTypeName, h, hproperties, hnullable, hall, hone, hany]
  · simp at htype

/-- A component is stored as what it means in place, but for the null of an enum. -/
theorem shape_cases (s : Schema) :
    (∃ vs, enumValues? s.enum = some vs ∧ s.shape = .enum vs) ∨
      (enumValues? s.enum = none ∧ ∃ fs, s.shape = .object fs ∧ s.outline = .object fs) ∨
      (enumValues? s.enum = none ∧ s.shape = .type s.outline) := by
  rw [shape]
  cases henum : enumValues? s.enum with
  | some vs => exact .inl ⟨vs, rfl, rfl⟩
  | none =>
    by_cases hplain : s.isPlainObject = true
    · exact .inr (.inl ⟨rfl, _, if_pos hplain, outline_of_plain henum hplain⟩)
    · exact .inr (.inr ⟨rfl, if_neg hplain⟩)

theorem refs_shape (s : Schema) : s.shape.refs = s.outline.refs := by
  rcases s.shape_cases with ⟨vs, henum, hshape⟩ | ⟨-, fs, hshape, houtline⟩ | ⟨-, hshape⟩
  · rw [hshape, outline_of_enum henum]
    split_ifs <;> rfl
  · rw [hshape, houtline]
    rfl
  · rw [hshape]
    rfl

end Schema

/-- The type says in place what the definition says under its name. -/
inductive Definition.Denotes (g : Registry) : Definition → TypeExpr → Prop
  | object {fs : Fields} {t : TypeExpr} : t.Alike g (.object fs) → Denotes g (.object fs) t
  | enum {vs : List Json} {m : String} : g.HoldsEnum m vs → Denotes g (.enum vs) (.named m)
  | alias {t u : TypeExpr} : t.Alike g u → Denotes g (.alias u) t

open TypeExpr (AdmitsNull)

theorem Definition.Denotes.admitsNull_iff {g : Registry} {n : String} {d : Definition} {t : TypeExpr}
    (hn : g.get? n = some d) (h : d.Denotes g t) : AdmitsNull g (.named n) ↔ AdmitsNull g t := by
  rcases h with @⟨fs, t, h⟩ | ⟨hm⟩ | ⟨h⟩
  · have hobject : ¬ AdmitsNull g (.object fs) := by rintro ⟨⟩
    exact iff_of_false (TypeExpr.not_admitsNull_object hn) (fun ht => hobject (h.admitsNull_iff.mp ht))
  · exact (TypeExpr.admitsNull_enum_iff ⟨_, hn, .inl rfl⟩).trans (TypeExpr.admitsNull_enum_iff hm).symm
  · exact (TypeExpr.admitsNull_alias_iff hn).trans h.admitsNull_iff.symm

namespace Schema

variable {s : Schema} {ρ : String → Option String} {g : Registry} {d : Definition} {t : TypeExpr}

theorem denotes_of_means (hd : s.shape.Means ρ g d) (ht : s.outline.Means ρ g t)
    (h : ¬ s.NullableEnum) : d.Denotes g t := by
  rcases s.shape_cases with ⟨vs, henum, hshape⟩ | ⟨-, fs, hshape, houtline⟩ | ⟨-, hshape⟩
  · have hnullable : ¬ s.nullable = true := fun hn => h ⟨hn, vs, henum⟩
    rw [hshape] at hd
    rw [outline_of_enum henum, if_neg hnullable] at ht
    cases hd
    cases ht with
    | enum hm => exact .enum hm
  · rw [hshape] at hd
    rw [houtline] at ht
    cases hd with
    | object hfields => exact .object (ht.alike (.object hfields))
  · rw [hshape] at hd
    cases hd with
    | type ho => exact .alias (ht.alike ho)

/-- In place a nullable enum is the union of the enum and null. -/
theorem nullableEnum_of_means (hd : s.shape.Means ρ g d) (ht : s.outline.Means ρ g t)
    (h : s.NullableEnum) :
    ∃ vs m, enumValues? s.enum = some vs ∧ d = .enum vs ∧ g.HoldsEnum m vs ∧
      t = .union [.named m, .null] := by
  obtain ⟨hnullable, vs, henum⟩ := h
  have hshape : s.shape = .enum vs := by rw [shape, henum]
  rw [hshape] at hd
  rw [outline_of_enum henum, if_pos hnullable] at ht
  cases hd
  cases ht with
  | orNull ht =>
    cases ht with
    | enum hm => exact ⟨vs, _, henum, rfl, hm, rfl⟩

theorem denotes_iff (hd : s.shape.Means ρ g d) (ht : s.outline.Means ρ g t) :
    d.Denotes g t ↔ ¬ s.NullableEnum := by
  constructor
  · intro h henum
    obtain ⟨vs, m, -, rfl, -, rfl⟩ := nullableEnum_of_means hd ht henum
    cases h
  · exact denotes_of_means hd ht

theorem admitsNull_iff {n : String} (hn : g.get? n = some d) (hd : s.shape.Means ρ g d)
    (ht : s.outline.Means ρ g t) :
    (AdmitsNull g (.named n) ↔ AdmitsNull g t) ↔
      ¬ (s.nullable = true ∧ ∃ vs, enumValues? s.enum = some vs ∧ .null ∉ vs) := by
  by_cases h : s.NullableEnum
  · obtain ⟨vs, m, henum, rfl, -, rfl⟩ := nullableEnum_of_means hd ht h
    have hplace : AdmitsNull g (.union [.named m, .null]) :=
      .union (List.mem_cons_of_mem _ (List.mem_singleton_self _)) .null
    have hname : AdmitsNull g (.named n) ↔ .null ∈ vs :=
      TypeExpr.admitsNull_enum_iff ⟨vs, hn, .inl rfl⟩
    simp only [hname, hplace, iff_true, h.1, henum, true_and, Option.some.injEq,
      exists_eq_left', not_not]
  · refine iff_of_true ((denotes_of_means hd ht h).admitsNull_iff hn) ?_
    rintro ⟨hnullable, vs, henum, -⟩
    exact h ⟨hnullable, vs, henum⟩

end Schema

namespace Resolver

variable {schemas : List (String × RefOr Schema)} {p q : Pass} {r c n : String} {s : Schema}
  {d : Definition}

/-- A schema whose references all have names can be resolved in place. -/
theorem schema?_of_named {base : Registry} (hq : q.Sound schemas (fun _ => True) base)
    {s : Option (RefOr Schema)} (h : ∀ r ∈ (Schema.outlineOf? s).refs, ∃ n, q.name? r = some n)
    (key parent : String) :
    ∃ t z, schema? schemas s key parent q = (.ok t, z) ∧ q.Grows z ∧
      (Schema.outlineOf? s).Means z.name? z.registry t := by
  have hnamed (r : String) (hr : r ∈ (Schema.outlineOf? s).refs) :
      Outline.Named (q.Completes schemas (fun _ => True) base)
        (Fails schemas (fun _ => True) base q (Schema.outlineOf? s).refs) (reference schemas) r :=
    Expands.named (reference_expands closedUnder_all trivial) hr q
  have hruns := Outline.resolve_runs completes_enumStable (Schema.outlineOf? s) key parent hnamed
  rw [schema?_eq]
  rcases hrun : (Schema.outlineOf? s).resolve (reference schemas) key parent q with ⟨e | t, z⟩
  · obtain ⟨-, r, hr, hnone⟩ := hruns.error (.refl hq) hrun
    obtain ⟨n, hn⟩ := h r hr
    simp [hn] at hnone
  · obtain ⟨-, hgrows, hmeans⟩ := hruns.ok (.refl hq) hrun
    exact ⟨t, z, rfl, hgrows, hmeans z (.refl z)⟩

/-- The schema of a component that a reference has been resolved to can be put in the place of the
reference. It means the same, unless it is a nullable enum; and it admits null if the reference does,
unless null is not one of the values of such an enum. -/
theorem reference_in_place (hp : Reached schemas p)
    (hr : reference schemas r p = (.ok (.named n), q))
    (hs : Reference.Points schemas r c (.inline s)) (hd : q.registry.get? n = some d) :
    ∃ t z, schema? schemas (some (.inline s)) n n q = (.ok t, z) ∧
      z.registry.get? n = some d ∧
      (d.Denotes z.registry t ↔ ¬ s.NullableEnum) ∧
      ((AdmitsNull z.registry (.named n) ↔ AdmitsNull z.registry t) ↔
        ¬ (s.nullable = true ∧ ∃ vs, Schema.enumValues? s.enum = some vs ∧ .null ∉ vs)) ∧
      (s.NullableEnum → ∃ vs m, d = .enum vs ∧ z.registry.HoldsEnum m vs ∧
        t = .union [.named m, .null]) := by
  obtain ⟨base, hsound⟩ := (Reached.reference r hp).sound
  rw [hr] at hsound
  have hname : q.name? r = some n := by
    obtain ⟨base', hp'⟩ := hp.sound
    have hexpands : Expands schemas (fun _ => True) base' (reference schemas) r :=
      reference_expands closedUnder_all trivial
    obtain ⟨-, m, hm, heq⟩ := hexpands.ok hp' hr
    rwa [← TypeExpr.named.inj heq] at hm
  obtain ⟨-, c', target, hs', -, hmeans⟩ := hsound.faithful r n hname
  obtain ⟨-, rfl⟩ := hs.unique hs'
  have hshape := hmeans d hd
  obtain ⟨t, z, hrun, hgrows, ht⟩ := schema?_of_named hsound (s := some (.inline s))
    (fun r hr => hshape.named (s.refs_shape ▸ hr)) n n
  have hdz : z.registry.get? n = some d := hgrows.registry n d hd
  have hshapez : s.shape.Means z.name? z.registry d := hshape.mono hgrows.names hgrows.registry
  refine ⟨t, z, hrun, hdz, Schema.denotes_iff hshapez ht, Schema.admitsNull_iff hdz hshapez ht,
    fun h => ?_⟩
  obtain ⟨vs, m, -, h⟩ := Schema.nullableEnum_of_means hshapez ht h
  exact ⟨vs, m, h⟩

/-- A text that may be null. -/
def noteSchema : Schema := { type := some (.single "string"), nullable := true }

theorem reference_in_place_note :
    let d : Definition := .alias (.union [.primitive .string, .null])
    let q : Pass := { registry := ⟨[("Note", d)], []⟩, names := [("#/components/schemas/note", "Note")] }
    ∃ t z, schema? [("note", .inline noteSchema)] (some (.inline noteSchema)) "Note" "Note" q =
      (.ok t, z) ∧ d.Denotes z.registry t := by
  intro d q
  have hr : reference [("note", .inline noteSchema)] "#/components/schemas/note"
      { registry := .empty } = (.ok (.named "Note"), q) := by cbv
  have hs : Reference.Points [("note", .inline noteSchema)] "#/components/schemas/note" "note"
      (.inline noteSchema) := ⟨by decide, rfl⟩
  obtain ⟨t, z, hrun, -, hdenotes, -⟩ := reference_in_place (.fresh .empty) hr hs (d := d) (by cbv)
  refine ⟨t, z, hrun, hdenotes.mpr ?_⟩
  rintro ⟨-, vs, hvs⟩
  cases hvs

/-- Two texts and null. -/
def switchSchema : Schema := { enum := some [.str "on", .str "off"], nullable := true }

/-- The shape of a nullable enum is not what the enum is in place, and null is lost in it. -/
theorem nullable_enum_loses_null :
    let d : Definition := .enum [.str "on", .str "off"]
    let q : Pass :=
      { registry := ⟨[("Switch", d)], []⟩, names := [("#/components/schemas/switch", "Switch")] }
    ∃ t z, reference [("switch", .inline switchSchema)] "#/components/schemas/switch"
        { registry := .empty } = (.ok (.named "Switch"), q) ∧
      schema? [("switch", .inline switchSchema)] (some (.inline switchSchema)) "Switch" "Switch" q =
        (.ok t, z) ∧
      ¬ d.Denotes z.registry t ∧ ¬ AdmitsNull z.registry (.named "Switch") ∧
      AdmitsNull z.registry t := by
  intro d q
  refine ⟨.union [.named "Switch", .null], q, by cbv, by cbv, fun h => ?_, ?_, ?_⟩
  · change Definition.Denotes _ (.enum _) _ at h
    cases h
  · rw [TypeExpr.admitsNull_enum_iff ⟨[.str "on", .str "off"], by cbv, .inl rfl⟩]
    simp
  · exact .union (List.mem_cons_of_mem _ (List.mem_singleton_self _)) .null

end Resolver

end ApiClient

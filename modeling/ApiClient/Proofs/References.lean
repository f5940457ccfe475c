import ApiClient.Proofs.AliasChains

/-! References: how one is written and which component it names, the loops of components that are nothing
but references, and where the references stand that a component leads to. -/

namespace ApiClient

/-! ### What a reference says -/

theorem Text.cut?_singleton_eq_some_iff {a : Char} {cs before after : List Char} :
    cut? [a] cs = some (before, after) ↔ cs = before ++ a :: after ∧ a ∉ before := by
  induction cs generalizing before with
  | nil => simp [cut?]
  | cons b cs ih =>
    by_cases hb : a = b
    · subst hb
      have hcut : cut? [a] (a :: cs) = some ([], cs) := by simp [cut?]
      rw [hcut]
      cases before with
      | nil => simp [eq_comm]
      | cons x before => simp +contextual [eq_comm]
    · have hcut : cut? [a] (b :: cs) = (cut? [a] cs).map (Prod.map (b :: ·) id) := by
        simp only [cut?, List.isPrefixOf, beq_eq_false_iff_ne.mpr hb, Bool.false_and]
        rfl
      rw [hcut, Option.map_eq_some_iff]
      constructor
      · rintro ⟨⟨x, y⟩, hxy, heq⟩
        obtain ⟨rfl, rfl⟩ := Prod.mk.inj heq
        obtain ⟨rfl, hx⟩ := ih.mp hxy
        exact ⟨rfl, by simp [hb, hx]⟩
      · rintro ⟨heq, hmem⟩
        cases before with
        | nil => exact absurd (List.cons.inj heq).1.symm hb
        | cons x before =>
          obtain ⟨rfl, rfl⟩ := List.cons.inj heq
          exact ⟨(before, after), ih.mpr ⟨rfl, fun h => hmem (List.mem_cons_of_mem _ h)⟩, rfl⟩

namespace Reference

theorem splitChars_eq_some_iff {cs part name : List Char} :
    splitChars cs = some (part, name) ↔ ∃ token, cs = componentsPath ++ part ++ '/' :: token ∧
      part ≠ [] ∧ '/' ∉ part ∧ token ≠ [] ∧ '/' ∉ token ∧ name = unescape token := by
  unfold splitChars
  constructor
  · intro h
    split_ifs at h with hprefix
    obtain ⟨rest, rfl⟩ := List.isPrefixOf_iff_prefix.mp hprefix
    rw [List.drop_left] at h
    split at h
    · rename_i x y hcut
      obtain ⟨rfl, hx⟩ := Text.cut?_singleton_eq_some_iff.mp hcut
      split_ifs at h with hempty
      obtain ⟨rfl, rfl⟩ := Prod.mk.inj (Option.some.inj h)
      simp only [not_or, List.contains_iff_mem] at hempty
      exact ⟨y, by simp, hempty.1, hx, hempty.2.1, hempty.2.2, rfl⟩
    · cases h
  · rintro ⟨token, rfl, hpart, hslash, htoken, hflat, rfl⟩
    have hcut : Text.cut? ['/'] (part ++ '/' :: token) = some (part, token) :=
      Text.cut?_singleton_eq_some_iff.mpr ⟨rfl, hslash⟩
    simp [List.append_assoc, hcut, hpart, htoken, hflat]

/-- A reference names a component of a section exactly if it is the path of the section and one more
token, which names the component once it is unescaped. -/
theorem component_eq_ok_iff {part : Section} {r c : String} :
    component part r = .ok c ↔ ∃ token : List Char,
      r.toList = componentsPath ++ part.text.toList ++ '/' :: token ∧ token ≠ [] ∧ '/' ∉ token ∧
        c = String.ofList (unescape token) := by
  have hpart : part.text.toList ≠ [] ∧ '/' ∉ part.text.toList := by cases part <;> decide
  rw [component, split?]
  constructor
  · intro h
    cases hsplit : splitChars r.toList with
    | none => simp [hsplit] at h
    | some found =>
      obtain ⟨found, name⟩ := found
      simp only [hsplit, Option.map_some] at h
      split_ifs at h with hfound
      obtain ⟨token, hr, -, -, htoken, hflat, rfl⟩ := splitChars_eq_some_iff.mp hsplit
      refine ⟨token, ?_, htoken, hflat, (Except.ok.inj h).symm⟩
      rw [hr, ← hfound, String.toList_ofList]
  · rintro ⟨token, hr, htoken, hflat, rfl⟩
    rw [splitChars_eq_some_iff.mpr ⟨token, hr, hpart.1, hpart.2, htoken, hflat, rfl⟩]
    simp

/-- The whole schema of one component is a reference to the other. -/
def RefersTo (schemas : List (String × RefOr Schema)) (c c' : String) : Prop :=
  ∃ r, schemas.lookup c = some (.ref r) ∧ component .schemas r = .ok c'

/-- The component lies on a loop of components that are nothing but references. -/
def OnLoop (schemas : List (String × RefOr Schema)) (c : String) : Prop :=
  Relation.TransGen (RefersTo schemas) c c

variable {schemas : List (String × RefOr Schema)} {r s c c' : String}

theorem next?_eq_some_iff :
    next? schemas r = some s ↔ ∃ c, component .schemas r = .ok c ∧ schemas.lookup c = some (.ref s) := by
  rw [next?, target?]
  cases component .schemas r with
  | error e => simp
  | ok c =>
    simp only [Option.bind_eq_some_iff, Except.ok.injEq, exists_eq_left']
    constructor
    · rintro ⟨target, htarget, hs⟩
      cases target with
      | ref next =>
        obtain rfl := Option.some.inj hs
        exact htarget
      | inline s => cases hs
    · exact fun h => ⟨_, h, rfl⟩

/-- Where one reference leads to another, so does its component. -/
theorem refersTo_of_next? (h : Relation.TransGen (fun r s => next? schemas r = some s) r s)
    (hr : component .schemas r = .ok c) (hs : component .schemas s = .ok c') :
    Relation.TransGen (RefersTo schemas) c c' := by
  have hstep {r s c c' : String} (h : next? schemas r = some s) (hr : component .schemas r = .ok c)
      (hs : component .schemas s = .ok c') : RefersTo schemas c c' := by
    obtain ⟨d, hd, hlookup⟩ := next?_eq_some_iff.mp h
    obtain rfl := Except.ok.inj (hr.symm.trans hd)
    exact ⟨s, hlookup, hs⟩
  induction h generalizing c' with
  | single h => exact .single (hstep h hr hs)
  | tail _ h ih =>
    obtain ⟨d, hd, -⟩ := next?_eq_some_iff.mp h
    exact .tail (ih hd) (hstep h hd hs)

/-- What follows a component on a loop lies on the loop as well. -/
theorem OnLoop.next (h : OnLoop schemas c) (hr : component .schemas r = .ok c) :
    ∃ s c', next? schemas r = some s ∧ component .schemas s = .ok c' ∧ OnLoop schemas c' := by
  obtain ⟨c', ⟨s, hlookup, hs⟩, hback⟩ := Relation.TransGen.head'_iff.mp h
  exact ⟨s, c', next?_eq_some_iff.mpr ⟨c, hr, hlookup⟩, hs, .tail' hback ⟨s, hlookup, hs⟩⟩

/-- A chain of references that ends has not started on a loop. -/
theorem not_onLoop_of_ends (h : Ends (next? schemas) r) (hr : component .schemas r = .ok c) :
    ¬ OnLoop schemas c := by
  intro hloop
  obtain ⟨s, c', hnext, hs, hloop'⟩ := hloop.next hr
  induction h generalizing c c' s with
  | stop hnone => simp [hnone] at hnext
  | step hnext' _ ih =>
    obtain rfl := Option.some.inj (hnext.symm.trans hnext')
    obtain ⟨s', c'', hnext'', hs', hloop''⟩ := hloop'.next hs
    exact ih hs hloop' s' c'' hnext'' hs' hloop''

/-- The reference names a component, and that one is on no loop. -/
def Sane (schemas : List (String × RefOr Schema)) (r : String) : Prop :=
  ∃ c target, Points schemas r c target ∧ ¬ OnLoop schemas c

theorem sane_iff :
    Sane schemas r ↔ ∃ (token : List Char) (target : RefOr Schema),
      r.toList = "#/components/schemas/".toList ++ token ∧ token ≠ [] ∧ '/' ∉ token ∧
        schemas.lookup (String.ofList (unescape token)) = some target ∧
        ¬ OnLoop schemas (String.ofList (unescape token)) := by
  constructor
  · rintro ⟨c, target, ⟨hc, htarget⟩, hloop⟩
    obtain ⟨token, hr, htoken, hflat, rfl⟩ := component_eq_ok_iff.mp hc
    exact ⟨token, target, hr, htoken, hflat, htarget, hloop⟩
  · rintro ⟨token, target, hr, htoken, hflat, htarget, hloop⟩
    exact ⟨_, target, ⟨component_eq_ok_iff.mpr ⟨token, hr, htoken, hflat, rfl⟩, htarget⟩, hloop⟩

end Reference

/-! ### The references of an outline stand in the schema -/

namespace Outline

theorem mem_refs_ofTypeName {object array : Outline} {name r : String}
    (h : r ∈ (ofTypeName object array name).refs) : r ∈ object.refs ∨ r ∈ array.refs := by
  unfold ofTypeName at h
  split_ifs at h
  · exact .inl h
  · exact .inr h
  · cases hp : Primitive.ofTypeName? name <;> simp [hp, refs] at h

theorem mem_refsOfAll {os : List Outline} {r : String} :
    r ∈ refsOfAll os ↔ ∃ o ∈ os, r ∈ o.refs := by
  induction os with
  | nil => simp [refsOfAll]
  | cons o os ih => simp [refsOfAll, ih]

theorem refs_orNull (nullable : Bool) (o : Outline) :
    (if nullable then orNull o else o).refs = o.refs := by
  cases nullable <;> simp [refs]

end Outline

namespace Schema

open Outline

mutual

theorem mem_references {r : String} : (s : Schema) → r ∈ s.outline.refs → r ∈ s.references
  | ⟨type, format, enum, properties, required, items, additional, allOf, oneOf, anyOf, nullable⟩,
      h => by
    have hobject : r ∈ (if properties.isEmpty then outlineOfAdditional additional
        else .object (outlineOfFields properties required)).refs →
        r ∈ referencesOfFields properties ∨ r ∈ referencesOfAdditional additional := by
      intro h
      split_ifs at h
      · exact .inr (mem_referencesOfAdditional additional h)
      · exact .inl (mem_referencesOfFields properties required h)
    have harray : r ∈ (Outline.array (outlineOf? items)).refs → r ∈ referencesOfItems items :=
      mem_referencesOfItems items
    simp only [outline, refs_orNull] at h
    simp only [references, List.mem_append]
    generalize (if properties.isEmpty = true then outlineOfAdditional additional
      else Outline.object (outlineOfFields properties required)) = object at h hobject
    generalize Outline.array (outlineOf? items) = array at h harray
    have hnamed (name : String) (h : r ∈ (ofTypeName object array name).refs) :
        (r ∈ referencesOfFields properties ∨ r ∈ referencesOfAdditional additional) ∨
          r ∈ referencesOfItems items :=
      (mem_refs_ofTypeName h).imp hobject harray
    cases henum : enumValues? enum with
    | some values => simp [henum, refs] at h
    | none =>
      simp only [henum] at h
      by_cases hall : !allOf.isEmpty
      · rw [if_pos hall] at h
        exact .inl (.inl (.inr (mem_referencesOfAll allOf h)))
      rw [if_neg hall] at h
      by_cases hsome : !oneOf.isEmpty || !anyOf.isEmpty
      · rw [if_pos hsome] at h
        obtain ⟨o, ho, h⟩ := mem_refsOfAll.mp h
        rcases List.mem_append.mp ho with ho | ho
        · exact .inl (.inr (mem_referencesOfAll oneOf (mem_refsOfAll.mpr ⟨o, ho, h⟩)))
        · exact .inr (mem_referencesOfAll anyOf (mem_refsOfAll.mpr ⟨o, ho, h⟩))
      rw [if_neg hsome] at h
      have hdeclared : (r ∈ referencesOfFields properties ∨
          r ∈ referencesOfAdditional additional) ∨ r ∈ referencesOfItems items := by
        rcases type with _ | name | names
        · dsimp only at h
          split_ifs at h
          · exact .inl (hobject h)
          · exact .inr (harray h)
          · cases h
        · exact hnamed name h
        · obtain ⟨o, ho, h⟩ := mem_refsOfAll.mp h
          obtain ⟨name, -, rfl⟩ := List.mem_map.mp ho
          exact hnamed name h
      rcases hdeclared with (h | h) | h <;> simp [h]

theorem mem_referencesOf {r : String} : (s : RefOr Schema) → r ∈ (outlineOf s).refs →
    r ∈ referencesOf s
  | .ref _, h => by simpa only [referencesOf, outlineOf, refs] using h
  | .inline s, h => by
    rw [outlineOf] at h
    rw [referencesOf]
    exact mem_references s h

theorem mem_referencesOfItems {r : String} : (s : Option (RefOr Schema)) →
    r ∈ (outlineOf? s).refs → r ∈ referencesOfItems s
  | none, h => by simp [outlineOf?, refs] at h
  | some s, h => by
    rw [outlineOf?] at h
    rw [referencesOfItems]
    exact mem_referencesOf s h

theorem mem_referencesOfAll {r : String} : (ss : List (RefOr Schema)) →
    r ∈ refsOfAll (outlinesOf ss) → r ∈ referencesOfAll ss
  | [], h => by simp [outlinesOf, refsOfAll] at h
  | s :: ss, h => by
    rw [outlinesOf, refsOfAll] at h
    rw [referencesOfAll]
    exact List.mem_append.mpr ((List.mem_append.mp h).imp (mem_referencesOf s) (mem_referencesOfAll ss))

theorem mem_referencesOfFields {r : String} : (fs : List (String × RefOr Schema)) →
    (required : List String) → r ∈ refsOfFields (outlineOfFields fs required) →
    r ∈ referencesOfFields fs
  | [], _, h => by simp [outlineOfFields, refsOfFields] at h
  | (_, s) :: fs, required, h => by
    rw [outlineOfFields, refsOfFields] at h
    rw [referencesOfFields]
    exact List.mem_append.mpr
      ((List.mem_append.mp h).imp (mem_referencesOf s) (mem_referencesOfFields fs required))

theorem mem_referencesOfAdditional {r : String} : (a : Option (Additional (RefOr Schema))) →
    r ∈ (outlineOfAdditional a).refs → r ∈ referencesOfAdditional a
  | some (.values s), h => by
    rw [outlineOfAdditional, refs] at h
    rw [referencesOfAdditional]
    exact mem_referencesOf s h
  | some (.allowed true), h => by simp [outlineOfAdditional, refs] at h
  | some (.allowed false), h => by simp [outlineOfAdditional, refs, refsOfFields] at h
  | none, h => by simp [outlineOfAdditional, refs, refsOfFields] at h

end

theorem mem_referencesOfFields_of_lookup {schemas : List (String × RefOr Schema)} {c r : String}
    {target : RefOr Schema} (h : schemas.lookup c = some target) (hr : r ∈ referencesOf target) :
    r ∈ referencesOfFields schemas := by
  induction schemas with
  | nil => cases h
  | cons f fs ih =>
    obtain ⟨name, s⟩ := f
    rw [referencesOfFields, List.mem_append]
    rw [List.lookup_cons] at h
    split at h
    · obtain rfl := Option.some.inj h
      exact .inl hr
    · exact .inr (ih h)

end Schema

theorem RefOr.mem_references_of_shape {target : RefOr Schema} {r : String}
    (h : r ∈ target.shape.refs) : r ∈ Schema.referencesOf target := by
  cases target with
  | ref next => simpa [shape, Shape.refs, Outline.refs, Schema.referencesOf] using h
  | inline s =>
    rw [Schema.referencesOf]
    rw [shape, Schema.shape] at h
    split at h
    · cases h
    · split_ifs at h
      · obtain ⟨type, format, enum, properties, required, items, additional, allOf, oneOf, anyOf,
          nullable⟩ := s
        have hmem := Schema.mem_referencesOfFields properties required h
        simp [Schema.references, hmem]
      · exact Schema.mem_references s h

/-- What a component refers to stands in the schemas of the components. -/
theorem Reference.Points.mem_references {schemas : List (String × RefOr Schema)} {r c s : String}
    {target : RefOr Schema} (h : Points schemas r c target) (hs : s ∈ target.shape.refs) :
    s ∈ Schema.referencesOfFields schemas :=
  Schema.mem_referencesOfFields_of_lookup h.2 (RefOr.mem_references_of_shape hs)

end ApiClient

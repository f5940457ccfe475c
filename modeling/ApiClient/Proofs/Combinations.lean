import ApiClient.Proofs.Closure
import ApiClient.Proofs.Letters
import ApiClient.Proofs.References

/-! Unions and intersections. None of less than two types comes of a description, at any depth, and what is
nullable admits null by a member of its own. No type, and no member of one, is printed as an empty text. -/

namespace ApiClient

namespace TypeExpr

/-- The type is the other one, or stands in it at some depth. -/
inductive StandsIn (u : TypeExpr) : TypeExpr → Prop
  | self : StandsIn u u
  | array {t : TypeExpr} : u.StandsIn t → StandsIn u (.array t)
  | map {t : TypeExpr} : u.StandsIn t → StandsIn u (.map t)
  | object {fs : Fields} {k : FieldKey} {t : TypeExpr} :
    (k, t) ∈ fs → u.StandsIn t → StandsIn u (.object fs)
  | union {ts : List TypeExpr} {t : TypeExpr} : t ∈ ts → u.StandsIn t → StandsIn u (.union ts)
  | intersection {ts : List TypeExpr} {t : TypeExpr} :
    t ∈ ts → u.StandsIn t → StandsIn u (.intersection ts)

/-- What a type is combined of. -/
def members? : TypeExpr → Option (List TypeExpr)
  | .union ts => some ts
  | .intersection ts => some ts
  | _ => none

/-- The property holds of the type and of all that stands in it. -/
def Everywhere (P : TypeExpr → Prop) (t : TypeExpr) : Prop := ∀ u : TypeExpr, u.StandsIn t → P u

/-- Nothing in the type is combined of less than two types. -/
def Proper (t : TypeExpr) : Prop := t.Everywhere fun u => ∀ ts, u.members? = some ts → 2 ≤ ts.length

variable {P : TypeExpr → Prop} {t u : TypeExpr} {ts : List TypeExpr} {fs : Fields} {n : String}

theorem standsIn_of_mem (h : u.members? = some ts) (ht : t ∈ ts) : t.StandsIn u := by
  cases u with
  | union us =>
    obtain rfl := Option.some.inj h
    exact .union ht .self
  | intersection us =>
    obtain rfl := Option.some.inj h
    exact .intersection ht .self
  | _ => cases h

theorem StandsIn.trans {v : TypeExpr} (hv : v.StandsIn u) (h : u.StandsIn t) : v.StandsIn t := by
  induction h with
  | self => exact hv
  | array _ ih => exact .array ih
  | map _ ih => exact .map ih
  | object hmem _ ih => exact .object hmem ih
  | union hmem _ ih => exact .union hmem ih
  | intersection hmem _ ih => exact .intersection hmem ih

theorem everywhere_primitive {p : Primitive} (h : P (primitive p)) : (primitive p).Everywhere P := by
  rintro _ ⟨⟩
  exact h

theorem everywhere_named (h : P (named n)) : (named n).Everywhere P := by
  rintro _ ⟨⟩
  exact h

theorem everywhere_unknown (h : P unknown) : unknown.Everywhere P := by
  rintro _ ⟨⟩
  exact h

theorem everywhere_array : (array t).Everywhere P ↔ P (array t) ∧ t.Everywhere P := by
  refine ⟨fun h => ⟨h _ .self, fun u hu => h u (.array hu)⟩, fun h u hu => ?_⟩
  cases hu with
  | self => exact h.1
  | array hu => exact h.2 u hu

theorem everywhere_map : (map t).Everywhere P ↔ P (map t) ∧ t.Everywhere P := by
  refine ⟨fun h => ⟨h _ .self, fun u hu => h u (.map hu)⟩, fun h u hu => ?_⟩
  cases hu with
  | self => exact h.1
  | map hu => exact h.2 u hu

theorem everywhere_object :
    (object fs).Everywhere P ↔ P (object fs) ∧ ∀ f ∈ fs, f.2.Everywhere P := by
  refine ⟨fun h => ⟨h _ .self, fun f hf u hu => h u (.object hf hu)⟩, fun h u hu => ?_⟩
  cases hu with
  | self => exact h.1
  | object hf hu => exact h.2 _ hf u hu

theorem everywhere_union : (union ts).Everywhere P ↔ P (union ts) ∧ ∀ t ∈ ts, t.Everywhere P := by
  refine ⟨fun h => ⟨h _ .self, fun t ht u hu => h u (.union ht hu)⟩, fun h u hu => ?_⟩
  cases hu with
  | self => exact h.1
  | union ht hu => exact h.2 _ ht u hu

theorem everywhere_intersection :
    (intersection ts).Everywhere P ↔ P (intersection ts) ∧ ∀ t ∈ ts, t.Everywhere P := by
  refine ⟨fun h => ⟨h _ .self, fun t ht u hu => h u (.intersection ht hu)⟩, fun h u hu => ?_⟩
  cases hu with
  | self => exact h.1
  | intersection ht hu => exact h.2 _ ht u hu

theorem mentions_of_standsIn (h : (named n).StandsIn t) : t.Mentions n := by
  induction h with
  | self => exact .named
  | array _ ih => exact .array ih
  | map _ ih => exact .map ih
  | object hmem _ ih => exact .object hmem ih
  | union hmem _ ih => exact .union hmem ih
  | intersection hmem _ ih => exact .intersection hmem ih

end TypeExpr

open TypeExpr

namespace Schema

variable {P : TypeExpr → Prop}

theorem everywhere_collapse {combine : List TypeExpr → TypeExpr} {ts : List TypeExpr}
    (hunknown : P unknown) (hcombine : 2 ≤ ts.length → (combine ts).Everywhere P)
    (h : ∀ t ∈ ts, t.Everywhere P) : (collapse combine ts).Everywhere P := by
  rcases ts with _ | ⟨t, _ | ⟨u, ts⟩⟩
  · exact everywhere_unknown hunknown
  · exact h t List.mem_cons_self
  · exact hcombine (by simp)

/-- What admits null already stays, a union gets null as its last member, and anything else becomes a
union of two. -/
theorem orNull_cases (t : TypeExpr) :
    orNull t = t ∧ (t = null ∨ ∃ ts, t = .union ts ∧ null ∈ ts) ∨
      (∃ ts, t = .union ts ∧ orNull t = .union (ts ++ [null])) ∨ orNull t = .union [t, null] := by
  have hother (u : TypeExpr) (hu : orNull u = if u.isNull then u else .union [u, null]) :
      orNull u = u ∧ u = null ∨ orNull u = .union [u, null] := by
    split_ifs at hu with hnull
    · exact .inl ⟨hu, isNull_iff.mp hnull⟩
    · exact .inr hu
  cases t with
  | union ts =>
    by_cases hany : ts.any isNull
    · obtain ⟨u, hmem, hu⟩ := List.any_eq_true.mp hany
      rw [isNull_iff.mp hu] at hmem
      exact .inl ⟨by rw [orNull, if_pos hany], .inr ⟨ts, rfl, hmem⟩⟩
    · exact .inr (.inl ⟨ts, rfl, by rw [orNull, if_neg hany]⟩)
  | _ => exact (hother _ rfl).imp (And.imp_right .inl) .inr

/-- What is nullable is null, or a union with null among its members. -/
theorem orNull_admits (t : TypeExpr) : orNull t = null ∨ ∃ ts, orNull t = .union ts ∧ null ∈ ts := by
  obtain ⟨ht, hnull⟩ | ⟨ts, -, ht⟩ | ht := orNull_cases t
  · rwa [ht]
  · exact .inr ⟨_, ht, by simp⟩
  · exact .inr ⟨_, ht, by simp⟩

theorem everywhere_orNull {t : TypeExpr} (hnull : P null) (hpair : P (.union [t, null]))
    (hlonger : ∀ ts, P (.union ts) → P (.union (ts ++ [null]))) (h : t.Everywhere P) :
    (orNull t).Everywhere P := by
  have hnulls : ∀ u ∈ [null], u.Everywhere P :=
    List.forall_mem_singleton.mpr (everywhere_primitive hnull)
  obtain ⟨ht, -⟩ | ⟨ts, rfl, ht⟩ | ht := orNull_cases t
  · rwa [ht]
  · obtain ⟨hunion, hmembers⟩ := everywhere_union.mp h
    rw [ht, everywhere_union, List.forall_mem_append]
    exact ⟨hlonger ts hunion, hmembers, hnulls⟩
  · rw [ht, everywhere_union, List.forall_mem_cons]
    exact ⟨hpair, h, hnulls⟩

end Schema

/-! ### What comes of a description -/

namespace Outline

variable {ρ : String → Option String} {g : Registry}

mutual

theorem Means.proper {o : Outline} {t : TypeExpr} : o.Means ρ g t → t.Proper
  | .ref _ => everywhere_named nofun
  | .enum _ => everywhere_named nofun
  | .primitive => everywhere_primitive nofun
  | .unknown => everywhere_unknown nofun
  | .array hm => everywhere_array.mpr ⟨nofun, hm.proper⟩
  | .map hm => everywhere_map.mpr ⟨nofun, hm.proper⟩
  | .object hm => everywhere_object.mpr ⟨nofun, hm.proper⟩
  | .all hm => Schema.everywhere_collapse nofun
      (fun h => everywhere_intersection.mpr ⟨fun _ hts => Option.some.inj hts ▸ h, hm.proper⟩) hm.proper
  | .any hm => Schema.everywhere_collapse nofun
      (fun h => everywhere_union.mpr ⟨fun _ hts => Option.some.inj hts ▸ h, hm.proper⟩) hm.proper
  | .orNull hm => by
    refine Schema.everywhere_orNull nofun ?_ (fun ts h us hus => ?_) hm.proper
    · rintro us ⟨⟩
      exact Nat.le_refl 2
    · obtain rfl := Option.some.inj hus
      exact (h ts rfl).trans (by simp)

theorem AllMean.proper {os : List Outline} {ts : List TypeExpr} :
    AllMean ρ g os ts → ∀ t ∈ ts, t.Proper
  | .nil, _, h => nomatch h
  | .cons hm hms, t, h => by
    rcases List.mem_cons.mp h with rfl | h
    · exact hm.proper
    · exact hms.proper t h

theorem FieldsMean.proper {fs : List (FieldKey × Outline)} {gs : Fields} :
    FieldsMean ρ g fs gs → ∀ f ∈ gs, f.2.Proper
  | .nil, _, h => nomatch h
  | .cons hm hms, f, h => by
    rcases List.mem_cons.mp h with rfl | h
    · exact hm.proper
    · exact hms.proper f h

end

end Outline

/-- The types in a shape. -/
def Definition.types : Definition → List TypeExpr
  | .object fs => fs.map (·.2)
  | .enum _ => []
  | .alias t => [t]

/-- The type stands in the arguments or the answer of an operation, or in a shape, at any depth. -/
inductive Resolution.Uses (R : Resolution) (u : TypeExpr) : Prop
  | operation {op : Endpoint} {t : TypeExpr} :
    op ∈ R.operations → t ∈ op.types → u.StandsIn t → Uses R u
  | definition {m : String} {d : Definition} {t : TypeExpr} :
    (m, d) ∈ R.definitions.entries → t ∈ d.types → u.StandsIn t → Uses R u

theorem Resolution.Uses.inside {R : Resolution} {t u : TypeExpr} (h : R.Uses u) (ht : t.StandsIn u) :
    R.Uses t := by
  rcases h with ⟨hop, hmem, hu⟩ | ⟨hd, hmem, hu⟩
  · exact .operation hop hmem (ht.trans hu)
  · exact .definition hd hmem (ht.trans hu)

theorem Shape.Means.proper {ρ : String → Option String} {g : Registry} {s : Shape} {d : Definition}
    (h : s.Means ρ g d) : ∀ t ∈ d.types, t.Proper := by
  intro t ht
  cases h with
  | object hfields =>
    obtain ⟨f, hf, rfl⟩ := List.mem_map.mp ht
    exact hfields.proper f hf
  | enum => cases ht
  | type ho =>
    rw [List.mem_singleton.mp ht]
    exact ho.proper

theorem Schema.outline_of_nullable {s : Schema} (hs : s.nullable = true) :
    ∃ o, s.outline = .orNull o := by
  obtain ⟨type, format, enum, properties, required, items, additional, allOf, oneOf, anyOf, nullable⟩ :=
    s
  obtain rfl : nullable = true := hs
  simp only [outline, if_pos]
  exact ⟨_, rfl⟩

/-- A schema that is nullable comes to a type that admits null, whatever its references come to. -/
theorem Schema.admits_of_nullable {onRef : String → Resolver TypeExpr} {s : Schema}
    {key parent : String} {p q : Pass} {t : TypeExpr} (hs : s.nullable = true)
    (h : s.typeOf onRef key parent p = (.ok t, q)) :
    t = null ∨ ∃ ts, t = .union ts ∧ null ∈ ts := by
  obtain ⟨o, ho⟩ := outline_of_nullable hs
  rw [typeOf_eq, ho, Outline.resolve] at h
  rcases hrun : o.resolve onRef key parent p with ⟨e | u, z⟩
  · rw [Resolver.bind_error hrun] at h
    cases h
  · rw [Resolver.bind_ok hrun] at h
    obtain rfl : orNull u = t := Except.ok.inj (Prod.mk.inj h).1
    exact orNull_admits u

/-! ### Texts -/

namespace Text

theorem replacePair_ne_nil {a b c : Char} {cs : List Char} (h : cs ≠ []) :
    replacePair a b c cs ≠ [] := by
  rcases cs with _ | ⟨x, _ | ⟨y, cs⟩⟩
  · exact absurd rfl h
  · exact List.cons_ne_nil _ _
  · rw [replacePair]
    split_ifs <;> exact List.cons_ne_nil _ _

theorem append_ne_empty_left {s : String} (h : s ≠ "") (t : String) : s ++ t ≠ "" := by
  simp [h]

theorem append_ne_empty_right (s : String) {t : String} (h : t ≠ "") : s ++ t ≠ "" := by
  simp [h]

/-- Between two texts or more stands the mark. -/
theorem intercalate_ne_empty {mark : String} (hmark : mark ≠ "") {ts : List String}
    (h : 2 ≤ ts.length) : mark.intercalate ts ≠ "" := by
  rcases ts with _ | ⟨t, _ | ⟨u, ts⟩⟩
  · simp at h
  · simp at h
  · rw [String.intercalate_cons_of_ne_nil (List.cons_ne_nil u ts)]
    exact append_ne_empty_left (append_ne_empty_right t hmark) _

end Text

open Text

theorem capitalCase_ne_empty {word : String} (h : word ≠ "") : capitalCase word ≠ "" := by
  have hcs : word.toList ≠ [] := by simpa using h
  rw [capitalCase]
  split
  · contradiction
  · simp [upper_ne_nil]

theorem IsNameOf.ne_empty {c n : String} (h : IsNameOf c n) (hc : c ≠ "") : n ≠ "" := by
  obtain ⟨k, -, rfl⟩ := h
  rw [Registry.numbered]
  split_ifs
  · exact capitalCase_ne_empty hc
  · exact append_ne_empty_left (capitalCase_ne_empty hc) _

theorem Reference.component_ne_empty {part : Section} {r c : String}
    (h : component part r = .ok c) : c ≠ "" := by
  obtain ⟨token, -, htoken, -, rfl⟩ := component_eq_ok_iff.mp h
  simpa [unescape] using replacePair_ne_nil (replacePair_ne_nil htoken)

namespace TypeScript

variable {g : Registry} {t : TypeExpr} {ts : List TypeExpr}

theorem length_memberTexts (ts : List TypeExpr) : (memberTexts g ts).length = ts.length := by
  induction ts with
  | nil => rfl
  | cons t ts ih => rw [memberTexts, List.length_cons, ih, List.length_cons]

theorem mem_memberTexts {m : String} (h : m ∈ memberTexts g ts) :
    ∃ t ∈ ts, m = parenthesised (needsParens g t) (typeText g t) := by
  induction ts with
  | nil => cases h
  | cons t ts ih =>
    rcases List.mem_cons.mp h with rfl | h
    · exact ⟨t, List.mem_cons_self, rfl⟩
    · obtain ⟨u, hu, rfl⟩ := ih h
      exact ⟨u, List.mem_cons_of_mem _ hu, rfl⟩

theorem parenthesised_ne_empty {text : String} (h : text ≠ "") (parens : Bool) :
    parenthesised parens text ≠ "" := by
  cases parens with
  | true => exact append_ne_empty_right _ (by decide)
  | false => exact h

/-- A name that holds an enum is not written alone. -/
theorem namedText_ne_empty {n : String} (h : (∃ vs, g.get? n = some (.enum vs)) ∨ n ≠ "") :
    namedText g n ≠ "" := by
  rw [namedText]
  split
  · split_ifs
    · exact append_ne_empty_left (by decide) _
    · exact append_ne_empty_right _ (by decide)
  · rename_i hnone
    rcases h with ⟨vs, hvs⟩ | hn
    · simp [enumValues?, hvs] at hnone
    · exact hn

/-- A type is written as something unless it is a name that is not, or is combined of too little. -/
theorem typeText_ne_empty (hname : ∀ n, t = .named n → namedText g n ≠ "")
    (hmembers : ∀ ts, t.members? = some ts → 2 ≤ ts.length) : typeText g t ≠ "" := by
  cases t with
  | primitive p =>
    show primitiveText p ≠ ""
    cases p <;> decide
  | object fs =>
    show inlineObject (fieldTexts g fs) ≠ ""
    rw [inlineObject]
    split_ifs
    · decide
    · exact append_ne_empty_right _ (by decide)
  | named n => exact hname n rfl
  | array t =>
    show _ ++ "[]" ≠ ""
    exact append_ne_empty_right _ (by decide)
  | map t =>
    show _ ++ " \x7d" ≠ ""
    exact append_ne_empty_right _ (by decide)
  | union ts =>
    show " | ".intercalate (memberTexts g ts) ≠ ""
    exact intercalate_ne_empty (by decide) ((length_memberTexts ts).symm ▸ hmembers ts rfl)
  | intersection ts =>
    show " & ".intercalate (memberTexts g ts) ≠ ""
    exact intercalate_ne_empty (by decide) ((length_memberTexts ts).symm ▸ hmembers ts rfl)
  | unknown =>
    show "any" ≠ ""
    decide

end TypeScript

open TypeScript

/-- Every union and every intersection, at any depth of an operation or a shape, is of two types or more,
and neither a type nor a member of one is printed as nothing. -/
structure Resolution.Combined (R : Resolution) : Prop where
  several : ∀ u, R.Uses u → ∀ ts, u.members? = some ts → 2 ≤ ts.length
  printed : ∀ u, R.Uses u → typeText R.definitions u ≠ ""
  members : ∀ u, R.Uses u → ∀ ts, u.members? = some ts →
    ∀ m ∈ memberTexts R.definitions ts, m ≠ ""

namespace Document

variable {d : Document} {R : Resolution}

theorem length_of_uses (h : d.resolve = .ok R) {u : TypeExpr} (hu : R.Uses u) {ts : List TypeExpr}
    (hts : u.members? = some ts) : 2 ≤ ts.length := by
  obtain ⟨q, hq, hsound, hdone, htyped⟩ := d.resolve_sound h
  rcases hu with ⟨hop, ht, hu⟩ | ⟨hmem, ht, hu⟩
  · obtain ⟨o, ho⟩ := htyped _ hop _ ht
    exact ho.proper u hu ts hts
  · rw [← hq] at hdone hmem
    have hget := hsound.ordered.get?_of_mem hmem
    rcases (hsound.naming hdone).entries _ _ hget with ⟨vs, rfl⟩ | ⟨r, hr⟩
    · cases ht
    · obtain ⟨c, target, d', -, -, hd', hshape⟩ := (hsound.naming hdone).component r _ hr
      obtain rfl := Option.some.inj (hget.symm.trans hd')
      exact hshape.proper _ ht u hu ts hts

theorem mentions_of_uses {n : String} (hn : R.Uses (.named n)) : R.Mentions n := by
  rcases hn with ⟨hop, ht, hn⟩ | @⟨m, D, t, hmem, ht, hn⟩
  · exact .operation hop ht (mentions_of_standsIn hn)
  · refine .definition hmem ?_
    cases D with
    | object fs =>
      obtain ⟨f, hf, rfl⟩ := List.mem_map.mp ht
      exact .object hf (mentions_of_standsIn hn)
    | enum vs => cases ht
    | «alias» u =>
      rw [List.mem_singleton.mp ht] at hn
      exact .alias (mentions_of_standsIn hn)

theorem namedText_of_uses (h : d.resolve = .ok R) {n : String} (hn : R.Uses (.named n)) :
    namedText R.definitions n ≠ "" := by
  obtain ⟨D, hD⟩ := resolve_holds h (mentions_of_uses hn)
  obtain ⟨q, hq, hsound, hdone, -⟩ := d.resolve_sound h
  rw [← hq] at hdone hD ⊢
  refine namedText_ne_empty ?_
  rcases (hsound.naming hdone).entries n D hD with ⟨vs, rfl⟩ | ⟨r, hr⟩
  · exact .inl ⟨vs, hD⟩
  · obtain ⟨c, target, -, hpoints, hname, -⟩ := (hsound.naming hdone).component r n hr
    exact .inr (hname.ne_empty (Reference.component_ne_empty hpoints.1))

theorem typeText_of_uses (h : d.resolve = .ok R) {u : TypeExpr} (hu : R.Uses u) :
    typeText R.definitions u ≠ "" :=
  typeText_ne_empty (fun _ hn => namedText_of_uses h (hn ▸ hu)) fun _ hts => length_of_uses h hu hts

/-- A description that is resolved combines types properly, and a schema in it that is nullable comes to
null or to a union that has null as a member. -/
theorem resolve_combined (h : d.resolve = .ok R) : R.Combined ∧
    ∀ (onRef : String → Resolver TypeExpr) (s : Schema) (key parent : String) (p q : Pass)
      (t : TypeExpr), s.nullable = true → s.typeOf onRef key parent p = (.ok t, q) →
        t = null ∨ ∃ ts, t = .union ts ∧ null ∈ ts := by
  refine ⟨⟨fun u hu ts hts => length_of_uses h hu hts, fun u hu => typeText_of_uses h hu,
    fun u hu ts hts m hm => ?_⟩, fun onRef s key parent p q t hs hrun => s.admits_of_nullable hs hrun⟩
  obtain ⟨t, ht, rfl⟩ := mem_memberTexts hm
  exact parenthesised_ne_empty (typeText_of_uses h (hu.inside (standsIn_of_mem hts ht))) _

/-- A note or a list of notes, or null, where a note has a part and may have another one. -/
def combinedDocument : Document where
  paths := [("/notes", {
    operation? := fun m => if m = .get then some {
      operationId := some "notes"
      responses := [("200", .inline ⟨[("application/json", some (.inline {
        oneOf := [.ref "#/components/schemas/note"]
        anyOf := [.inline { items := some (.ref "#/components/schemas/note") }]
        nullable := true }))]⟩)] }
      else none })]
  components.schemas := [("note", .inline {
    allOf := [
      .inline { properties := [("id", .inline { type := some (.several ["string", "null"]) })] },
      .inline { properties := [("kind", .inline { enum := some [.str "a"], nullable := true })] }] })]

theorem resolve_combined_notes :
    (∃ R, combinedDocument.resolve = .ok R ∧
      R.operations.map (fun op => typeText R.definitions op.responseType) =
        ["Note | Note[] | null"] ∧ R.Combined) ∧
    ∃ t q, Schema.typeOf (fun _ => pure .unknown) { type := some (.several []), nullable := true }
        "note" "notes" ⟨.empty, [], []⟩ = (.ok t, q) ∧
      (t = null ∨ ∃ ts, t = .union ts ∧ null ∈ ts) := by
  have htexts : combinedDocument.resolve.toOption.map (fun R =>
      R.operations.map fun op => typeText R.definitions op.responseType) =
        some ["Note | Note[] | null"] := by decide +kernel
  obtain ⟨R, h, htexts⟩ := resolve_of_map htexts
  have hrun : Schema.typeOf (fun _ => pure .unknown) { type := some (.several []), nullable := true }
      "note" "notes" ⟨.empty, [], []⟩ = (.ok (.union [.unknown, null]), ⟨.empty, [], []⟩) := rfl
  exact ⟨⟨R, h, htexts, (resolve_combined h).1⟩, _, _, hrun,
    (resolve_combined h).2 _ _ _ _ _ _ _ rfl hrun⟩

end Document

end ApiClient

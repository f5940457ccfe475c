import ApiClient.Proofs.Meaning

/-! Types that differ in their names only. Whatever names an outline gets, the types that come out differ
in nothing else. -/

namespace ApiClient

namespace TypeExpr

mutual

/-- The second type is the first one with names put in the place of its names, as `N` allows it. -/
inductive Renamed (N : String → String → Prop) : TypeExpr → TypeExpr → Prop
  | primitive {p : Primitive} : Renamed N (.primitive p) (.primitive p)
  | unknown : Renamed N .unknown .unknown
  | named {m n : String} : N m n → Renamed N (.named m) (.named n)
  | array {t u : TypeExpr} : Renamed N t u → Renamed N (.array t) (.array u)
  | map {t u : TypeExpr} : Renamed N t u → Renamed N (.map t) (.map u)
  | object {fs gs : Fields} : FieldsRenamed N fs gs → Renamed N (.object fs) (.object gs)
  | union {ts us : List TypeExpr} : AllRenamed N ts us → Renamed N (.union ts) (.union us)
  | intersection {ts us : List TypeExpr} :
    AllRenamed N ts us → Renamed N (.intersection ts) (.intersection us)

inductive AllRenamed (N : String → String → Prop) : List TypeExpr → List TypeExpr → Prop
  | nil : AllRenamed N [] []
  | cons {t u : TypeExpr} {ts us : List TypeExpr} :
    Renamed N t u → AllRenamed N ts us → AllRenamed N (t :: ts) (u :: us)

inductive FieldsRenamed (N : String → String → Prop) : Fields → Fields → Prop
  | nil : FieldsRenamed N [] []
  | cons {k : FieldKey} {t u : TypeExpr} {fs gs : Fields} :
    Renamed N t u → FieldsRenamed N fs gs → FieldsRenamed N ((k, t) :: fs) ((k, u) :: gs)

end

variable {N : String → String → Prop} {t u : TypeExpr} {ts us : List TypeExpr}

theorem Renamed.isNull_eq (h : Renamed N t u) : t.isNull = u.isNull := by
  cases h <;> rfl

theorem AllRenamed.any_isNull_eq (h : AllRenamed N ts us) : ts.any isNull = us.any isNull := by
  induction ts generalizing us with
  | nil =>
    cases h
    rfl
  | cons t ts ih =>
    cases h with
    | cons ht hts => rw [List.any_cons, List.any_cons, ht.isNull_eq, ih hts]

theorem AllRenamed.append {ts' us' : List TypeExpr} (h : AllRenamed N ts us)
    (h' : AllRenamed N ts' us') : AllRenamed N (ts ++ ts') (us ++ us') := by
  induction ts generalizing us with
  | nil =>
    cases h
    exact h'
  | cons t ts ih =>
    cases h with
    | cons ht hts => exact .cons ht (ih hts)

theorem AllRenamed.collapse {combine : List TypeExpr → TypeExpr}
    (hcombine : ∀ ts us, AllRenamed N ts us → Renamed N (combine ts) (combine us))
    (h : AllRenamed N ts us) :
    Renamed N (Schema.collapse combine ts) (Schema.collapse combine us) := by
  obtain _ | ⟨ht, _ | ⟨hu, hts⟩⟩ := h
  · exact .unknown
  · exact ht
  · exact hcombine _ _ (.cons ht (.cons hu hts))

theorem Renamed.orNull (h : Renamed N t u) : Renamed N (Schema.orNull t) (Schema.orNull u) := by
  have hnull : AllRenamed N [null] [null] := .cons .primitive .nil
  have hother : Renamed N (if t.isNull then t else .union [t, null])
      (if u.isNull then u else .union [u, null]) := by
    rw [h.isNull_eq]
    split_ifs
    · exact h
    · exact .union (.cons h hnull)
  cases h with
  | union hts =>
    rw [Schema.orNull, Schema.orNull, hts.any_isNull_eq]
    split_ifs
    · exact .union hts
    · exact .union (hts.append hnull)
  | _ => exact hother

end TypeExpr

namespace Outline

open TypeExpr (Renamed AllRenamed FieldsRenamed)

variable {ρ σ : String → Option String} {g h : Registry} {N : String → String → Prop}

mutual

/-- Two types that one outline means differ in the names that it has got. -/
theorem Means.renamed (href : ∀ r m n, ρ r = some m → σ r = some n → N m n)
    (henum : ∀ vs m n, g.HoldsEnum m vs → h.HoldsEnum n vs → N m n) {o : Outline} {t u : TypeExpr} :
    o.Means ρ g t → o.Means σ h u → Renamed N t u
  | .ref hm, .ref hn => .named (href _ _ _ hm hn)
  | .enum hm, .enum hn => .named (henum _ _ _ hm hn)
  | .primitive, .primitive => .primitive
  | .unknown, .unknown => .unknown
  | .array ht, .array hu => .array (ht.renamed href henum hu)
  | .map ht, .map hu => .map (ht.renamed href henum hu)
  | .object hts, .object hus => .object (hts.renamed href henum hus)
  | .all hts, .all hus => (hts.renamed href henum hus).collapse fun _ _ => .intersection
  | .any hts, .any hus => (hts.renamed href henum hus).collapse fun _ _ => .union
  | .orNull ht, .orNull hu => (ht.renamed href henum hu).orNull

theorem AllMean.renamed (href : ∀ r m n, ρ r = some m → σ r = some n → N m n)
    (henum : ∀ vs m n, g.HoldsEnum m vs → h.HoldsEnum n vs → N m n) {os : List Outline}
    {ts us : List TypeExpr} : AllMean ρ g os ts → AllMean σ h os us → AllRenamed N ts us
  | .nil, .nil => .nil
  | .cons ht hts, .cons hu hus => .cons (ht.renamed href henum hu) (hts.renamed href henum hus)

theorem FieldsMean.renamed (href : ∀ r m n, ρ r = some m → σ r = some n → N m n)
    (henum : ∀ vs m n, g.HoldsEnum m vs → h.HoldsEnum n vs → N m n)
    {fs : List (FieldKey × Outline)} {gs gs' : Fields} :
    FieldsMean ρ g fs gs → FieldsMean σ h fs gs' → FieldsRenamed N gs gs'
  | .nil, .nil => .nil
  | .cons ht hts, .cons hu hus => .cons (ht.renamed href henum hu) (hts.renamed href henum hus)

end

end Outline

end ApiClient

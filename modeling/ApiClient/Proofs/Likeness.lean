import ApiClient.Proofs.Renaming

/-! Types that differ in the names of equal enums only, and the types that admit null. An outline means
one type up to such names, and types that are alike admit null together. -/

namespace ApiClient

namespace TypeExpr

mutual

/-- Two names may stand in the same place if they hold the same enum. -/
inductive Alike (g : Registry) : TypeExpr → TypeExpr → Prop
  | primitive {p : Primitive} : Alike g (.primitive p) (.primitive p)
  | unknown : Alike g .unknown .unknown
  | named {n : String} : Alike g (.named n) (.named n)
  | enum {m n : String} {vs : List Json} :
    g.HoldsEnum m vs → g.HoldsEnum n vs → Alike g (.named m) (.named n)
  | array {t u : TypeExpr} : Alike g t u → Alike g (.array t) (.array u)
  | map {t u : TypeExpr} : Alike g t u → Alike g (.map t) (.map u)
  | object {fs gs : Fields} : FieldsAlike g fs gs → Alike g (.object fs) (.object gs)
  | union {ts us : List TypeExpr} : AllAlike g ts us → Alike g (.union ts) (.union us)
  | intersection {ts us : List TypeExpr} :
    AllAlike g ts us → Alike g (.intersection ts) (.intersection us)

inductive AllAlike (g : Registry) : List TypeExpr → List TypeExpr → Prop
  | nil : AllAlike g [] []
  | cons {t u : TypeExpr} {ts us : List TypeExpr} :
    Alike g t u → AllAlike g ts us → AllAlike g (t :: ts) (u :: us)

inductive FieldsAlike (g : Registry) : Fields → Fields → Prop
  | nil : FieldsAlike g [] []
  | cons {k : FieldKey} {t u : TypeExpr} {fs gs : Fields} :
    Alike g t u → FieldsAlike g fs gs → FieldsAlike g ((k, t) :: fs) ((k, u) :: gs)

end

variable {g : Registry}

mutual

/-- Types that differ in the names of equal enums are alike. -/
theorem Renamed.alike {N : String → String → Prop}
    (hN : ∀ m n, N m n → m = n ∨ ∃ vs, g.HoldsEnum m vs ∧ g.HoldsEnum n vs) {t u : TypeExpr} :
    Renamed N t u → Alike g t u
  | .primitive => .primitive
  | .unknown => .unknown
  | .named hmn => match hN _ _ hmn with
    | .inl heq => heq ▸ .named
    | .inr ⟨_, hm, hn⟩ => .enum hm hn
  | .array h => .array (h.alike hN)
  | .map h => .map (h.alike hN)
  | .object h => .object (h.alike hN)
  | .union h => .union (h.alike hN)
  | .intersection h => .intersection (h.alike hN)

theorem AllRenamed.alike {N : String → String → Prop}
    (hN : ∀ m n, N m n → m = n ∨ ∃ vs, g.HoldsEnum m vs ∧ g.HoldsEnum n vs)
    {ts us : List TypeExpr} : AllRenamed N ts us → AllAlike g ts us
  | .nil => .nil
  | .cons h hs => .cons (h.alike hN) (hs.alike hN)

theorem FieldsRenamed.alike {N : String → String → Prop}
    (hN : ∀ m n, N m n → m = n ∨ ∃ vs, g.HoldsEnum m vs ∧ g.HoldsEnum n vs) {fs gs : Fields} :
    FieldsRenamed N fs gs → FieldsAlike g fs gs
  | .nil => .nil
  | .cons h hs => .cons (h.alike hN) (hs.alike hN)

end

end TypeExpr

/-- Once the references have their names, an outline leaves open how its enums are called and nothing
else. -/
theorem Outline.Means.alike {ρ : String → Option String} {g : Registry} {o : Outline} {t u : TypeExpr}
    (ht : o.Means ρ g t) (hu : o.Means ρ g u) : t.Alike g u := by
  refine (ht.renamed (N := fun m n => m = n ∨ ∃ vs, g.HoldsEnum m vs ∧ g.HoldsEnum n vs)
    (fun r m n hm hn => .inl (Option.some.inj (hm.symm.trans hn)))
    (fun vs m n hm hn => .inr ⟨vs, hm, hn⟩) hu).alike fun _ _ h => h

namespace TypeExpr

/-- Null is a value of the type, where names stand for their shapes. -/
inductive AdmitsNull (g : Registry) : TypeExpr → Prop
  | null : AdmitsNull g null
  | unknown : AdmitsNull g .unknown
  | enum {n : String} {vs : List Json} :
    g.get? n = some (.enum vs) → Json.null ∈ vs → AdmitsNull g (.named n)
  | alias {n : String} {t : TypeExpr} :
    g.get? n = some (.alias t) → AdmitsNull g t → AdmitsNull g (.named n)
  | union {t : TypeExpr} {ts : List TypeExpr} :
    t ∈ ts → AdmitsNull g t → AdmitsNull g (.union ts)
  | intersection {ts : List TypeExpr} :
    (∀ t ∈ ts, AdmitsNull g t) → AdmitsNull g (.intersection ts)

variable {g : Registry}

theorem admitsNull_union_iff {ts : List TypeExpr} :
    AdmitsNull g (.union ts) ↔ ∃ t ∈ ts, AdmitsNull g t := by
  constructor
  · intro h
    cases h with
    | union hmem ht => exact ⟨_, hmem, ht⟩
  · rintro ⟨t, hmem, ht⟩
    exact .union hmem ht

theorem admitsNull_intersection_iff {ts : List TypeExpr} :
    AdmitsNull g (.intersection ts) ↔ ∀ t ∈ ts, AdmitsNull g t := by
  constructor
  · intro h
    cases h with
    | intersection hts => exact hts
  · exact .intersection

theorem admitsNull_alias_iff {n : String} {t : TypeExpr} (hn : g.get? n = some (.alias t)) :
    AdmitsNull g (.named n) ↔ AdmitsNull g t := by
  constructor
  · rintro (_ | _ | ⟨h, -⟩ | ⟨h, ht⟩)
    · simp [hn] at h
    · obtain rfl := Definition.alias.inj (Option.some.inj (hn.symm.trans h))
      exact ht
  · exact .alias hn

theorem not_admitsNull_object {n : String} {fs : Fields} (hn : g.get? n = some (.object fs)) :
    ¬ AdmitsNull g (.named n) := by
  rintro (_ | _ | ⟨h, -⟩ | ⟨h, -⟩)
  · simp [hn] at h
  · simp [hn] at h

theorem null_mem_of_sameItems {vs ws : List Json} (h : Json.sameItems ws vs = true) :
    Json.null ∈ ws ↔ Json.null ∈ vs := by
  induction ws generalizing vs with
  | nil =>
    cases vs with
    | nil => rfl
    | cons v vs => simp [Json.sameItems] at h
  | cons w ws ih =>
    cases vs with
    | nil => simp [Json.sameItems] at h
    | cons v vs =>
      simp only [Json.sameItems, Bool.and_eq_true] at h
      have hhead : Json.null = w ↔ Json.null = v := by
        obtain ⟨h, -⟩ := h
        cases w <;> cases v <;> simp [Json.same] at h ⊢
      rw [List.mem_cons, List.mem_cons, hhead, ih h.2]

theorem admitsNull_enum_iff {n : String} {vs : List Json} (hn : g.HoldsEnum n vs) :
    AdmitsNull g (.named n) ↔ Json.null ∈ vs := by
  obtain ⟨ws, hws, heq⟩ := hn
  have hmem : Json.null ∈ ws ↔ Json.null ∈ vs := by
    rcases heq with rfl | hsame
    · rfl
    · exact null_mem_of_sameItems hsame
  rw [← hmem]
  constructor
  · rintro (_ | _ | ⟨h, hnull⟩ | ⟨h, -⟩)
    · obtain rfl := Definition.enum.inj (Option.some.inj (hws.symm.trans h))
      exact hnull
    · simp [hws] at h
  · exact .enum hws

mutual

theorem Alike.admitsNull_iff {t u : TypeExpr} : Alike g t u → (AdmitsNull g t ↔ AdmitsNull g u)
  | .primitive => .rfl
  | .unknown => .rfl
  | .named => .rfl
  | .enum hm hn => (admitsNull_enum_iff hm).trans (admitsNull_enum_iff hn).symm
  | .array _ => iff_of_false (by rintro ⟨⟩) (by rintro ⟨⟩)
  | .map _ => iff_of_false (by rintro ⟨⟩) (by rintro ⟨⟩)
  | .object _ => iff_of_false (by rintro ⟨⟩) (by rintro ⟨⟩)
  | .union h => by rw [admitsNull_union_iff, admitsNull_union_iff, h.admitsNull_iff.1]
  | .intersection h => by
    rw [admitsNull_intersection_iff, admitsNull_intersection_iff, h.admitsNull_iff.2]

theorem AllAlike.admitsNull_iff {ts us : List TypeExpr} : AllAlike g ts us →
    ((∃ t ∈ ts, AdmitsNull g t) ↔ ∃ u ∈ us, AdmitsNull g u) ∧
      ((∀ t ∈ ts, AdmitsNull g t) ↔ ∀ u ∈ us, AdmitsNull g u)
  | .nil => ⟨.rfl, .rfl⟩
  | .cons h hs => by
    rw [List.exists_mem_cons_iff, List.exists_mem_cons_iff, List.forall_mem_cons,
      List.forall_mem_cons, h.admitsNull_iff, hs.admitsNull_iff.1, hs.admitsNull_iff.2]
    exact ⟨.rfl, .rfl⟩

end

end TypeExpr

end ApiClient

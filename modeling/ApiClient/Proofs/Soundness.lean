import ApiClient.Proofs.Runs

/-! What is true of every state of a pass: each reference that has been met has a name of its own, and
a shape that is stored under that name is the shape of the reference's component. -/

namespace ApiClient

/-- The component that a reference names. -/
def Reference.Points (schemas : List (String × RefOr Schema)) (r component : String)
    (target : RefOr Schema) : Prop :=
  Reference.component .schemas r = .ok component ∧ schemas.lookup component = some target

theorem Reference.Points.unique {schemas : List (String × RefOr Schema)} {r c₁ c₂ : String}
    {t₁ t₂ : RefOr Schema} (h₁ : Points schemas r c₁ t₁) (h₂ : Points schemas r c₂ t₂) :
    c₁ = c₂ ∧ t₁ = t₂ := by
  obtain rfl : c₁ = c₂ := Except.ok.inj (h₁.1.symm.trans h₂.1)
  exact ⟨rfl, Option.some.inj (h₁.2.symm.trans h₂.2)⟩

/-- The error says that a reference names no component. -/
inductive Reference.Missing (schemas : List (String × RefOr Schema)) (r : String) :
    ReferenceError → Prop
  | unsupported : (∀ c, component .schemas r ≠ .ok c) → Missing schemas r (.unsupported r .schemas)
  | dangling {c : String} : component .schemas r = .ok c → schemas.lookup c = none →
    Missing schemas r (.dangling r)

theorem Reference.Missing.not_points {schemas : List (String × RefOr Schema)} {r c : String}
    {e : ReferenceError} {target : RefOr Schema} (h : Missing schemas r e) :
    ¬ Points schemas r c target := by
  rintro ⟨hc, htarget⟩
  cases h with
  | unsupported hnone => exact hnone c hc
  | dangling hc' hnone =>
    obtain rfl := Except.ok.inj (hc'.symm.trans hc)
    simp [hnone] at htarget

theorem Reference.component_eq_error {part : Section} {r : String} {e : ReferenceError}
    (h : component part r = .error e) : e = .unsupported r part := by
  rw [component] at h
  split at h
  · split_ifs at h
    exact (Except.error.inj h).symm
  · exact (Except.error.inj h).symm

/-- The name is the one of a component, or a numbered variant of it. -/
def IsNameOf (component name : String) : Prop :=
  ∃ k, 1 ≤ k ∧ name = Registry.numbered (capitalCase component) k

namespace Pass

/-- `Met` tells which references the pass can meet at all, and `base` is what was registered before
it. -/
structure Sound (schemas : List (String × RefOr Schema)) (Met : String → Prop) (base : Registry)
    (p : Pass) : Prop where
  ordered : p.registry.Ordered
  injective : ∀ r s n, p.name? r = some n → p.name? s = some n → r = s
  known : ∀ r n, p.name? r = some n →
    n ∈ p.registry.reserved ∨ ∃ d, p.registry.get? n = some d
  faithful : ∀ r n, p.name? r = some n → Met r ∧ ∃ c target,
    Reference.Points schemas r c target ∧ IsNameOf c n ∧
      ∀ d, p.registry.get? n = some d → target.shape.Means p.name? p.registry d
  entries : ∀ n d, p.registry.get? n = some d →
    base.get? n = some d ∨ (∃ vs, d = .enum vs) ∨ ∃ r, p.name? r = some n

variable {schemas : List (String × RefOr Schema)} {Met : String → Prop} {base : Registry}
  {p q : Pass}

theorem Sound.start (hb : base.Ordered) : Sound schemas Met base { registry := base } where
  ordered := hb
  injective := by simp [name?]
  known := by simp [name?]
  faithful := by simp [name?]
  entries _ _ h := .inl h

/-- The chain of aliases is of no concern here. -/
theorem Sound.congr (h : p.Sound schemas Met base) (hr : q.registry = p.registry)
    (hn : q.names = p.names) : q.Sound schemas Met base := by
  obtain ⟨registry, names, aliasing⟩ := q
  subst hr hn
  exact ⟨h.ordered, h.injective, h.known, h.faithful, h.entries⟩

theorem Sound.register (h : p.Sound schemas Met base) (name : String) (vs : List Json) :
    Sound schemas Met base { p with registry := (p.registry.register name (.enum vs)).2 } := by
  have hkept := Registry.kept_register p.registry name (.enum vs)
  have hordered := h.ordered.register name (.enum vs)
  refine ⟨hordered, h.injective, fun r n hr => ?_, fun r n hr => ?_, fun n d hd => ?_⟩
  · rw [Registry.reserved_register]
    exact (h.known r n hr).imp_right fun ⟨d, hd⟩ => ⟨d, hkept n d hd⟩
  · obtain ⟨hmet, c, target, hp, hname, hmeans⟩ := h.faithful r n hr
    refine ⟨hmet, c, target, hp, hname, fun d hd => ?_⟩
    rcases h.known r n hr with hres | ⟨e, he⟩
    · have hnone := hordered.unfilled n (by rwa [Registry.reserved_register])
      exact absurd (hd.symm.trans hnone) (by simp)
    · obtain rfl : e = d := Option.some.inj ((hkept n e he).symm.trans hd)
      exact (hmeans e he).mono (fun _ _ hn => hn) hkept
  · rcases Registry.get?_register name (.enum vs) hd with hd | rfl
    · exact h.entries n d hd
    · exact .inr (.inl ⟨vs, rfl⟩)

/-- The state in which a reference has just been given its name. -/
def promised (p : Pass) (r name : String) : Pass :=
  let (used, registry) := p.registry.reserve name
  { p with registry, names := (r, used) :: p.names }

theorem name?_promised (p : Pass) (r name s : String) :
    (p.promised r name).name? s =
      if s = r then some (p.registry.reserve name).1 else p.name? s := by
  by_cases hs : s = r
  · simp [promised, name?, hs]
  · have hb : (s == r) = false := beq_eq_false_iff_ne.mpr hs
    simp [promised, name?, List.lookup_cons, hs, hb]

theorem grows_promised {r name : String} (hr : p.name? r = none) :
    p.Grows (p.promised r name) := by
  refine ⟨fun s n hs => ?_, ?_⟩
  · rw [name?_promised, if_neg, hs]
    rintro rfl
    simp [hr] at hs
  · obtain ⟨k, -, -, hk⟩ := Registry.reserve_cases p.registry name
    simp only [promised, hk]
    exact .refl p.registry

theorem Sound.promised (h : p.Sound schemas Met base) {r c : String} {target : RefOr Schema}
    (hr : p.name? r = none) (hmet : Met r) (hp : Reference.Points schemas r c target) :
    (p.promised r (capitalCase c)).Sound schemas Met base := by
  have hgrows : p.Grows (p.promised r (capitalCase c)) := grows_promised hr
  have hname := name?_promised p r (capitalCase c)
  obtain ⟨k, hk, hv, hres⟩ := Registry.reserve_cases p.registry (capitalCase c)
  obtain ⟨hnone, hfree⟩ := Registry.vacant_iff.mp hv
  rw [hres] at hname
  have hget : ∀ n, (p.promised r (capitalCase c)).registry.get? n = p.registry.get? n := by
    intro n
    simp only [Pass.promised, hres]
    rfl
  -- no reference that has a name yet has the new one
  have hfresh : ∀ s, p.name? s ≠ some (Registry.numbered (capitalCase c) k) := by
    intro s hs
    rcases h.known s _ hs with hm | ⟨d, hd⟩
    · exact hfree hm
    · exact absurd (hd.symm.trans hnone) (by simp)
  refine ⟨?_, fun s t n hs ht => ?_, fun s n hs => ?_, fun s n hs => ?_, fun n d hd => ?_⟩
  · exact h.ordered.reserve (capitalCase c)
  · rw [hname] at hs ht
    split_ifs at hs ht with h₁ h₂ h₂
    · exact h₁.trans h₂.symm
    · exact absurd (ht.trans hs.symm) (hfresh t)
    · exact absurd (hs.trans ht.symm) (hfresh s)
    · exact h.injective s t n hs ht
  · simp only [Pass.promised, hres]
    rw [hname] at hs
    split_ifs at hs with h₁
    · exact .inl (Option.some.inj hs ▸ List.mem_cons_self)
    · exact (h.known s n hs).imp (List.mem_cons_of_mem _) id
  · rw [hname] at hs
    split_ifs at hs with h₁
    · subst h₁
      obtain rfl := Option.some.inj hs
      refine ⟨hmet, c, target, hp, ⟨k, hk, rfl⟩, fun d hd => ?_⟩
      exact absurd ((hget _).symm.trans hd) (by simp [hnone])
    · obtain ⟨hmet, c', target', hp', hn', hmeans⟩ := h.faithful s n hs
      refine ⟨hmet, c', target', hp', hn', fun d hd => ?_⟩
      exact (hmeans d ((hget n).symm.trans hd)).mono hgrows.names hgrows.registry
  · exact (h.entries n d ((hget n).symm.trans hd)).imp_right
      fun he => he.imp_right fun ⟨s, hs⟩ => ⟨s, hgrows.names s n hs⟩

theorem grows_fill {name : String} {d : Definition} (h : p.registry.get? name = none) :
    p.Grows { p with registry := p.registry.fill name d } :=
  ⟨fun _ _ hn => hn, Registry.kept_fill h d⟩

theorem Sound.fill (h : p.Sound schemas Met base) {r c n : String} {target : RefOr Schema}
    {d : Definition} (hr : p.name? r = some n) (hn : n ∈ p.registry.reserved)
    (hp : Reference.Points schemas r c target) (hd : target.shape.Means p.name? p.registry d) :
    Sound schemas Met base { p with registry := p.registry.fill n d } := by
  have hgrows : p.Grows { p with registry := p.registry.fill n d } :=
    grows_fill (h.ordered.unfilled n hn)
  have hself := Registry.get?_fill_self p.registry n d
  have hother : ∀ m, m ≠ n → (p.registry.fill n d).get? m = p.registry.get? m :=
    fun m hm => Registry.get?_insert_of_ne hm d _
  refine ⟨h.ordered.fill n d, h.injective, fun s m hs => ?_, fun s m hs => ?_, fun m e he => ?_⟩
  · by_cases hm : m = n
    · exact .inr ⟨d, hm ▸ hself⟩
    · rcases h.known s m hs with hres | ⟨e, he⟩
      · exact .inl ((h.ordered.nodup.mem_erase_iff).mpr ⟨hm, hres⟩)
      · exact .inr ⟨e, (hother m hm).trans he⟩
  · obtain ⟨hmet, c', target', hp', hname, hmeans⟩ := h.faithful s m hs
    refine ⟨hmet, c', target', hp', hname, fun e he => ?_⟩
    refine Shape.Means.mono hgrows.names hgrows.registry ?_
    by_cases hm : m = n
    · subst hm
      obtain rfl := h.injective s r m hs hr
      obtain ⟨rfl, rfl⟩ := hp.unique hp'
      obtain rfl : d = e := Option.some.inj (hself.symm.trans he)
      exact hd
    · exact hmeans e ((hother m hm).symm.trans he)
  · by_cases hm : m = n
    · exact .inr (.inr ⟨r, hm ▸ hr⟩)
    · exact h.entries m e ((hother m hm).symm.trans he)

end Pass

/-- The names that `ρ` gives to references, once all of them hold their shapes. -/
structure Naming (schemas : List (String × RefOr Schema)) (ρ : String → Option String)
    (g : Registry) : Prop where
  injective : ∀ r s n, ρ r = some n → ρ s = some n → r = s
  component : ∀ r n, ρ r = some n → ∃ c target d,
    Reference.Points schemas r c target ∧ IsNameOf c n ∧ g.get? n = some d ∧
      target.shape.Means ρ g d
  entries : ∀ n d, g.get? n = some d → (∃ vs, d = .enum vs) ∨ ∃ r, ρ r = some n

/-- A pass over an empty registry that has kept its promises has named its references. -/
theorem Pass.Sound.naming {schemas : List (String × RefOr Schema)} {Met : String → Prop} {p : Pass}
    (h : p.Sound schemas Met .empty) (hdone : p.registry.reserved = []) :
    Naming schemas p.name? p.registry where
  injective := h.injective
  component r n hr := by
    obtain ⟨-, c, target, hp, hname, hmeans⟩ := h.faithful r n hr
    rcases h.known r n hr with hres | ⟨d, hd⟩
    · simp [hdone] at hres
    · exact ⟨c, target, d, hp, hname, hd, hmeans d hd⟩
  entries n d hd := by
    rcases h.entries n d hd with hbase | henum
    · cases hbase
    · exact henum

end ApiClient

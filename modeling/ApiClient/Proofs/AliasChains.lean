import ApiClient.Proofs.Endpoints

/-! Chains of aliases. The names of a resolved description lead from alias to alias just as its
components do, where a composition with one member counts as that member. Components that are nothing
but references never lead in a circle. -/

namespace ApiClient

/-- The chain of steps from `a` ends. -/
inductive Ends {α : Type} (next : α → Option α) : α → Prop
  | stop {a : α} : next a = none → Ends next a
  | step {a b : α} : next a = some b → Ends next b → Ends next a

theorem Ends.not_loop {α : Type} {next : α → Option α} {a : α} (h : Ends next a) :
    next a ≠ some a := by
  induction h with
  | stop hnone => simp [hnone]
  | step hb _ ih =>
    intro ha
    obtain rfl := Option.some.inj (hb.symm.trans ha)
    exact ih ha

/-- The name that a name is another one for. -/
def Registry.aliased? (g : Registry) (n : String) : Option String :=
  match g.get? n with
  | some (.alias (.named m)) => some m
  | _ => none

theorem Registry.aliased?_eq_some_iff {g : Registry} {n m : String} :
    g.aliased? n = some m ↔ g.get? n = some (.alias (.named m)) := by
  unfold aliased?
  split
  · rename_i h
    simp [h]
  · rename_i h
    simp only [reduceCtorEq, false_iff]
    exact h m

/-- The reference that an outline comes down to: a composition of one part is that part. -/
def Outline.bare? : Outline → Option String
  | .ref r => some r
  | .all [o] => o.bare?
  | .any [o] => o.bare?
  | _ => none

def Shape.bare? : Shape → Option String
  | .type o => o.bare?
  | _ => none

namespace Reference

/-- The component that a reference names, if there is one. -/
def target? (schemas : List (String × RefOr Schema)) (r : String) : Option (RefOr Schema) :=
  match component .schemas r with
  | .ok c => schemas.lookup c
  | .error _ => none

/-- The reference that a component comes down to. -/
def bareNext? (schemas : List (String × RefOr Schema)) (r : String) : Option String :=
  (target? schemas r).bind fun target => target.shape.bare?

/-- The reference that a component is. -/
def next? (schemas : List (String × RefOr Schema)) (r : String) : Option String :=
  (target? schemas r).bind RefOr.reference?

theorem Points.target?_eq {schemas : List (String × RefOr Schema)} {r c : String}
    {target : RefOr Schema} (h : Points schemas r c target) : target? schemas r = some target := by
  rw [target?, h.1]
  exact h.2

end Reference

/-! ### Names follow references -/

namespace Outline

variable {ρ : String → Option String} {g : Registry} {n s : String}

theorem orNull_ne_named (t : TypeExpr) : Schema.orNull t ≠ .named n := by
  intro h
  cases t with
  | primitive p => cases p <;> cases h
  | _ => cases h

theorem Means.of_bare {o : Outline} {t : TypeExpr} :
    o.Means ρ g t → o.bare? = some s → ∃ m, ρ s = some m ∧ t = .named m
  | .ref hn, h => ⟨_, Option.some.inj h ▸ hn, rfl⟩
  | .all .nil, h => by cases h
  | .all (.cons hm .nil), h => hm.of_bare h
  | .all (.cons _ (.cons _ _)), h => by cases h
  | .any .nil, h => by cases h
  | .any (.cons hm .nil), h => hm.of_bare h
  | .any (.cons _ (.cons _ _)), h => by cases h

theorem Means.named_cases {o : Outline} {t : TypeExpr} :
    o.Means ρ g t → t = .named n → (∃ s, o.bare? = some s ∧ ρ s = some n) ∨ ∃ vs, g.HoldsEnum n vs
  | .ref hn, h => .inl ⟨_, rfl, TypeExpr.named.inj h ▸ hn⟩
  | .enum hn, h => .inr ⟨_, TypeExpr.named.inj h ▸ hn⟩
  | .all .nil, h => by cases h
  | .all (.cons hm .nil), h => hm.named_cases h
  | .all (.cons _ (.cons _ _)), h => by cases h
  | .any .nil, h => by cases h
  | .any (.cons hm .nil), h => hm.named_cases h
  | .any (.cons _ (.cons _ _)), h => by cases h
  | .orNull _, h => absurd h (orNull_ne_named _)

end Outline

theorem Shape.Means.of_bare {ρ : String → Option String} {g : Registry} {sh : Shape} {d : Definition}
    {s : String} (hm : sh.Means ρ g d) (h : sh.bare? = some s) :
    ∃ m, ρ s = some m ∧ d = .alias (.named m) := by
  cases hm with
  | type ho =>
    obtain ⟨m, hm, rfl⟩ := ho.of_bare h
    exact ⟨m, hm, rfl⟩
  | _ => cases h

theorem Shape.Means.alias_cases {ρ : String → Option String} {g : Registry} {sh : Shape} {m : String}
    (h : sh.Means ρ g (.alias (.named m))) :
    (∃ s, sh.bare? = some s ∧ ρ s = some m) ∨ ∃ vs, g.HoldsEnum m vs := by
  cases h with
  | type ho => exact ho.named_cases rfl

namespace Naming

open Reference Registry

variable {schemas : List (String × RefOr Schema)} {ρ : String → Option String} {g : Registry}
  {r s n m : String}

/-- Where a component comes down to a reference, its name is an alias of the reference's name. -/
theorem aliased?_of_bareNext? (h : Naming schemas ρ g) (hr : ρ r = some n)
    (hs : bareNext? schemas r = some s) : ∃ m, ρ s = some m ∧ g.aliased? n = some m := by
  obtain ⟨c, target, d, hp, -, hd, hmeans⟩ := h.component r n hr
  rw [bareNext?, hp.target?_eq] at hs
  obtain ⟨m, hm, rfl⟩ := hmeans.of_bare hs
  exact ⟨m, hm, aliased?_eq_some_iff.mpr hd⟩

/-- An alias of a name comes from a reference, or it is one of an enum. -/
theorem aliased?_cases (h : Naming schemas ρ g) (hn : g.aliased? n = some m) :
    (∃ r s, ρ r = some n ∧ bareNext? schemas r = some s ∧ ρ s = some m) ∨ g.aliased? m = none := by
  have hd := aliased?_eq_some_iff.mp hn
  rcases h.entries n _ hd with ⟨vs, heq⟩ | ⟨r, hr⟩
  · cases heq
  · obtain ⟨c, target, d, hp, -, hd', hmeans⟩ := h.component r n hr
    obtain rfl := Option.some.inj (hd'.symm.trans hd)
    rcases hmeans.alias_cases with ⟨s, hbare, hs⟩ | ⟨vs, ws, hws, -⟩
    · refine .inl ⟨r, s, hr, ?_, hs⟩
      rw [bareNext?, hp.target?_eq]
      exact hbare
    · refine .inr ?_
      simp [aliased?, hws]

theorem ends_bareNext? (h : Naming schemas ρ g) (hn : Ends g.aliased? n) (hr : ρ r = some n) :
    Ends (bareNext? schemas) r := by
  induction hn generalizing r with
  | stop hnone =>
    refine .stop (Option.eq_none_iff_forall_ne_some.mpr fun s hs => ?_)
    obtain ⟨m, -, hm⟩ := h.aliased?_of_bareNext? hr hs
    simp [hm] at hnone
  | step hm _ ih =>
    cases hs : bareNext? schemas r with
    | none => exact .stop hs
    | some s =>
      obtain ⟨m, hsm, hm'⟩ := h.aliased?_of_bareNext? hr hs
      obtain rfl := Option.some.inj (hm.symm.trans hm')
      exact .step hs (ih hsm)

theorem ends_aliased? (h : Naming schemas ρ g) (hr : Ends (bareNext? schemas) r)
    (hn : ρ r = some n) : Ends g.aliased? n := by
  induction hr generalizing n with
  | stop hnone =>
    cases hm : g.aliased? n with
    | none => exact .stop hm
    | some m =>
      rcases h.aliased?_cases hm with ⟨r', s, hr', hs, -⟩ | hstop
      · obtain rfl := h.injective _ _ _ hr' hn
        simp [hnone] at hs
      · exact .step hm (.stop hstop)
  | step hs _ ih =>
    obtain ⟨m, hsm, hm⟩ := h.aliased?_of_bareNext? hn hs
    exact .step hm (ih hsm)

/-- The chain from a name ends exactly if the one from its reference does. -/
theorem ends_iff (h : Naming schemas ρ g) (n : String) :
    Ends g.aliased? n ↔ ∀ r, ρ r = some n → Ends (bareNext? schemas) r := by
  refine ⟨fun hn r hr => h.ends_bareNext? hn hr, fun hall => ?_⟩
  cases hm : g.aliased? n with
  | none => exact .stop hm
  | some m =>
    rcases h.aliased?_cases hm with ⟨r, s, hr, -, -⟩ | hstop
    · exact h.ends_aliased? (hall r hr) hr
    · exact .step hm (.stop hstop)

end Naming

/-! ### Components that are references -/

namespace Pass

open Reference

/-- Of each reference that has a name the chain of references ends, or it is being followed. -/
def Settled (schemas : List (String × RefOr Schema)) (p : Pass) : Prop :=
  ∀ r n, p.name? r = some n → Ends (next? schemas) r ∨ r ∈ p.aliasing

/-- What is being followed leads to `r` and has not come there before. -/
structure Leads (schemas : List (String × RefOr Schema)) (p : Pass) (r : String) : Prop where
  fresh : r ∉ p.aliasing
  ends : Ends (next? schemas) r → ∀ s ∈ p.aliasing, Ends (next? schemas) s

variable {schemas : List (String × RefOr Schema)} {base : Registry} {p q : Pass} {r : String}

theorem settled_enumStable :
    Resolver.EnumStable fun q => p.Completes schemas (fun _ => True) base q ∧ q.Settled schemas :=
  fun q name vs hq => ⟨completes_enumStable q name vs hq.1, fun r n hr => hq.2 r n hr⟩

end Pass

namespace Resolver

open Reference Pass

variable {schemas : List (String × RefOr Schema)} {base : Registry}
  {onRef : String → Resolver TypeExpr} {r name : String} {p q : Pass}

/-- Once a reference is worked out its chain of references has ended. -/
def Settles (schemas : List (String × RefOr Schema)) (base : Registry)
    (onRef : String → Resolver TypeExpr) (r : String) : Prop :=
  ∀ p : Pass, p.Sound schemas (fun _ => True) base → p.Settled schemas → p.Leads schemas r →
    ∀ t q, onRef r p = (.ok t, q) → q.Settled schemas ∧ Ends (next? schemas) r

/-- Inside of a structure no reference is being followed. -/
theorem Settles.named (hset : Settles schemas base onRef r)
    (hexp : Expands schemas (fun _ => True) base onRef r) (hp : p.aliasing = []) :
    Outline.Named (fun q => p.Completes schemas (fun _ => True) base q ∧ q.Settled schemas)
      (fun _ _ => True) onRef r := by
  refine hexp.named_and fun q hq hsettled => ?_
  have haliasing : q.aliasing = [] := hq.aliasing.trans hp
  have hleads : q.Leads schemas r := ⟨by simp [haliasing], by simp [haliasing]⟩
  rcases hrun : onRef r q with ⟨e | t, z⟩
  · trivial
  · exact (hset q hq.sound hsettled hleads t z hrun).1

section

variable (hexp : ∀ r, Expands schemas (fun _ => True) base onRef r)
  (hset : ∀ r, Settles schemas base onRef r)

include hexp hset

/-- A component that is a reference is one more step of the chain that is being followed. -/
theorem shapeOf_ref_settles {next : String} {d : Definition} (hnext : next? schemas r = some next)
    (hp : p.Sound schemas (fun _ => True) base)
    (hsettled : Settled schemas { p with aliasing := r :: p.aliasing }) (hleads : p.Leads schemas r)
    (h : shapeOf onRef r name (.ref next) p = (.ok d, q)) :
    q.Settled schemas ∧ Ends (next? schemas) r := by
  have hstep (hends : Ends (next? schemas) next) : Ends (next? schemas) r := .step hnext hends
  obtain ⟨-, he, -⟩ | ⟨hfresh, result, z, hrun, hresult, rfl⟩ := shapeOf_ref_cases h
  · cases he
  · have hsound : Sound schemas (fun _ => True) base { p with aliasing := r :: p.aliasing } :=
      hp.congr rfl rfl
    -- the chain from `r` ends if the one from `next` does, and with it what leads to `r`
    have hleads' : Leads schemas { p with aliasing := r :: p.aliasing } next := by
      refine ⟨hfresh, fun hends s hs => ?_⟩
      rcases List.mem_cons.mp hs with rfl | hs
      · exact hstep hends
      · exact hleads.ends (hstep hends) s hs
    cases result with
    | error e => cases hresult
    | ok t =>
      have haliasing : z.aliasing = r :: p.aliasing := ((hexp next).ok hsound hrun).1.aliasing
      obtain ⟨hafter, hends⟩ := hset next _ hsound hsettled hleads' t z hrun
      refine ⟨fun s n hname => ?_, hstep hends⟩
      rcases hafter s n hname with hends' | hmem
      · exact .inl hends'
      · rw [haliasing] at hmem
        rcases List.mem_cons.mp hmem with rfl | hmem
        · exact .inl (hstep hends)
        · exact .inr (by simpa [haliasing] using hmem)

/-- A component with its schema in place ends the chain that is being followed. -/
theorem shapeOf_inline_settles {s : Schema} {d : Definition} (hnext : next? schemas r = none)
    (hp : p.Sound schemas (fun _ => True) base)
    (hsettled : Settled schemas { p with aliasing := r :: p.aliasing }) (hleads : p.Leads schemas r)
    (h : shapeOf onRef r name (.inline s) p = (.ok d, q)) :
    q.Settled schemas ∧ Ends (next? schemas) r := by
  have hr : Ends (next? schemas) r := .stop hnext
  let inside : Pass := { p with aliasing := [] }
  have hsound : inside.Sound schemas (fun _ => True) base := hp.congr rfl rfl
  -- what has been followed so far ends here, so none of it has to be remembered inside
  have hbefore : inside.Settled schemas := by
    intro s n hs
    rcases hsettled s n hs with hends | hmem
    · exact .inl hends
    · rcases List.mem_cons.mp hmem with rfl | hmem
      · exact .inl hr
      · exact .inl (hleads.ends hr s hmem)
  have hruns := s.shape.resolve_runs settled_enumStable name
    fun r _ => (hset r).named (hexp r) (p := inside) rfl
  rw [shapeOf_inline_apply, Schema.define_eq] at h
  rcases hrun : s.shape.resolve onRef name { p with aliasing := [] } with ⟨e | d, z⟩
  · rw [hrun] at h
    cases (Prod.mk.inj h).1
  · rw [hrun] at h
    obtain ⟨⟨hz, hafter⟩, -⟩ := hruns.ok ⟨.refl hsound, hbefore⟩ hrun
    obtain ⟨-, rfl⟩ := Prod.mk.inj h
    refine ⟨fun s n hname => ?_, hr⟩
    rcases hafter s n hname with hends | hmem
    · exact .inl hends
    · rw [hz.aliasing] at hmem
      cases hmem

theorem workOut_settles {t : TypeExpr} (hp : p.Sound schemas (fun _ => True) base)
    (hsettled : p.Settled schemas) (hleads : p.Leads schemas r) (hnone : p.name? r = none)
    (h : workOut schemas onRef r p = (.ok t, q)) : q.Settled schemas ∧ Ends (next? schemas) r := by
  obtain ⟨e, -, he, -⟩ | ⟨c, target, hpoints, result, z, hshape, hresult⟩ := workOut_cases h
  · cases he
  · have hpromised := hp.promised hnone trivial hpoints
    have hbefore : Settled schemas { p.promised r (capitalCase c) with
        aliasing := r :: p.aliasing } := by
      intro s n hs
      change (p.promised r (capitalCase c)).name? s = some n at hs
      rw [name?_promised] at hs
      split_ifs at hs with heq
      · exact .inr (heq ▸ List.mem_cons_self)
      · exact (hsettled s n hs).imp_right (List.mem_cons_of_mem _)
    have hleads' : (p.promised r (capitalCase c)).Leads schemas r := ⟨hleads.fresh, hleads.ends⟩
    obtain ⟨e, -, he, -⟩ | ⟨d, rfl, -, rfl⟩ := hresult
    · cases he
    · suffices hz : z.Settled schemas ∧ Ends (next? schemas) r from hz
      cases target with
      | ref next =>
        have hnext : next? schemas r = some next := by
          simp [next?, hpoints.target?_eq, RefOr.reference?]
        exact shapeOf_ref_settles hexp hset hnext hpromised hbefore hleads' hshape
      | inline s =>
        have hnext : next? schemas r = none := by
          simp [next?, hpoints.target?_eq, RefOr.reference?]
        exact shapeOf_inline_settles hexp hset hnext hpromised hbefore hleads' hshape

end

theorem expand_settles_of_name? {levels : Nat} {n : String} {t : TypeExpr}
    (hsettled : p.Settled schemas) (hleads : p.Leads schemas r) (hn : p.name? r = some n)
    (h : expand schemas levels r p = (.ok t, q)) : q.Settled schemas ∧ Ends (next? schemas) r := by
  rw [expand_of_name? hn] at h
  obtain ⟨-, rfl⟩ := Prod.mk.inj h
  exact ⟨hsettled, (hsettled r n hn).resolve_right hleads.fresh⟩

theorem expand_settles (levels : Nat) (r : String) :
    Settles schemas base (expand schemas levels) r := by
  induction levels generalizing r with
  | zero =>
    intro p hp hsettled hleads t q h
    cases hn : p.name? r with
    | some n => exact expand_settles_of_name? hsettled hleads hn h
    | none =>
      rw [expand_zero hn] at h
      cases (Prod.mk.inj h).1
  | succ levels ih =>
    intro p hp hsettled hleads t q h
    cases hn : p.name? r with
    | some n => exact expand_settles_of_name? hsettled hleads hn h
    | none =>
      rw [expand_succ hn] at h
      exact workOut_settles (fun r => expand_sound closedUnder_all levels trivial) ih hp hsettled
        hleads hn h

end Resolver

/-! ### Whole descriptions -/

open Reference Resolver Pass

theorem Reference.bareNext?_eq_next? {schemas : List (String × RefOr Schema)}
    (h : ∀ c s, schemas.lookup c = some (.inline s) → s.shape.bare? = none) (r : String) :
    bareNext? schemas r = next? schemas r := by
  rw [bareNext?, next?]
  cases htarget : target? schemas r with
  | none => rfl
  | some target =>
    cases target with
    | ref next => rfl
    | inline s =>
      rw [target?] at htarget
      split at htarget
      · exact h _ s htarget
      · cases htarget

/-- In the resolution of a description a chain of aliases ends exactly if the components that it stands
for do not lead in a circle, and it always ends if they are references or have some structure. -/
theorem Document.resolve_chains {d : Document} {R : Resolution} (h : d.resolve = .ok R) :
    ∃ ρ, Naming d.components.schemas ρ R.definitions ∧
      (∀ n, Ends R.definitions.aliased? n ↔
        ∀ r, ρ r = some n → Ends (bareNext? d.components.schemas) r) ∧
      (∀ r n, ρ r = some n → Ends (next? d.components.schemas) r) ∧
      ((∀ c s, d.components.schemas.lookup c = some (.inline s) → s.shape.bare? = none) →
        ∀ n, Ends R.definitions.aliased? n) := by
  let start : Pass := { registry := .empty }
  have hstart : start.Sound d.components.schemas (fun _ => True) .empty :=
    .start Registry.Ordered.empty
  have hnamed (r : String) : Outline.Named
      (fun q => start.Completes d.components.schemas (fun _ => True) .empty q ∧
        q.Settled d.components.schemas)
      (fun _ _ => True) (reference d.components.schemas) r :=
    (expand_settles (levels d.components.schemas) r).named
      (reference_expands closedUnder_all trivial) rfl
  obtain ⟨q, hq, ⟨hcompletes, hsettled⟩, -⟩ := d.resolve_runs (fun _ _ _ => trivial)
    settled_enumStable hnamed ⟨.refl hstart, by simp [Settled, name?]⟩ h
  have hnaming := hcompletes.sound.naming hcompletes.reserved
  rw [hq] at hnaming
  have hends (r n : String) (hr : q.name? r = some n) : Ends (next? d.components.schemas) r := by
    rcases hsettled r n hr with hends | hmem
    · exact hends
    · rw [hcompletes.aliasing] at hmem
      cases hmem
  refine ⟨q.name?, hnaming, hnaming.ends_iff, hends, fun hbare n => ?_⟩
  rw [hnaming.ends_iff, funext (bareNext?_eq_next? hbare)]
  exact fun r hr => hends r n hr

/-- One operation, answered by the component `a`. -/
def answerDocument (schemas : List (String × RefOr Schema)) : Document where
  paths := [("/a", {
    operation? := fun m => if m = .get then some {
      operationId := some "a"
      responses := [("200", .inline ⟨[("application/json", some (.ref "#/components/schemas/a"))]⟩)] }
      else none })]
  components.schemas := schemas

/-- Another name for a text. -/
def aliasSchemas : List (String × RefOr Schema) :=
  [("a", .ref "#/components/schemas/b"), ("b", .inline { type := some (.single "string") })]

theorem resolve_chains_alias :
    ∃ R, (answerDocument aliasSchemas).resolve = .ok R ∧ R.definitions.aliased? "A" = some "B" ∧
      ∀ n, Ends R.definitions.aliased? n := by
  have hrun : (answerDocument aliasSchemas).resolve.toOption.map (·.definitions.aliased? "A") =
      some (some "B") := by decide +kernel
  obtain ⟨R, h, hA⟩ := Document.resolve_of_map hrun
  obtain ⟨-, -, -, -, hends⟩ := Document.resolve_chains h
  refine ⟨R, h, hA, hends fun c s hs => ?_⟩
  obtain ⟨before, after, heq, -⟩ := List.lookup_eq_some_iff.mp hs
  have hmem : (c, .inline s) ∈ aliasSchemas := by
    change aliasSchemas = _ at heq
    simp [heq]
  rcases List.mem_cons.mp hmem with h | h
  · cases h
  · obtain ⟨-, h⟩ := Prod.mk.inj (List.mem_singleton.mp h)
    obtain rfl := RefOr.inline.inj h
    rfl

/-- A component that is a composition of itself alone is resolved to an alias of itself. -/
theorem resolve_alias_of_itself :
    ∃ R, (answerDocument
        [("a", .inline { allOf := [.ref "#/components/schemas/a"] })]).resolve = .ok R ∧
      R.definitions.aliased? "A" = some "A" ∧ ¬ Ends R.definitions.aliased? "A" := by
  have hrun : (answerDocument [("a", .inline { allOf := [.ref "#/components/schemas/a"] })]
      ).resolve.toOption.map (·.definitions.aliased? "A") = some (some "A") := by decide +kernel
  obtain ⟨R, h, hA⟩ := Document.resolve_of_map hrun
  exact ⟨R, h, hA, fun hends => hends.not_loop hA⟩

end ApiClient

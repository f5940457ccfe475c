import ApiClient.Proofs.Soundness

/-! Working references out keeps a pass sound, whether it ends well or not, and one that ends well
leaves no name promised that was not promised before. -/

namespace ApiClient

namespace Pass

/-- The states that a run from `p` can be left in. -/
structure Follows (schemas : List (String × RefOr Schema)) (Met : String → Prop) (base : Registry)
    (p q : Pass) : Prop where
  sound : q.Sound schemas Met base
  grows : p.Grows q
  aliasing : q.aliasing = p.aliasing

/-- The states in which a run from `p` can end well. -/
structure Completes (schemas : List (String × RefOr Schema)) (Met : String → Prop) (base : Registry)
    (p q : Pass) : Prop extends Follows schemas Met base p q where
  reserved : q.registry.reserved = p.registry.reserved

variable {schemas : List (String × RefOr Schema)} {Met : String → Prop} {base : Registry}
  {p q z : Pass}

theorem Completes.refl (h : p.Sound schemas Met base) : p.Completes schemas Met base p :=
  ⟨⟨h, .refl p, rfl⟩, rfl⟩

theorem Completes.follows_trans (h₁ : p.Completes schemas Met base q) (h₂ : q.Follows schemas Met base z) :
    p.Follows schemas Met base z :=
  ⟨h₂.sound, h₁.grows.trans h₂.grows, h₂.aliasing.trans h₁.aliasing⟩

theorem Completes.trans (h₁ : p.Completes schemas Met base q) (h₂ : q.Completes schemas Met base z) :
    p.Completes schemas Met base z :=
  ⟨h₁.follows_trans h₂.toFollows, h₂.reserved.trans h₁.reserved⟩

theorem completes_enumStable : Resolver.EnumStable (p.Completes schemas Met base) := by
  intro q name vs hq
  have hkept := Registry.kept_register q.registry name (.enum vs)
  have hreserved := Registry.reserved_register q.registry name (.enum vs)
  exact ⟨⟨hq.sound.register name vs, hq.grows.trans ⟨fun _ _ h => h, hkept⟩, hq.aliasing⟩,
    hreserved.trans hq.reserved⟩

end Pass

namespace Resolver

open Pass

variable {schemas : List (String × RefOr Schema)} {Met : String → Prop} {base : Registry}

/-- What working out a reference does to a sound pass. It can fail only if the reference has no name
yet. -/
def Expands (schemas : List (String × RefOr Schema)) (Met : String → Prop) (base : Registry)
    (onRef : String → Resolver TypeExpr) (r : String) : Prop :=
  ∀ p : Pass, p.Sound schemas Met base → Outcome
    (fun t q => p.Completes schemas Met base q ∧ ∃ n, q.name? r = some n ∧ t = .named n)
    (fun _ q => p.Follows schemas Met base q ∧ p.name? r = none) (onRef r p)

/-- Failed runs from `p`, in which one of the references `rs` had no name. -/
def Fails (schemas : List (String × RefOr Schema)) (Met : String → Prop) (base : Registry)
    (p : Pass) (rs : List String) (_ : ReferenceError) (q : Pass) : Prop :=
  p.Follows schemas Met base q ∧ ∃ r ∈ rs, p.name? r = none

section

variable {onRef : String → Resolver TypeExpr} {r : String} {p q : Pass}

theorem Expands.ok (h : Expands schemas Met base onRef r) (hp : p.Sound schemas Met base)
    {t : TypeExpr} (hrun : onRef r p = (.ok t, q)) :
    p.Completes schemas Met base q ∧ ∃ n, q.name? r = some n ∧ t = .named n := by
  have hx := h p hp
  rwa [hrun] at hx

theorem Expands.error (h : Expands schemas Met base onRef r) (hp : p.Sound schemas Met base)
    {e : ReferenceError} (hrun : onRef r p = (.error e, q)) :
    p.Follows schemas Met base q ∧ p.name? r = none := by
  have hx := h p hp
  rwa [hrun] at hx

theorem Expands.named_of_error {E : ReferenceError → Pass → Prop}
    (h : Expands schemas Met base onRef r)
    (hE : ∀ z, p.Completes schemas Met base z → ∀ e q, onRef r z = (.error e, q) → E e q) :
    Outline.Named (p.Completes schemas Met base) E onRef r := by
  intro q hq
  rcases hrun : onRef r q with ⟨e | t, z⟩
  · exact hE q hq e z hrun
  · obtain ⟨hz, n, hn, rfl⟩ := h.ok hq.sound hrun
    exact ⟨hq.trans hz, hz.grows, fun y hy => ⟨n, hy.names r n hn, rfl⟩⟩

theorem Expands.named {rs : List String} (h : Expands schemas Met base onRef r) (hr : r ∈ rs)
    (p : Pass) :
    Outline.Named (p.Completes schemas Met base) (Fails schemas Met base p rs) onRef r := by
  refine h.named_of_error fun q hq e z hrun => ?_
  obtain ⟨hz, hnone⟩ := h.error hq.sound hrun
  refine ⟨hq.follows_trans hz, r, hr, ?_⟩
  by_contra hsome
  obtain ⟨n, hn⟩ := Option.ne_none_iff_exists'.mp hsome
  exact absurd ((hq.grows.names r n hn).symm.trans hnone) (by simp)

/-- What more than `Expands` is known of a reference holds of it inside of an outline as well. -/
theorem Expands.named_and {J : Pass → Prop} {E : ReferenceError → Pass → Prop}
    (h : Expands schemas Met base onRef r)
    (hJ : ∀ z, p.Completes schemas Met base z → J z → Outcome (fun _ => J) E (onRef r z)) :
    Outline.Named (fun z => p.Completes schemas Met base z ∧ J z) E onRef r := by
  rintro q ⟨hq, hqJ⟩
  have hx := hJ q hq hqJ
  rcases hrun : onRef r q with ⟨e | t, z⟩
  · rw [hrun] at hx
    exact hx
  · rw [hrun] at hx
    obtain ⟨hz, n, hn, rfl⟩ := h.ok hq.sound hrun
    exact ⟨⟨hq.trans hz, hx⟩, hz.grows, fun y hy => ⟨n, hy.names r n hn, rfl⟩⟩

end

/-! ### What the steps come to -/

variable {onRef : String → Resolver TypeExpr} {r name : String} {p q : Pass}

/-- A reference in the place of a schema is an error at once, or it is one more step in the chain. -/
theorem shapeOf_ref_cases {next : String} {result : Except ReferenceError Definition}
    (h : shapeOf onRef r name (.ref next) p = (result, q)) :
    (next ∈ r :: p.aliasing ∧ result = .error (.cycle next) ∧ q = p) ∨
      next ∉ r :: p.aliasing ∧ ∃ result' z,
        onRef next { p with aliasing := r :: p.aliasing } = (result', z) ∧
        result = result'.map .alias ∧ q = { z with aliasing := z.aliasing.drop 1 } := by
  have hget : (shapeOf onRef r name (.ref next)) p =
      (if next = r ∨ next ∈ p.aliasing then throw (.cycle next)
        else do return .alias (← chained r (onRef next)) : Resolver Definition) p := rfl
  rw [hget] at h
  split_ifs at h with hcycle
  · obtain ⟨rfl, rfl⟩ := Prod.mk.inj h
    exact .inl ⟨by simpa using hcycle, rfl, rfl⟩
  · refine .inr ⟨by simpa using hcycle, ?_⟩
    rcases hrun : onRef next { p with aliasing := r :: p.aliasing } with ⟨e | t, z⟩
    · have hchained : chained r (onRef next) p =
          (.error e, { z with aliasing := z.aliasing.drop 1 }) := by rw [chained, hrun]
      rw [bind_error hchained] at h
      obtain ⟨rfl, rfl⟩ := Prod.mk.inj h
      exact ⟨_, z, rfl, rfl, rfl⟩
    · have hchained : chained r (onRef next) p =
          (.ok t, { z with aliasing := z.aliasing.drop 1 }) := by rw [chained, hrun]
      rw [bind_ok hchained] at h
      obtain ⟨rfl, rfl⟩ := Prod.mk.inj h
      exact ⟨_, z, rfl, rfl, rfl⟩

theorem shapeOf_inline_apply (s : Schema) :
    shapeOf onRef r name (.inline s) p =
      ((s.define onRef name { p with aliasing := [] }).1,
        { (s.define onRef name { p with aliasing := [] }).2 with aliasing := p.aliasing }) := rfl

theorem get_apply (p : Pass) : (get : Resolver Pass) p = (.ok p, p) := rfl

theorem expand_of_name? {n : String} (h : p.name? r = some n) (levels : Nat) :
    expand schemas levels r p = (.ok (.named n), p) := by
  rw [Pass.name?] at h
  rw [expand.eq_def, bind_ok (get_apply p), h]
  rfl

theorem expand_zero (h : p.name? r = none) :
    expand schemas 0 r p = (.error (.unfinished r), p) := by
  rw [Pass.name?] at h
  rw [expand.eq_def, bind_ok (get_apply p), h]
  rfl

theorem expand_succ (h : p.name? r = none) (levels : Nat) :
    expand schemas (levels + 1) r p = workOut schemas (expand schemas levels) r p := by
  rw [Pass.name?] at h
  rw [expand.eq_def, bind_ok (get_apply p), h]

theorem componentOf_error {e : ReferenceError} (h : Reference.component .schemas r = .error e)
    (p : Pass) : componentOf r p = (.error e, p) := by
  rw [componentOf, h]
  rfl

theorem componentOf_ok {c : String} (h : Reference.component .schemas r = .ok c) (p : Pass) :
    componentOf r p = (.ok c, p) := by
  rw [componentOf, h]
  rfl

theorem promise_apply (name : String) (p : Pass) :
    promise r name p = (.ok (p.registry.reserve name).1, p.promised r name) := rfl

/-- Working out a reference fails at once if it names no component, and comes down to the shape of the
component if it names one. -/
theorem workOut_cases {result : Except ReferenceError TypeExpr}
    (h : workOut schemas onRef r p = (result, q)) :
    (∃ e, Reference.Missing schemas r e ∧ result = .error e ∧ q = p) ∨
      ∃ c target, Reference.Points schemas r c target ∧ ∃ result' z,
        shapeOf onRef r (p.registry.reserve (capitalCase c)).1 target
          (p.promised r (capitalCase c)) = (result', z) ∧
        ((∃ e, result' = .error e ∧ result = .error e ∧ q = z) ∨
          ∃ d, result' = .ok d ∧ result = .ok (.named (p.registry.reserve (capitalCase c)).1) ∧
            q = { z with registry := z.registry.fill (p.registry.reserve (capitalCase c)).1 d }) := by
  rw [workOut] at h
  cases hcomp : Reference.component .schemas r with
  | error e =>
    rw [bind_error (componentOf_error hcomp p)] at h
    obtain ⟨rfl, rfl⟩ := Prod.mk.inj h
    obtain rfl := Reference.component_eq_error hcomp
    exact .inl ⟨_, .unsupported fun c hc => by simp [hcomp] at hc, rfl, rfl⟩
  | ok c =>
    rw [bind_ok (componentOf_ok hcomp p)] at h
    cases hlook : schemas.lookup c with
    | none =>
      rw [hlook] at h
      obtain ⟨rfl, rfl⟩ := Prod.mk.inj h
      exact .inl ⟨_, .dangling hcomp hlook, rfl, rfl⟩
    | some target =>
      rw [hlook] at h
      dsimp only at h
      rw [bind_ok (promise_apply (capitalCase c) p)] at h
      refine .inr ⟨c, target, ⟨hcomp, hlook⟩, ?_⟩
      rcases hshape : shapeOf onRef r (p.registry.reserve (capitalCase c)).1 target
        (p.promised r (capitalCase c)) with ⟨e | d, z⟩
      · rw [bind_error hshape] at h
        obtain ⟨rfl, rfl⟩ := Prod.mk.inj h
        exact ⟨_, z, rfl, .inl ⟨e, rfl, rfl, rfl⟩⟩
      · rw [bind_ok hshape] at h
        obtain ⟨rfl, rfl⟩ := Prod.mk.inj h
        exact ⟨_, z, rfl, .inr ⟨d, rfl, rfl, rfl⟩⟩

/-! ### The steps keep a pass sound -/

theorem shapeOf_ref_sound {next : String} (h : Expands schemas Met base onRef next)
    (hp : p.Sound schemas Met base) :
    Outcome (fun d q => p.Completes schemas Met base q ∧ (RefOr.ref next).shape.Means q.name? q.registry d)
      (fun _ q => p.Follows schemas Met base q) (shapeOf onRef r name (.ref next) p) := by
  rcases hshape : shapeOf onRef r name (.ref next) p with ⟨result, q⟩
  obtain ⟨-, rfl, rfl⟩ | ⟨-, result', z, hrun, rfl, rfl⟩ := shapeOf_ref_cases hshape
  · exact (Completes.refl hp).toFollows
  · have hchained : Sound schemas Met base { p with aliasing := r :: p.aliasing } := hp.congr rfl rfl
    cases result' with
    | error e =>
      obtain ⟨hq, -⟩ := h.error hchained hrun
      exact ⟨hq.sound.congr rfl rfl, ⟨hq.grows.names, hq.grows.registry⟩,
        congrArg (List.drop 1) hq.aliasing⟩
    | ok t =>
      obtain ⟨hq, n, hn, rfl⟩ := h.ok hchained hrun
      exact ⟨⟨⟨hq.sound.congr rfl rfl, ⟨hq.grows.names, hq.grows.registry⟩,
        congrArg (List.drop 1) hq.aliasing⟩, hq.reserved⟩, .type (.ref hn)⟩

theorem shapeOf_inline_sound {s : Schema} (h : ∀ r ∈ s.shape.refs, Expands schemas Met base onRef r)
    (hp : p.Sound schemas Met base) :
    Outcome (fun d q => p.Completes schemas Met base q ∧ s.shape.Means q.name? q.registry d)
      (fun _ q => p.Follows schemas Met base q) (shapeOf onRef r name (.inline s) p) := by
  rw [shapeOf_inline_apply, Schema.define_eq]
  have hapart : Sound schemas Met base { p with aliasing := [] } := hp.congr rfl rfl
  have hruns := s.shape.resolve_runs completes_enumStable name
    fun r hr => (h r hr).named hr { p with aliasing := [] }
  rcases hrun : s.shape.resolve onRef name { p with aliasing := [] } with ⟨e | d, q⟩
  · obtain ⟨hq, -⟩ := hruns.error (.refl hapart) hrun
    exact ⟨hq.sound.congr rfl rfl, ⟨hq.grows.names, hq.grows.registry⟩, rfl⟩
  · obtain ⟨hq, -, hmeans⟩ := hruns.ok (.refl hapart) hrun
    exact ⟨⟨⟨hq.sound.congr rfl rfl, ⟨hq.grows.names, hq.grows.registry⟩, rfl⟩, hq.reserved⟩,
      hmeans q (.refl q)⟩

theorem shapeOf_sound {target : RefOr Schema}
    (h : ∀ r ∈ target.shape.refs, Expands schemas Met base onRef r)
    (hp : p.Sound schemas Met base) (r name : String) :
    Outcome (fun d q => p.Completes schemas Met base q ∧ target.shape.Means q.name? q.registry d)
      (fun _ q => p.Follows schemas Met base q) (shapeOf onRef r name target p) := by
  cases target with
  | ref next => exact shapeOf_ref_sound (h next List.mem_cons_self) hp
  | inline s => exact shapeOf_inline_sound h hp

/-- A set of references that holds what the components of its members refer to. -/
def ClosedUnder (schemas : List (String × RefOr Schema)) (Met : String → Prop) : Prop :=
  ∀ r c target, Met r → Reference.Points schemas r c target → ∀ s ∈ target.shape.refs, Met s

theorem workOut_sound (hclosed : ClosedUnder schemas Met)
    (h : ∀ r, Met r → Expands schemas Met base onRef r) (hr : Met r)
    (hp : p.Sound schemas Met base) (hnone : p.name? r = none) :
    Outcome (fun t q => p.Completes schemas Met base q ∧ ∃ n, q.name? r = some n ∧ t = .named n)
      (fun _ q => p.Follows schemas Met base q) (workOut schemas onRef r p) := by
  rcases hrun : workOut schemas onRef r p with ⟨result, q⟩
  obtain ⟨e, -, rfl, rfl⟩ | ⟨c, target, hpoints, result', z, hshape, hresult⟩ := workOut_cases hrun
  · exact (Completes.refl hp).toFollows
  · have hpromised := hp.promised hnone hr hpoints
    have hgrows : p.Grows (p.promised r (capitalCase c)) := grows_promised hnone
    have hname : (p.promised r (capitalCase c)).name? r =
        some (p.registry.reserve (capitalCase c)).1 := by simp [name?_promised]
    obtain ⟨k, -, -, hres⟩ := Registry.reserve_cases p.registry (capitalCase c)
    have hreserved : (p.promised r (capitalCase c)).registry.reserved =
        (p.registry.reserve (capitalCase c)).1 :: p.registry.reserved := by
      simp [promised, hres]
    have hx := shapeOf_sound (fun s hs => h s (hclosed r c target hr hpoints s hs)) hpromised
      r (p.registry.reserve (capitalCase c)).1
    rw [hshape] at hx
    rcases hresult with ⟨e, rfl, rfl, rfl⟩ | ⟨d, rfl, rfl, rfl⟩
    · have hq : Follows schemas Met base (p.promised r (capitalCase c)) q := hx
      exact ⟨hq.sound, hgrows.trans hq.grows, hq.aliasing⟩
    · obtain ⟨hz, hmeans⟩ := hx
      generalize (p.registry.reserve (capitalCase c)).1 = name at hname hreserved
      have hn := hz.grows.names r name hname
      have hmem : name ∈ z.registry.reserved := by simp [hz.reserved, hreserved]
      have hfill : z.Grows { z with registry := z.registry.fill name d } :=
        grows_fill (hz.sound.ordered.unfilled name hmem)
      refine ⟨⟨⟨hz.sound.fill hn hmem hpoints hmeans, (hgrows.trans hz.grows).trans hfill,
        hz.aliasing⟩, ?_⟩, name, hn, rfl⟩
      show z.registry.reserved.erase name = _
      rw [hz.reserved, hreserved, List.erase_cons_head]

theorem expand_sound (hclosed : ClosedUnder schemas Met) (levels : Nat) {r : String}
    (hr : Met r) : Expands schemas Met base (expand schemas levels) r := by
  induction levels generalizing r with
  | zero =>
    intro p hp
    cases hn : p.name? r with
    | some n =>
      rw [expand_of_name? hn]
      exact ⟨.refl hp, n, hn, rfl⟩
    | none =>
      rw [expand_zero hn]
      exact ⟨(Completes.refl hp).toFollows, rfl⟩
  | succ levels ih =>
    intro p hp
    cases hn : p.name? r with
    | some n =>
      rw [expand_of_name? hn]
      exact ⟨.refl hp, n, hn, rfl⟩
    | none =>
      rw [expand_succ hn]
      have hx := workOut_sound hclosed (fun r hr => ih hr) hr hp hn
      rcases hrun : workOut schemas (expand schemas levels) r p with ⟨e | t, q⟩
      · rw [hrun] at hx
        exact ⟨hx, rfl⟩
      · rwa [hrun] at hx

theorem reference_expands (hclosed : ClosedUnder schemas Met) {r : String} (hr : Met r) :
    Expands schemas Met base (reference schemas) r :=
  expand_sound hclosed (levels schemas) hr

theorem closedUnder_all : ClosedUnder schemas fun _ => True := fun _ _ _ _ _ _ _ => trivial

end Resolver

end ApiClient

import ApiClient.Proofs.Meaning

/-! Runs of the resolver. What a run has named and stored stays, so that what one step has established
still holds after the next ones. -/

namespace ApiClient

/-- The name of a reference, if it has been met. -/
def Pass.name? (p : Pass) (r : String) : Option String := p.names.lookup r

/-- In `q` all is known that is known in `p`. -/
structure Pass.Grows (p q : Pass) : Prop where
  names : ∀ r n, p.name? r = some n → q.name? r = some n
  registry : p.registry.Kept q.registry

theorem Pass.Grows.refl (p : Pass) : p.Grows p := ⟨fun _ _ h => h, .refl _⟩

theorem Pass.Grows.trans {p q z : Pass} (h₁ : p.Grows q) (h₂ : q.Grows z) : p.Grows z :=
  ⟨fun r n h => h₂.names r n (h₁.names r n h), h₁.registry.trans h₂.registry⟩

namespace Resolver

variable {α β : Type} {I : Pass → Prop} {E : ReferenceError → Pass → Prop}

theorem bind_ok {x : Resolver α} {p q : Pass} {a : α} (h : x p = (.ok a, q))
    (f : α → Resolver β) : (x >>= f) p = f a q := by
  show ExceptT.bindCont f (x p).1 (x p).2 = _
  rw [h]
  rfl

theorem bind_error {x : Resolver α} {p q : Pass} {e : ReferenceError} (h : x p = (.error e, q))
    (f : α → Resolver β) : (x >>= f) p = (.error e, q) := by
  show ExceptT.bindCont f (x p).1 (x p).2 = _
  rw [h]
  rfl

/-- What holds of the end of a run: `Q` if it ends well, `E` if it fails. -/
def Outcome (Q : α → Pass → Prop) (E : ReferenceError → Pass → Prop) :
    Except ReferenceError α × Pass → Prop
  | (.ok a, q) => Q a q
  | (.error e, q) => E e q

theorem Outcome.mono {Q R : α → Pass → Prop} {F : ReferenceError → Pass → Prop}
    {x : Except ReferenceError α × Pass} (h : Outcome Q E x) (hQ : ∀ a q, Q a q → R a q)
    (hE : ∀ e q, E e q → F e q) : Outcome R F x := by
  obtain ⟨e | a, q⟩ := x
  · exact hE e q h
  · exact hQ a q h

/-- What holds of both kinds of ends holds of the end. -/
theorem Outcome.either {Q : α → Pass → Prop} {J : Pass → Prop}
    {x : Except ReferenceError α × Pass} (h : Outcome Q E x) (hQ : ∀ a q, Q a q → J q)
    (hE : ∀ e q, E e q → J q) : J x.2 := by
  obtain ⟨e | a, q⟩ := x
  · exact hE e q h
  · exact hQ a q h

/-- A run from a state with `I` that ends well keeps `I`, and of its result `Q` holds from then on; one
that fails does so with `E`. -/
def Runs (I : Pass → Prop) (E : ReferenceError → Pass → Prop) (x : Resolver α)
    (Q : α → Pass → Prop) : Prop :=
  ∀ p, I p → Outcome (fun a q => I q ∧ p.Grows q ∧ ∀ z, q.Grows z → Q a z) E (x p)

namespace Runs

variable {x : Resolver α} {f : α → Resolver β} {P Q : α → Pass → Prop} {R : α → β → Pass → Prop}

theorem ok {p q : Pass} {a : α} (h : Runs I E x Q) (hp : I p) (hx : x p = (.ok a, q)) :
    I q ∧ p.Grows q ∧ ∀ z, q.Grows z → Q a z := by
  have hrun := h p hp
  rwa [hx] at hrun

theorem error {p q : Pass} {e : ReferenceError} (h : Runs I E x Q) (hp : I p)
    (hx : x p = (.error e, q)) : E e q := by
  have hrun := h p hp
  rwa [hx] at hrun

theorem pure {a : α} (h : ∀ z, Q a z) : Runs I E (Pure.pure a) Q :=
  fun p hp => ⟨hp, .refl p, fun z _ => h z⟩

theorem throw {e : ReferenceError} (h : ∀ p, I p → E e p) : Runs I E (throw e : Resolver α) Q :=
  fun p hp => h p hp

theorem mono (h : Runs I E x P) (hPQ : ∀ a z, P a z → Q a z) : Runs I E x Q :=
  fun p hp => (h p hp).mono (fun a _ hq => ⟨hq.1, hq.2.1, fun z hz => hPQ a z (hq.2.2 z hz)⟩)
    fun _ _ hq => hq

theorem weaken {F : ReferenceError → Pass → Prop} (h : Runs I E x Q)
    (hEF : ∀ e q, E e q → F e q) : Runs I F x Q :=
  fun p hp => (h p hp).mono (fun _ _ hq => hq) hEF

theorem and (hP : Runs I E x P) (hQ : Runs I E x Q) : Runs I E x fun a z => P a z ∧ Q a z := by
  intro p hp
  rcases hrun : x p with ⟨e | a, q⟩
  · exact hP.error hp hrun
  · obtain ⟨hq, hpq, hPz⟩ := hP.ok hp hrun
    exact ⟨hq, hpq, fun z hz => ⟨hPz z hz, (hQ.ok hp hrun).2.2 z hz⟩⟩

/-- What is kept by runs that end well and by those that fail is kept. -/
theorem kept {J : Pass → Prop} (h : Runs (fun p => I p ∧ J p) (fun _ => J) x Q) {p : Pass}
    (hI : I p) (hJ : J p) : J (x p).2 :=
  (h p ⟨hI, hJ⟩).either (fun _ _ hq => hq.1.2) fun _ _ hq => hq

theorem bind (hx : Runs I E x P) (hf : ∀ a, Runs I E (f a) (R a)) :
    Runs I E (x >>= f) fun b z => ∃ a, P a z ∧ R a b z := by
  intro p hp
  rcases hrun : x p with ⟨e | a, q⟩
  · rw [bind_error hrun]
    exact hx.error hp hrun
  · rw [bind_ok hrun]
    obtain ⟨hq, hpq, hP⟩ := hx.ok hp hrun
    rcases hnext : f a q with ⟨e | b, z⟩
    · exact (hf a).error hq hnext
    · obtain ⟨hz, hqz, hR⟩ := (hf a).ok hq hnext
      exact ⟨hz, hpq.trans hqz, fun y hy => ⟨a, hP y (hqz.trans hy), hR y hy⟩⟩

theorem map {c : α → β} {S : β → Pass → Prop} (hx : Runs I E x P)
    (h : ∀ a z, P a z → S (c a) z) : Runs I E (x >>= fun a => Pure.pure (c a)) S := by
  refine (hx.bind fun a => pure (Q := fun b _ => b = c a) fun _ => rfl).mono ?_
  rintro b z ⟨a, ha, rfl⟩
  exact h a z ha

theorem map₂ {γ : Type} {y : Resolver β} {c : α → β → γ} {Q : β → Pass → Prop}
    {S : γ → Pass → Prop} (hx : Runs I E x P) (hy : Runs I E y Q)
    (h : ∀ a b z, P a z → Q b z → S (c a b) z) :
    Runs I E (x >>= fun a => y >>= fun b => Pure.pure (c a b)) S := by
  have hmap (a : α) : Runs I E (y >>= fun b => Pure.pure (c a b)) fun d z =>
      ∃ b, Q b z ∧ d = c a b := hy.map fun b _ hb => ⟨b, hb, rfl⟩
  refine (hx.bind hmap).mono ?_
  rintro d z ⟨a, ha, b, hb, rfl⟩
  exact h a b z ha hb

end Runs

/-- An invariant that the registration of an enum keeps. -/
def EnumStable (I : Pass → Prop) : Prop :=
  ∀ p name vs, I p → I { p with registry := (p.registry.register name (.enum vs)).2 }

theorem register_runs (hI : EnumStable I) (name : String) (vs : List Json) :
    Runs I E (register name (.enum vs)) fun n z =>
      z.registry.HoldsEnum n vs ∧ Registry.IsNumbered name n := by
  intro p hp
  have hheld := Registry.register_holdsEnum p.registry name vs
  have hnumbered := Registry.register_isNumbered p.registry name (.enum vs)
  have hkept := Registry.kept_register p.registry name (.enum vs)
  exact ⟨hI p name vs hp, ⟨fun _ _ h => h, hkept⟩,
    fun z hz => ⟨hheld.kept hz.registry, hnumbered⟩⟩

/-- A run from a state with `I` that ends well keeps `I`, and one that fails does so with `E`. -/
def Upholds (I : Pass → Prop) (E : ReferenceError → Pass → Prop) (x : Resolver α) : Prop :=
  ∀ p, I p → Outcome (fun _ q => I q) E (x p)

namespace Upholds

theorem pure (a : α) : Upholds I E (Pure.pure a) := fun _ hp => hp

theorem throw {e : ReferenceError} (h : ∀ p, I p → E e p) : Upholds I E (throw e : Resolver α) := h

theorem bind {x : Resolver α} {f : α → Resolver β} (hx : Upholds I E x) (hf : ∀ a, Upholds I E (f a)) :
    Upholds I E (x >>= f) := by
  intro p hp
  have hrun := hx p hp
  rcases h : x p with ⟨e | a, q⟩
  · rw [bind_error h]
    rwa [h] at hrun
  · rw [bind_ok h]
    rw [h] at hrun
    exact hf a q hrun

theorem map {x : Resolver α} (f : α → β) (hx : Upholds I E x) :
    Upholds I E (x >>= fun a => Pure.pure (f a)) := hx.bind fun a => pure (f a)

theorem mapM {f : α → Resolver β} (hf : ∀ a, Upholds I E (f a)) (as : List α) :
    Upholds I E (as.mapM f) := by
  induction as with
  | nil => exact pure []
  | cons a as ih =>
    rw [List.mapM_cons]
    exact (hf a).bind fun b => ih.map _

end Upholds

/-- What the registration of an enum keeps, under the names that enums ask for. -/
def EnumKept (I : Pass → Prop) : Prop :=
  ∀ p key parent vs, I p →
    I { p with registry := (p.registry.register (Schema.enumName key parent) (.enum vs)).2 }

theorem EnumStable.kept (hI : EnumStable I) : EnumKept I := fun p _ _ vs hp => hI p _ vs hp

end Resolver

namespace Outline

open Resolver

variable {I : Pass → Prop} {E : ReferenceError → Pass → Prop} {onRef : String → Resolver TypeExpr}

mutual

/-- What its references keep is kept by a whole outline. -/
theorem resolve_upholds (hI : EnumKept I) : (o : Outline) → (key parent : String) →
    (∀ r ∈ o.refs, Upholds I E (onRef r)) → Upholds I E (o.resolve onRef key parent)
  | .ref r, _, _, h => h r List.mem_cons_self
  | .enum vs, key, parent, _ => Upholds.map _ fun p hp => hI p key parent vs hp
  | .primitive _, _, _, _ => .pure _
  | .unknown, _, _, _ => .pure _
  | .array o, key, parent, h => (resolve_upholds hI o key parent h).map _
  | .map o, key, _, h => (resolve_upholds hI o key key h).map _
  | .object fs, key, _, h => (resolveFields_upholds hI fs key h).map _
  | .all os, key, parent, h => (resolveAll_upholds hI os key parent h).map _
  | .any os, key, parent, h => (resolveAll_upholds hI os key parent h).map _
  | .orNull o, key, parent, h => (resolve_upholds hI o key parent h).map _

theorem resolveAll_upholds (hI : EnumKept I) : (os : List Outline) → (key parent : String) →
    (∀ r ∈ refsOfAll os, Upholds I E (onRef r)) → Upholds I E (resolveAll onRef os key parent)
  | [], _, _, _ => .pure _
  | o :: os, key, parent, h => by
    have ho := resolve_upholds hI o key parent fun r hr => h r (List.mem_append_left _ hr)
    have hos := resolveAll_upholds hI os key parent fun r hr => h r (List.mem_append_right _ hr)
    exact ho.bind fun _ => hos.map _

theorem resolveFields_upholds (hI : EnumKept I) : (fs : List (FieldKey × Outline)) → (key : String) →
    (∀ r ∈ refsOfFields fs, Upholds I E (onRef r)) → Upholds I E (resolveFields onRef fs key)
  | [], _, _ => .pure _
  | (k, o) :: fs, key, h => by
    have ho := resolve_upholds hI o k.name key fun r hr => h r (List.mem_append_left _ hr)
    have hfs := resolveFields_upholds hI fs key fun r hr => h r (List.mem_append_right _ hr)
    exact ho.bind fun _ => hfs.map _

end

/-- What is asked of the references that are met: each gets the name that the pass remembers. -/
def Named (I : Pass → Prop) (E : ReferenceError → Pass → Prop) (onRef : String → Resolver TypeExpr)
    (r : String) : Prop :=
  Runs I E (onRef r) fun t z => ∃ n, z.name? r = some n ∧ t = .named n

mutual

/-- If its references get their names, a whole outline gets its names. -/
theorem resolve_runs (hI : EnumStable I) : (o : Outline) → (key parent : String) →
    (∀ r ∈ o.refs, Named I E onRef r) →
    Runs I E (o.resolve onRef key parent) fun t z => o.Means z.name? z.registry t
  | .ref r, _, _, h => by
    refine (h r List.mem_cons_self).mono ?_
    rintro _ z ⟨n, hn, rfl⟩
    exact .ref hn
  | .enum vs, key, parent, _ => (register_runs hI _ vs).map fun _ _ hn => .enum hn.1
  | .primitive p, _, _, _ => .pure fun _ => .primitive
  | .unknown, _, _, _ => .pure fun _ => .unknown
  | .array o, key, parent, h => (resolve_runs hI o key parent h).map fun _ _ hm => .array hm
  | .map o, key, parent, h => (resolve_runs hI o key key h).map fun _ _ hm => .map hm
  | .object fs, key, parent, h => (resolveFields_runs hI fs key h).map fun _ _ hm => .object hm
  | .all os, key, parent, h => (resolveAll_runs hI os key parent h).map fun _ _ hm => .all hm
  | .any os, key, parent, h => (resolveAll_runs hI os key parent h).map fun _ _ hm => .any hm
  | .orNull o, key, parent, h => (resolve_runs hI o key parent h).map fun _ _ hm => .orNull hm

theorem resolveAll_runs (hI : EnumStable I) : (os : List Outline) → (key parent : String) →
    (∀ r ∈ refsOfAll os, Named I E onRef r) →
    Runs I E (resolveAll onRef os key parent) fun ts z => AllMean z.name? z.registry os ts
  | [], _, _, _ => .pure fun _ => .nil
  | o :: os, key, parent, h => by
    have ho := resolve_runs hI o key parent fun r hr => h r (List.mem_append_left _ hr)
    have hos := resolveAll_runs hI os key parent fun r hr => h r (List.mem_append_right _ hr)
    exact ho.map₂ hos fun t ts z ht hts => .cons ht hts

theorem resolveFields_runs (hI : EnumStable I) : (fs : List (FieldKey × Outline)) →
    (key : String) → (∀ r ∈ refsOfFields fs, Named I E onRef r) →
    Runs I E (resolveFields onRef fs key) fun gs z => FieldsMean z.name? z.registry fs gs
  | [], _, _ => .pure fun _ => .nil
  | (k, o) :: fs, key, h => by
    have ho := resolve_runs hI o k.name key fun r hr => h r (List.mem_append_left _ hr)
    have hfs := resolveFields_runs hI fs key fun r hr => h r (List.mem_append_right _ hr)
    exact ho.map₂ hfs fun t gs z ht hgs => .cons ht hgs

end

end Outline

theorem Shape.resolve_upholds {I : Pass → Prop} {E : ReferenceError → Pass → Prop}
    {onRef : String → Resolver TypeExpr} (hI : Resolver.EnumKept I) (s : Shape) (name : String)
    (h : ∀ r ∈ s.refs, Resolver.Upholds I E (onRef r)) : Resolver.Upholds I E (s.resolve onRef name) := by
  cases s with
  | object fs => exact (Outline.resolveFields_upholds hI fs name h).map _
  | enum vs => exact .pure _
  | type o => exact (Outline.resolve_upholds hI o name name h).map _

theorem Shape.resolve_runs {I : Pass → Prop} {E : ReferenceError → Pass → Prop}
    {onRef : String → Resolver TypeExpr} (hI : Resolver.EnumStable I) (s : Shape) (name : String)
    (h : ∀ r ∈ s.refs, Outline.Named I E onRef r) :
    Resolver.Runs I E (s.resolve onRef name) fun d z => s.Means z.name? z.registry d := by
  cases s with
  | object fs => exact (Outline.resolveFields_runs hI fs name h).map fun _ _ hm => .object hm
  | enum vs => exact .pure fun _ => .enum
  | type o => exact (Outline.resolve_runs hI o name name h).map fun _ _ hm => .type hm

end ApiClient

import ApiClient.Proofs.Success

/-! The table of the references that have a name. No call takes a reference out of it, however it ends,
and none puts one in that is there already. So there are levels enough for all that are not in it. -/

namespace ApiClient

namespace Pass

variable {p q z : Pass} {r : String}

/-- The table of `q` is that of `p` with new references before it, each of them once. -/
def Extends (p q : Pass) : Prop :=
  ∃ new, q.names = new ++ p.names ∧ (new.map (·.1)).Nodup ∧ ∀ e ∈ new, p.name? e.1 = none

theorem Extends.refl (p : Pass) : p.Extends p := ⟨[], rfl, .nil, by simp⟩

theorem Extends.names (h : p.Extends q) (r n : String) (hn : p.name? r = some n) :
    q.name? r = some n := by
  obtain ⟨new, hq, -, hnew⟩ := h
  have hnone : new.lookup r = none := by
    refine List.lookup_eq_none_iff.mpr fun e he => bne_iff_ne.mpr ?_
    rintro rfl
    simp [hnew e he] at hn
  rw [name?, hq, List.lookup_append, hnone, Option.none_or]
  exact hn

theorem Extends.name?_eq_none (h : p.Extends q) (hr : q.name? r = none) : p.name? r = none := by
  by_contra hsome
  obtain ⟨n, hn⟩ := Option.ne_none_iff_exists'.mp hsome
  simp [h.names r n hn] at hr

theorem name?_ne_none_of_mem {e : String × String} (h : e ∈ p.names) : p.name? e.1 ≠ none := by
  intro hnone
  exact absurd rfl (bne_iff_ne.mp (List.lookup_eq_none_iff.mp hnone e h))

theorem Extends.trans (h₁ : p.Extends q) (h₂ : q.Extends z) : p.Extends z := by
  have hback {r : String} (hr : q.name? r = none) : p.name? r = none := h₁.name?_eq_none hr
  obtain ⟨new, hq, hnodup, hnew⟩ := h₁
  obtain ⟨newer, hz, hnodup', hnewer⟩ := h₂
  refine ⟨newer ++ new, by rw [hz, hq, List.append_assoc], ?_, fun e he => ?_⟩
  · rw [List.map_append, List.nodup_append]
    refine ⟨hnodup', hnodup, ?_⟩
    rintro _ ha _ hb rfl
    obtain ⟨e, he, rfl⟩ := List.mem_map.mp ha
    obtain ⟨f, hf, hkey⟩ := List.mem_map.mp hb
    have hmem : f ∈ q.names := hq ▸ List.mem_append_left _ hf
    exact name?_ne_none_of_mem hmem (hkey ▸ hnewer e he)
  · rcases List.mem_append.mp he with he | he
    · exact hback (hnewer e he)
    · exact hnew e he

/-- The registry and the chain of aliases are of no concern here. -/
theorem Extends.congr (h : p.Extends q) (hn : z.names = q.names) : p.Extends z := by
  rw [Extends, hn]
  exact h

theorem extends_promised (name : String) (hr : p.name? r = none) : p.Extends (p.promised r name) :=
  ⟨[(r, (p.registry.reserve name).1)], rfl, List.nodup_singleton _, by simpa using hr⟩

theorem extends_enumStable : Resolver.EnumStable p.Extends := fun _ _ _ h => h.congr rfl

theorem Extends.card_unmet_le (h : p.Extends q) (rs : Finset String) :
    (q.unmet rs).card ≤ (p.unmet rs).card := Finset.card_le_card (unmet_subset h.names rs)

end Pass

/-- The error says what is wrong with the description, not that a bound on the work was met. -/
def ReferenceError.Proper (e : ReferenceError) : Prop := ∀ r, e ≠ .unfinished r

theorem Reference.Missing.proper {schemas : List (String × RefOr Schema)} {r : String}
    {e : ReferenceError} (h : Missing schemas r e) : e.Proper := by
  intro s
  cases h with
  | unsupported => exact ReferenceError.noConfusion
  | dangling => exact ReferenceError.noConfusion

namespace Resolver

open Pass

variable {α : Type} {schemas : List (String × RefOr Schema)} {onRef : String → Resolver TypeExpr}
  {rs : Finset String} {levels : Nat} {r : String} {p : Pass}

/-- However a run from `p` ends, the table has grown, and a failure is a proper one. -/
def Advances (p : Pass) : Except ReferenceError α × Pass → Prop :=
  Outcome (fun _ q => p.Extends q) fun e q => p.Extends q ∧ e.Proper

theorem Advances.extends {x : Except ReferenceError α × Pass} (h : Advances p x) : p.Extends x.2 :=
  Outcome.either h (fun _ _ hq => hq) fun _ _ hq => hq.1

theorem Advances.trans {q : Pass} {x : Except ReferenceError α × Pass} (hpq : p.Extends q)
    (h : Advances q x) : Advances p x :=
  Outcome.mono h (fun _ _ hq => hpq.trans hq) fun _ _ hq => ⟨hpq.trans hq.1, hq.2⟩

/-- Wherever there are levels for the references without a name, the run advances. -/
def HasRoom (rs : Finset String) (levels : Nat) (onRef : String → Resolver TypeExpr) (r : String) :
    Prop := ∀ p : Pass, (p.unmet rs).card ≤ levels → Advances p (onRef r p)

theorem HasRoom.upholds (h : HasRoom rs levels onRef r) (hroom : (p.unmet rs).card ≤ levels) :
    Upholds p.Extends (fun e q => p.Extends q ∧ e.Proper) (onRef r) :=
  fun q hq => (h q ((hq.card_unmet_le rs).trans hroom)).trans hq

theorem shapeOf_advances {target : RefOr Schema} (h : ∀ s ∈ target.shape.refs, HasRoom rs levels onRef s)
    (hroom : (p.unmet rs).card ≤ levels) (r name : String) :
    Advances p (shapeOf onRef r name target p) := by
  cases target with
  | ref next =>
    rcases hshape : shapeOf onRef r name (.ref next) p with ⟨result, q⟩
    obtain ⟨-, rfl, rfl⟩ | ⟨-, result', z, hrun, rfl, rfl⟩ := shapeOf_ref_cases hshape
    · exact ⟨.refl _, fun _ => ReferenceError.noConfusion⟩
    · have hnext := h next List.mem_cons_self { p with aliasing := r :: p.aliasing } hroom
      rw [hrun] at hnext
      cases result' with
      | error e => exact ⟨hnext.1.congr rfl, hnext.2⟩
      | ok t => exact Extends.congr hnext rfl
  | inline s =>
    have hrun := s.shape.resolve_upholds extends_enumStable.kept name
      (fun r hr => (h r hr).upholds (p := { p with aliasing := [] }) hroom) _ (.refl _)
    rw [shapeOf_inline_apply, Schema.define_eq]
    rcases hshape : s.shape.resolve onRef name { p with aliasing := [] } with ⟨e | d, q⟩
    · rw [hshape] at hrun
      exact ⟨hrun.1.congr rfl, hrun.2⟩
    · rw [hshape] at hrun
      exact Extends.congr hrun rfl

theorem workOut_advances (hclosed : ClosedUnder schemas (· ∈ rs))
    (h : ∀ r ∈ rs, HasRoom rs levels onRef r) (hr : r ∈ rs) (hnone : p.name? r = none)
    (hroom : (p.unmet rs).card ≤ levels + 1) : Advances p (workOut schemas onRef r p) := by
  rcases hrun : workOut schemas onRef r p with ⟨result, q⟩
  obtain ⟨e, hmissing, rfl, rfl⟩ | ⟨c, target, hpoints, result', z, hshape, hresult⟩ := workOut_cases hrun
  · exact ⟨.refl _, hmissing.proper⟩
  · -- the name just given makes room for one level less
    have hroom' : ((p.promised r (capitalCase c)).unmet rs).card ≤ levels := by
      have hlt := Finset.card_lt_card (unmet_promised_ssubset (capitalCase c) hr hnone)
      omega
    have hz := shapeOf_advances (fun s hs => h s (hclosed r c target hr hpoints s hs)) hroom' r
      (p.registry.reserve (capitalCase c)).1
    rw [hshape] at hz
    have hz := hz.trans (extends_promised (capitalCase c) hnone)
    obtain ⟨e, rfl, rfl, rfl⟩ | ⟨d, rfl, rfl, rfl⟩ := hresult
    · exact hz
    · exact Extends.congr hz rfl

theorem expand_hasRoom (hclosed : ClosedUnder schemas (· ∈ rs)) (levels : Nat) {r : String}
    (hr : r ∈ rs) : HasRoom rs levels (expand schemas levels) r := by
  induction levels generalizing r with
  | zero =>
    intro p hroom
    cases hn : p.name? r with
    | some n =>
      rw [expand_of_name? hn]
      exact Extends.refl p
    | none =>
      have hunmet : r ∈ p.unmet rs := Finset.mem_filter.mpr ⟨hr, hn⟩
      exact absurd hroom (Nat.not_le_of_lt (Finset.card_pos.mpr ⟨r, hunmet⟩))
  | succ levels ih =>
    intro p hroom
    cases hn : p.name? r with
    | some n =>
      rw [expand_of_name? hn]
      exact Extends.refl p
    | none =>
      rw [expand_succ hn]
      exact workOut_advances hclosed (fun s hs => ih hs) hr hn hroom

end Resolver

end ApiClient

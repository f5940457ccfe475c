import ApiClient.Proofs.Steps

/-! The chain of aliases. Every call leaves it as it was, however the call ends. In a run that starts without
aliases a circle is reported only where the components themselves go round. -/

namespace ApiClient

/-- Components that are nothing but references lead from `s` back to `s`. -/
def Reference.Circular (schemas : List (String × RefOr Schema)) (s : String) : Prop :=
  Relation.TransGen (fun a b => next? schemas a = some b) s s

namespace Resolver

open Reference Pass

variable {α : Type} {schemas : List (String × RefOr Schema)} {onRef : String → Resolver TypeExpr}
  {r c : String}

/-- However a run from `p` ends, the chain of aliases is the one before. If that has led to `r`, a circle
that is reported is one. -/
def Restores (schemas : List (String × RefOr Schema)) (p : Pass) (r : String) :
    Except ReferenceError α × Pass → Prop :=
  Outcome (fun _ q => q.aliasing = p.aliasing) fun e q =>
    q.aliasing = p.aliasing ∧ (p.Comes schemas r → ∀ s, e = .cycle s → Circular schemas s)

theorem aliasing_enumStable (aliasing : List String) : EnumStable fun q => q.aliasing = aliasing :=
  fun _ _ _ h => h

/-- A failure from `p` leaves the chain of aliases; without aliases, a circle that is reported is one. -/
def Unwinds (schemas : List (String × RefOr Schema)) (p : Pass) (e : ReferenceError) (q : Pass) : Prop :=
  q.aliasing = p.aliasing ∧ (p.aliasing = [] → ∀ s, e = .cycle s → Circular schemas s)

/-- What is met in a schema starts with the chain that the schema is visited with. -/
theorem Restores.upholds (h : ∀ q, Restores schemas q r (onRef r q)) (p : Pass) :
    Upholds (fun q => q.aliasing = p.aliasing) (Unwinds schemas p) (onRef r) := by
  intro q hq
  refine (h q).mono (fun _ z hz => hz.trans hq) fun e z hz => ⟨hz.1.trans hq, fun hp => hz.2 ?_⟩
  simp [Comes, hq, hp]

theorem shapeOf_restores {target : RefOr Schema} (h : ∀ s q, Restores schemas q s (onRef s q))
    (hpoints : Points schemas r c target) (name : String) (p : Pass) :
    Restores schemas p r (shapeOf onRef r name target p) := by
  cases target with
  | ref next =>
    have hnext : next? schemas r = some next := next?_eq_some_iff.mpr ⟨c, hpoints⟩
    rcases hshape : shapeOf onRef r name (.ref next) p with ⟨result, q⟩
    obtain ⟨hmem, rfl, rfl⟩ | ⟨-, result', z, hrun, rfl, rfl⟩ := shapeOf_ref_cases hshape
    · refine ⟨rfl, fun hcomes s hs => ?_⟩
      obtain rfl := ReferenceError.cycle.inj hs
      exact hcomes.next hnext next hmem
    · have hz := h next { p with aliasing := r :: p.aliasing }
      rw [hrun] at hz
      cases result' with
      | error e => exact ⟨congrArg (List.drop 1) hz.1, fun hcomes => hz.2 (hcomes.next hnext)⟩
      | ok t => exact congrArg (List.drop 1) hz
  | inline s =>
    let inside : Pass := { p with aliasing := [] }
    have hrun := s.shape.resolve_upholds (aliasing_enumStable []).kept name
      (fun r _ => Restores.upholds (h r) inside) inside rfl
    rw [shapeOf_inline_apply, Schema.define_eq]
    rcases hshape : s.shape.resolve onRef name { p with aliasing := [] } with ⟨e | d, q⟩
    · rw [hshape] at hrun
      exact ⟨rfl, fun _ => hrun.2 rfl⟩
    · exact rfl

theorem workOut_restores (h : ∀ s q, Restores schemas q s (onRef s q)) (r : String) (p : Pass) :
    Restores schemas p r (workOut schemas onRef r p) := by
  rcases hrun : workOut schemas onRef r p with ⟨result, q⟩
  obtain ⟨e, hmissing, rfl, rfl⟩ | ⟨c, target, hpoints, result', z, hshape, hresult⟩ :=
    workOut_cases hrun
  · refine ⟨rfl, fun _ s hs => ?_⟩
    subst hs
    cases hmissing
  · have hz := shapeOf_restores h hpoints (p.registry.reserve (capitalCase c)).1
      (p.promised r (capitalCase c))
    rw [hshape] at hz
    obtain ⟨e, rfl, rfl, rfl⟩ | ⟨d, rfl, rfl, rfl⟩ := hresult
    · exact hz
    · exact hz

theorem expand_restores (levels : Nat) (r : String) (p : Pass) :
    Restores schemas p r (expand schemas levels r p) := by
  induction levels generalizing r p with
  | zero =>
    cases hn : p.name? r with
    | some n =>
      rw [expand_of_name? hn]
      exact rfl
    | none =>
      rw [expand_zero hn]
      exact ⟨rfl, fun _ s hs => by cases hs⟩
  | succ levels ih =>
    cases hn : p.name? r with
    | some n =>
      rw [expand_of_name? hn]
      exact rfl
    | none =>
      rw [expand_succ hn]
      exact workOut_restores ih r p

theorem Call.restores (call : Call) (p : Pass) :
    Outcome (fun _ q => q.aliasing = p.aliasing) (Unwinds schemas p) (call.run schemas p) := by
  have hrefs (r : String) :
      Upholds (fun q => q.aliasing = p.aliasing) (Unwinds schemas p) (Resolver.reference schemas r) :=
    Restores.upholds (expand_restores (levels schemas) r) p
  cases call with
  | reference r => exact hrefs r p rfl
  | schema s key parent =>
    rw [run, schema?_eq]
    exact Outline.resolve_upholds (aliasing_enumStable p.aliasing).kept _ key parent
      (fun r _ => hrefs r) p rfl

theorem Call.run_aliasing (call : Call) (p : Pass) : (call.run schemas p).2.aliasing = p.aliasing :=
  (call.restores p).either (fun _ _ h => h) fun _ _ h => h.1

theorem Call.runAll_aliasing (calls : List Call) (p : Pass) :
    (runAll schemas calls p).aliasing = p.aliasing := by
  induction calls generalizing p with
  | nil => rfl
  | cons call calls ih => exact (ih _).trans (call.run_aliasing p)

end Resolver

end ApiClient

import ApiClient.Proofs.Closure
import ApiClient.Proofs.InPlace

/-! What calls leave behind. Shapes stay for good, and a promise stays until it is kept. A call that
ends well leaves no promise of its own; one that fails leaves those of the references that were being
worked out, and the resolver answers with their names from then on. -/

namespace ApiClient

/-! ### Promises stand -/

namespace Pass

/-- What is promised in `p` is promised in `q`, and no reference has been given such a name in
between. -/
structure Stands (p q : Pass) : Prop where
  known : ∀ r n, p.name? r = some n → q.name? r = some n
  reserved : ∀ n ∈ p.registry.reserved, n ∈ q.registry.reserved
  fresh : ∀ r n, q.name? r = some n → p.name? r = some n ∨ n ∉ p.registry.reserved

variable {p q : Pass} {r : String}

theorem Stands.refl (p : Pass) : p.Stands p := ⟨fun _ _ h => h, fun _ h => h, fun _ _ h => .inl h⟩

theorem Stands.trans {z : Pass} (h₁ : p.Stands q) (h₂ : q.Stands z) : p.Stands z := by
  refine ⟨fun r n h => h₂.known r n (h₁.known r n h), fun n h => h₂.reserved n (h₁.reserved n h),
    fun r n h => ?_⟩
  rcases h₂.fresh r n h with h | h
  · exact h₁.fresh r n h
  · exact .inr fun hn => h (h₁.reserved n hn)

/-- The chain of aliases is of no concern here. -/
theorem Stands.congr {z : Pass} (h : p.Stands q) (hr : z.registry = q.registry)
    (hn : z.names = q.names) : p.Stands z := by
  obtain ⟨registry, names, aliasing⟩ := z
  subst hr hn
  exact ⟨h.known, h.reserved, h.fresh⟩

theorem stands_enumStable : Resolver.EnumStable p.Stands := by
  intro q name vs hq
  refine ⟨hq.known, fun n hn => ?_, hq.fresh⟩
  rw [Registry.reserved_register]
  exact hq.reserved n hn

theorem Stands.promised (h : p.Stands q) (hr : q.name? r = none) (name : String) :
    p.Stands (q.promised r name) := by
  obtain ⟨k, -, hv, hk⟩ := Registry.reserve_cases q.registry name
  refine ⟨fun s n hs => (grows_promised hr).names s n (h.known s n hs), fun n hn => ?_,
    fun s n hs => ?_⟩
  · simp only [Pass.promised, hk]
    exact List.mem_cons_of_mem _ (h.reserved n hn)
  · rw [name?_promised, hk] at hs
    split_ifs at hs
    · obtain rfl := Option.some.inj hs
      exact .inr fun hn => (Registry.vacant_iff.mp hv).2 (h.reserved _ hn)
    · exact h.fresh s n hs

/-- Keeping the promise that was given to a reference since `p` breaks none of those in `p`. -/
theorem Stands.fill {n : String} (h : p.Stands q) (hp : p.name? r = none) (hr : q.name? r = some n)
    (d : Definition) : p.Stands { q with registry := q.registry.fill n d } := by
  refine ⟨h.known, fun m hm => ?_, h.fresh⟩
  have hne : m ≠ n := by
    rintro rfl
    rcases h.fresh r m hr with hold | hnew
    · simp [hp] at hold
    · exact hnew hm
  exact (List.mem_erase_of_ne hne).mpr (h.reserved m hm)

end Pass

namespace Resolver

open Pass

variable {schemas : List (String × RefOr Schema)} {base : Registry}
  {onRef : String → Resolver TypeExpr} {r name : String} {p q : Pass}

/-- However working out a reference ends, all that was promised still is. -/
def Keeps (schemas : List (String × RefOr Schema)) (base : Registry)
    (onRef : String → Resolver TypeExpr) (r : String) : Prop :=
  ∀ p q : Pass, q.Sound schemas (fun _ => True) base → p.Stands q → p.Stands (onRef r q).2

theorem Keeps.named (h : Keeps schemas base onRef r)
    (hexp : Expands schemas (fun _ => True) base onRef r) (p q : Pass) :
    Outline.Named (fun z => q.Completes schemas (fun _ => True) base z ∧ p.Stands z)
      (fun _ z => p.Stands z) onRef r := by
  refine hexp.named_and fun z hz hstands => ?_
  have hkept := h p z hz.sound hstands
  rcases hrun : onRef r z with ⟨e | t, y⟩
  all_goals
    rw [hrun] at hkept
    exact hkept

theorem completes_and_stands_enumStable :
    EnumStable fun z => q.Completes schemas (fun _ => True) base z ∧ p.Stands z :=
  fun z name vs hz => ⟨completes_enumStable z name vs hz.1, stands_enumStable z name vs hz.2⟩

section

variable (hexp : ∀ r, Expands schemas (fun _ => True) base onRef r)
  (hkeeps : ∀ r, Keeps schemas base onRef r)

include hexp hkeeps

theorem shapeOf_stands (hq : q.Sound schemas (fun _ => True) base) (h : p.Stands q) (r name : String)
    (target : RefOr Schema) : p.Stands (shapeOf onRef r name target q).2 := by
  cases target with
  | ref next =>
    rcases hshape : shapeOf onRef r name (.ref next) q with ⟨result, z⟩
    obtain ⟨-, -, rfl⟩ | ⟨-, result', y, hrun, -, rfl⟩ := shapeOf_ref_cases hshape
    · exact h
    · have hy := hkeeps next p { q with aliasing := r :: q.aliasing } (hq.congr rfl rfl)
        (h.congr rfl rfl)
      rw [hrun] at hy
      exact hy.congr rfl rfl
  | inline s =>
    have hinside : Sound schemas (fun _ => True) base { q with aliasing := [] } := hq.congr rfl rfl
    have hruns := s.shape.resolve_runs completes_and_stands_enumStable name
      fun r _ => (hkeeps r).named (hexp r) p { q with aliasing := [] }
    rw [shapeOf_inline_apply, Schema.define_eq]
    exact (hruns.kept (.refl hinside) (h.congr rfl rfl)).congr rfl rfl

theorem workOut_stands (hq : q.Sound schemas (fun _ => True) base) (h : p.Stands q)
    (hnone : q.name? r = none) : p.Stands (workOut schemas onRef r q).2 := by
  rcases hrun : workOut schemas onRef r q with ⟨result, z⟩
  obtain ⟨e, -, -, rfl⟩ | ⟨c, target, hpoints, result', y, hshape, hresult⟩ := workOut_cases hrun
  · exact h
  · have hpromised := hq.promised hnone trivial hpoints
    have hshaped {p : Pass} (hp : p.Stands (q.promised r (capitalCase c))) : p.Stands y := by
      have hy := shapeOf_stands hexp hkeeps hpromised hp r
        (q.registry.reserve (capitalCase c)).1 target
      rwa [hshape] at hy
    have hy : p.Stands y := hshaped (h.promised hnone _)
    obtain ⟨e, -, -, rfl⟩ | ⟨d, -, -, rfl⟩ := hresult
    · exact hy
    · have hp : p.name? r = none := by
        by_contra hsome
        obtain ⟨n, hn⟩ := Option.ne_none_iff_exists'.mp hsome
        simp [h.known r n hn] at hnone
      have hname := (hshaped (.refl _)).known r _ ((name?_promised q r (capitalCase c) r).trans
        (if_pos rfl))
      exact hy.fill hp hname d

/-- A reference that fails names no component, or its failure leaves its promise. -/
theorem workOut_failed {e : ReferenceError} (hq : q.Sound schemas (fun _ => True) base)
    (hnone : q.name? r = none) {z : Pass} (h : workOut schemas onRef r q = (.error e, z)) :
    Reference.Missing schemas r e ∨ ∃ c target, Reference.Points schemas r c target ∧
      (q.promised r (capitalCase c)).Stands z := by
  obtain ⟨e', hmissing, he, -⟩ | ⟨c, target, hpoints, result, y, hshape, hresult⟩ := workOut_cases h
  · exact .inl (Except.error.inj he ▸ hmissing)
  · have hy := shapeOf_stands hexp hkeeps (hq.promised hnone trivial hpoints) (.refl _) r
      (q.registry.reserve (capitalCase c)).1 target
    rw [hshape] at hy
    obtain ⟨e', -, -, rfl⟩ | ⟨d, -, hd, -⟩ := hresult
    · exact .inr ⟨c, target, hpoints, hy⟩
    · cases hd

end

theorem expand_keeps (levels : Nat) (r : String) :
    Keeps schemas base (expand schemas levels) r := by
  induction levels generalizing r with
  | zero =>
    intro p q hq h
    cases hn : q.name? r with
    | some n => rwa [expand_of_name? hn]
    | none => rwa [expand_zero hn]
  | succ levels ih =>
    intro p q hq h
    cases hn : q.name? r with
    | some n => rwa [expand_of_name? hn]
    | none =>
      rw [expand_succ hn]
      exact workOut_stands (fun r => expand_sound closedUnder_all levels trivial) ih hq h hn

/-! ### Calls -/

/-- A call on a resolver. -/
inductive Call where
  | reference (r : String)
  | schema (s : Option (RefOr Schema)) (key parent : String)

namespace Call

variable {call : Call} {calls : List Call}

def run (schemas : List (String × RefOr Schema)) : Call → Resolver TypeExpr
  | .reference r => Resolver.reference schemas r
  | .schema s key parent => schema? schemas s key parent

/-- The state after some calls, whether they end well or not. -/
def runAll (schemas : List (String × RefOr Schema)) : List Call → Pass → Pass
  | [], p => p
  | call :: calls, p => runAll schemas calls (call.run schemas p).2

theorem outcome (call : Call) (hp : p.Sound schemas (fun _ => True) base) :
    Outcome (fun t q => p.Completes schemas (fun _ => True) base q ∧ q.Typed t)
      (fun _ q => p.Follows schemas (fun _ => True) base q) (call.run schemas p) := by
  cases call with
  | reference r =>
    exact (schema?_outcome hp (some (.ref r)) r r).mono (fun _ _ h => ⟨h.1, _, h.2⟩) fun _ _ h => h
  | schema s key parent =>
    exact (schema?_outcome hp s key parent).mono (fun _ _ h => ⟨h.1, _, h.2⟩) fun _ _ h => h

theorem follows (call : Call) (hp : p.Sound schemas (fun _ => True) base) :
    p.Follows schemas (fun _ => True) base (call.run schemas p).2 :=
  (call.outcome hp).either (fun _ _ h => h.1.toFollows) fun _ _ h => h

theorem stands (call : Call) (hp : p.Sound schemas (fun _ => True) base) :
    p.Stands (call.run schemas p).2 := by
  have hkeeps (r : String) : Keeps schemas base (Resolver.reference schemas) r := expand_keeps _ r
  cases call with
  | reference r => exact hkeeps r p p hp (.refl p)
  | schema s key parent =>
    have hruns := Outline.resolve_runs completes_and_stands_enumStable (Schema.outlineOf? s) key
      parent fun r _ => (hkeeps r).named (reference_expands closedUnder_all trivial) p p
    rw [run, schema?_eq]
    exact hruns.kept (.refl hp) (.refl p)

theorem runAll_sound (hp : p.Sound schemas (fun _ => True) base) (calls : List Call) :
    (runAll schemas calls p).Sound schemas (fun _ => True) base := by
  induction calls generalizing p with
  | nil => exact hp
  | cons call calls ih => exact ih (call.follows hp).sound

theorem runAll_stands (hp : p.Sound schemas (fun _ => True) base) (calls : List Call) :
    p.Stands (runAll schemas calls p) := by
  induction calls generalizing p with
  | nil => exact .refl p
  | cons call calls ih => exact (call.stands hp).trans (ih (call.follows hp).sound)

/-- One of the calls has failed while the name was promised. -/
def Abandons (schemas : List (String × RefOr Schema)) (n : String) : List Call → Pass → Prop
  | [], _ => False
  | call :: calls, p =>
    ((∃ e, (call.run schemas p).1 = .error e) ∧ n ∉ p.registry.reserved ∧
        n ∈ (call.run schemas p).2.registry.reserved) ∨
      Abandons schemas n calls (call.run schemas p).2

/-- Only calls that fail leave promises. -/
theorem mem_reserved_run_iff {n : String} (hp : p.Sound schemas (fun _ => True) base) :
    n ∈ (call.run schemas p).2.registry.reserved ↔ n ∈ p.registry.reserved ∨
      (∃ e, (call.run schemas p).1 = .error e) ∧ n ∉ p.registry.reserved ∧
        n ∈ (call.run schemas p).2.registry.reserved := by
  have hx := call.outcome hp
  have hstands := call.stands hp
  rcases hrun : call.run schemas p with ⟨e | t, q⟩
  · rw [hrun] at hstands
    have hkept := hstands.reserved n
    simp only [Except.error.injEq, exists_eq', true_and]
    tauto
  · rw [hrun] at hx
    simp [hx.1.reserved]

theorem mem_reserved_runAll_iff {n : String} (hp : p.Sound schemas (fun _ => True) base) :
    n ∈ (runAll schemas calls p).registry.reserved ↔
      n ∈ p.registry.reserved ∨ Abandons schemas n calls p := by
  induction calls generalizing p with
  | nil => simp [runAll, Abandons]
  | cons call calls ih =>
    rw [runAll, Abandons, ih (call.follows hp).sound, ← or_assoc]
    exact or_congr_left (mem_reserved_run_iff hp)

/-- A name in the answer to a call holds a shape exactly if it was not promised before the call. -/
theorem holds_iff {t : TypeExpr} {n : String} (hp : p.Sound schemas (fun _ => True) base)
    (h : call.run schemas p = (.ok t, q)) (hn : t.Mentions n) :
    (∃ d, q.registry.get? n = some d) ↔ n ∉ p.registry.reserved := by
  have hx := call.outcome hp
  rw [h] at hx
  obtain ⟨hq, o, ho⟩ := hx
  rw [← hq.reserved]
  constructor
  · rintro ⟨d, hd⟩ hmem
    simp [hq.sound.ordered.unfilled n hmem] at hd
  · intro hmem
    rcases ho.mentions hn with ⟨r, hr⟩ | ⟨vs, ws, hws, -⟩
    · exact (hq.sound.known r n hr).resolve_left hmem
    · exact ⟨_, hws⟩

/-- The names in the answer to a call were not promised when the resolver was made. -/
theorem not_promised {g : Registry} {t : TypeExpr} {n : String} (hg : g.Ordered)
    (h : call.run schemas (runAll schemas calls { registry := g }) = (.ok t, q))
    (hn : t.Mentions n) : n ∉ g.reserved := by
  intro hmem
  have hstart : Sound schemas (fun _ => True) g { registry := g } := .start hg
  have hp := runAll_sound hstart calls
  have hstands : Stands { registry := g } q := by
    have hq := call.stands hp
    rw [h] at hq
    exact (runAll_stands hstart calls).trans hq
  have hx := call.outcome hp
  rw [h] at hx
  obtain ⟨hq, o, ho⟩ := hx
  rcases ho.mentions hn with ⟨r, hr⟩ | ⟨vs, ws, hws, -⟩
  · rcases hstands.fresh r n hr with hold | hnew
    · cases hold
    · exact hnew hmem
  · simp [hq.sound.ordered.unfilled n (hstands.reserved n hmem)] at hws

/-- A reference that has failed names no component, or the name that it got is promised for good. -/
theorem failed_cases {e : ReferenceError} (hp : p.Sound schemas (fun _ => True) base)
    (h : Resolver.reference schemas r p = (.error e, q)) :
    Reference.Missing schemas r e ∨ (∃ c target, Reference.Points schemas r c target) ∧
      ∃ n, q.name? r = some n ∧ n ∈ q.registry.reserved := by
  have hexpands : Expands schemas (fun _ => True) base (Resolver.reference schemas) r :=
    reference_expands closedUnder_all trivial
  have hnone : p.name? r = none := (hexpands.error hp h).2
  rw [Resolver.reference, levels, expand_succ hnone] at h
  rcases workOut_failed (fun _ => expand_sound closedUnder_all _ trivial) (expand_keeps _) hp hnone h
    with hmissing | ⟨c, target, hpoints, hstands⟩
  · exact .inl hmissing
  · obtain ⟨k, -, -, hk⟩ := Registry.reserve_cases p.registry (capitalCase c)
    refine .inr ⟨⟨c, target, hpoints⟩, _,
      hstands.known r _ ((name?_promised ..).trans (if_pos rfl)), hstands.reserved _ ?_⟩
    simp [promised, hk]

/-- A reference that names no component fails at once. -/
theorem fails_of_missing {e : ReferenceError} (hp : p.Sound schemas (fun _ => True) base)
    (h : Reference.Missing schemas r e) : ∃ e', Resolver.reference schemas r p = (.error e', p) := by
  have hnone : p.name? r = none := by
    by_contra hsome
    obtain ⟨n, hn⟩ := Option.ne_none_iff_exists'.mp hsome
    obtain ⟨-, c, target, hpoints, -⟩ := hp.faithful r n hn
    exact h.not_points hpoints
  rcases hrun : Resolver.reference schemas r p with ⟨result, q⟩
  rw [Resolver.reference, levels, expand_succ hnone] at hrun
  obtain ⟨e', -, rfl, rfl⟩ | ⟨c, target, hpoints, -⟩ := workOut_cases hrun
  · exact ⟨e', rfl⟩
  · exact absurd hpoints h.not_points

end Call

end Resolver

/-! ### Calls on a registry -/

namespace Registry

open Pass Resolver

variable {g h : Registry} {ok : Bool}

/-- One more call on a registry, and whether it ends well: a registration, a pass over a description,
or a call on a resolver that uses the registry. -/
inductive Call : Registry → Bool → Registry → Prop
  | register (g : Registry) (name : String) (d : Definition) : Call g true (g.register name d).2
  | endpoints (g : Registry) (d : Document) : Call g (d.endpoints g).1.isOk (d.endpoints g).2
  | resolver {schemas : List (String × RefOr Schema)} {p : Pass} (call : Resolver.Call) :
    Reached schemas p →
      Call p.registry (call.run schemas p).1.isOk (call.run schemas p).2.registry

/-- All that a call can do to the shapes and the promises of a registry. -/
structure Appends (g : Registry) (ok : Bool) (h : Registry) : Prop where
  kept : g.Kept h
  ordered : h.Ordered
  reserved : ok = true → h.reserved = g.reserved

theorem appends_of_outcome {schemas : List (String × RefOr Schema)} {base : Registry} {p : Pass}
    {α : Type} {x : Except ReferenceError α × Pass}
    (hx : Outcome (fun _ q => p.Completes schemas (fun _ => True) base q)
      (fun _ q => p.Follows schemas (fun _ => True) base q) x) :
    p.registry.Appends x.1.isOk x.2.registry := by
  obtain ⟨e | a, q⟩ := x
  · exact ⟨hx.grows.registry, hx.sound.ordered, fun hok => absurd hok Bool.false_ne_true⟩
  · exact ⟨hx.grows.registry, hx.sound.ordered, fun _ => hx.reserved⟩

theorem Call.appends (hg : g.Arises) (hcall : Call g ok h) : g.Appends ok h := by
  cases hcall with
  | register _ name d =>
    exact ⟨kept_register g name d, hg.ordered.register name d, fun _ => reserved_register g name d⟩
  | endpoints _ d => exact appends_of_outcome (endpoints_outcome d hg.ordered)
  | resolver call hp =>
    obtain ⟨base, hsound⟩ := hp.sound
    exact appends_of_outcome ((call.outcome hsound).mono (fun _ _ hq => hq.1) fun _ _ hq => hq)

theorem Call.arises (hg : g.Arises) (hcall : Call g ok h) : h.Arises := by
  cases hcall with
  | register _ name d => exact hg.register name d
  | endpoints _ d => exact hg.endpoints d
  | resolver call hp =>
    cases call with
    | reference r => exact .resolver (hp.reference r)
    | schema s key parent => exact .resolver (hp.schema s key parent)

/-- Whatever has been done to a registry before: a call leaves each shape under its name, gives no name
both a shape and a promise, and leaves the promises as they are if it ends well. -/
theorem append_only (hg : g.Arises) (hcall : Call g ok h) :
    (∀ n d, g.get? n = some d → h.get? n = some d) ∧ h.names.Disjoint h.reserved ∧
      (ok = true → h.reserved = g.reserved) := by
  obtain ⟨hkept, hordered, hreserved⟩ := hcall.appends hg
  refine ⟨hkept, fun n hn hmem => ?_, hreserved⟩
  exact get?_eq_none_iff.mp (hordered.unfilled n hmem) hn

theorem append_only_taken :
    ∃ g h : Registry, g.Arises ∧ Call g true h ∧ g.names = ["Note"] ∧ h.names = ["Note", "Note2"] ∧
      (∀ n d, g.get? n = some d → h.get? n = some d) ∧ h.reserved = [] := by
  let g : Registry := (Registry.empty.register "Note" (.enum [.str "short"])).2
  let schemas : List (String × RefOr Schema) :=
    [("note", .inline { type := some (.single "string") })]
  let call : Resolver.Call := .reference "#/components/schemas/note"
  have hg : g.Arises := .register "Note" _ .empty
  have hcall : Call g _ (call.run schemas { registry := g }).2.registry :=
    .resolver call (.fresh hg)
  have hok : (call.run schemas { registry := g }).1.isOk = true := by decide +kernel
  rw [hok] at hcall
  obtain ⟨hkept, -, hreserved⟩ := append_only hg hcall
  refine ⟨g, _, hg, hcall, by decide +kernel, by decide +kernel, hkept, (hreserved rfl).trans ?_⟩
  decide +kernel

/-- A shape stays under its name through all calls to come. -/
theorem get?_of_calls (hg : g.Arises) {n : String} {d : Definition} (hn : g.get? n = some d)
    (hcalls : Relation.ReflTransGen (fun g h => ∃ ok, Call g ok h) g h) : h.get? n = some d := by
  suffices h.Arises ∧ h.get? n = some d from this.2
  induction hcalls with
  | refl => exact ⟨hg, hn⟩
  | tail _ hcall ih =>
    obtain ⟨ok, hcall⟩ := hcall
    exact ⟨hcall.arises ih.1, (hcall.appends ih.1).kept n d ih.2⟩

end Registry

/-! ### Calls after failures -/

namespace Resolver

open Pass

/-- A resolver after calls that have failed. A name in the answer to a call holds no shape exactly if
it was promised in one of them. A reference that has failed fails again exactly if it names no
component; else its name is the answer, and never holds a shape. -/
theorem answers_after_failures {g : Registry} (hg : g.Arises) (schemas : List (String × RefOr Schema))
    (calls : List Call) :
    (∀ call t q, Call.run schemas call (Call.runAll schemas calls { registry := g }) = (.ok t, q) →
      ∀ n, t.Mentions n →
        ((∃ d, q.registry.get? n = some d) ↔ ¬ Call.Abandons schemas n calls { registry := g })) ∧
    ∀ r e q, reference schemas r (Call.runAll schemas calls { registry := g }) = (.error e, q) →
      ∀ later,
        ((∃ e', (reference schemas r (Call.runAll schemas later q)).1 = .error e') ↔
          Reference.Missing schemas r e) ∧
        (¬ Reference.Missing schemas r e →
          ∃ n, (reference schemas r (Call.runAll schemas later q)).1 = .ok (.named n) ∧
            (Call.runAll schemas later q).registry.get? n = none) := by
  have hstart : Sound schemas (fun _ => True) g { registry := g } := .start hg.ordered
  have hp := Call.runAll_sound hstart calls
  refine ⟨fun call t q h n hn => ?_, fun r e q h later => ?_⟩
  · rw [Call.holds_iff hp h hn, Call.mem_reserved_runAll_iff hstart, not_or]
    exact and_iff_right (Call.not_promised hg.ordered h hn)
  · have hq : q.Sound schemas (fun _ => True) g := by
      have hfollows := (Call.reference r).follows hp
      rw [Call.run, h] at hfollows
      exact hfollows.sound
    have hz := Call.runAll_sound hq later
    rcases Call.failed_cases hp h with hmissing | ⟨⟨c, target, hpoints⟩, n, hn, hreserved⟩
    · obtain ⟨e', he'⟩ := Call.fails_of_missing hz hmissing
      exact ⟨iff_of_true ⟨e', congrArg Prod.fst he'⟩ hmissing, fun hnot => absurd hmissing hnot⟩
    · have hstands := Call.runAll_stands hq later
      have hnamed : reference schemas r (Call.runAll schemas later q) =
          (.ok (.named n), Call.runAll schemas later q) := expand_of_name? (hstands.known r n hn) _
      have hnot : ¬ Reference.Missing schemas r e := fun hmissing => hmissing.not_points hpoints
      rw [hnamed]
      refine ⟨iff_of_false (by simp) hnot, fun _ => ⟨n, rfl, ?_⟩⟩
      exact hz.ordered.unfilled n (hstands.reserved n hreserved)

/-- A component that is another name for itself. -/
def loopSchemas : List (String × RefOr Schema) := [("a", .ref "#/components/schemas/a")]

theorem answers_after_failures_loop :
    Registry.Arises .empty ∧
      Call.Abandons loopSchemas "A" [.reference "#/components/schemas/a"] { registry := .empty } := by
  let p : Pass := { registry := ⟨[], ["A"]⟩, names := [("#/components/schemas/a", "A")] }
  have hp : Call.runAll loopSchemas [.reference "#/components/schemas/a"] { registry := .empty } = p :=
    by cbv
  have hrun : Call.run loopSchemas (.reference "#/components/schemas/a") p =
    (.ok (.named "A"), p) := by cbv
  have hempty : p.registry.get? "A" = none := rfl
  obtain ⟨hholds, -⟩ := answers_after_failures .empty loopSchemas
    [.reference "#/components/schemas/a"]
  have hiff := hholds (.reference "#/components/schemas/a") (.named "A") p (hp ▸ hrun) "A" .named
  refine ⟨.empty, ?_⟩
  by_contra hnot
  obtain ⟨d, hd⟩ := hiff.mpr hnot
  simp [hempty] at hd

/-- A reference that leads back to itself fails, and is answered with a name without a shape when it is
resolved once more. -/
theorem loop_is_forgotten :
    ∃ p, reference loopSchemas "#/components/schemas/a" { registry := .empty } =
        (.error (.cycle "#/components/schemas/a"), p) ∧
      reference loopSchemas "#/components/schemas/a" p = (.ok (.named "A"), p) ∧
      p.registry.get? "A" = none :=
  ⟨{ registry := ⟨[], ["A"]⟩, names := [("#/components/schemas/a", "A")] }, by cbv, by cbv, by cbv⟩

end Resolver

end ApiClient

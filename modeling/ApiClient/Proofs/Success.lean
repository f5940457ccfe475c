import ApiClient.Proofs.References
import ApiClient.Proofs.Translation

/-! When a schema can be resolved. A failure tells what is wrong with one of the references that the
schema reaches; where nothing is wrong with any of them, there is no failure. -/

namespace ApiClient

/-! ### Failures and their causes -/

/-- The error says what is wrong with one of the references that are met. -/
inductive ReferenceError.Caused (schemas : List (String × RefOr Schema)) (Met : String → Prop) :
    ReferenceError → Prop
  | missing {r : String} {e : ReferenceError} :
    Met r → Reference.Missing schemas r e → Caused schemas Met e
  | cycle {r : String} :
    Met r → Relation.TransGen (fun a b => Reference.next? schemas a = some b) r r →
      Caused schemas Met (.cycle r)

theorem ReferenceError.Caused.mono {schemas : List (String × RefOr Schema)} {Met Met' : String → Prop}
    {e : ReferenceError} (h : e.Caused schemas Met) (hmet : ∀ r, Met r → Met' r) :
    e.Caused schemas Met' := by
  cases h with
  | missing hr he => exact .missing (hmet _ hr) he
  | cycle hr hloop => exact .cycle (hmet _ hr) hloop

namespace Pass

variable {schemas : List (String × RefOr Schema)} {p q : Pass} {r : String}

/-- Those of the references `rs` that have no name yet. -/
def unmet (rs : Finset String) (p : Pass) : Finset String := rs.filter fun r => p.name? r = none

theorem unmet_subset (h : ∀ r n, p.name? r = some n → q.name? r = some n) (rs : Finset String) :
    q.unmet rs ⊆ p.unmet rs := by
  intro r hr
  obtain ⟨hmem, hnone⟩ := Finset.mem_filter.mp hr
  refine Finset.mem_filter.mpr ⟨hmem, ?_⟩
  by_contra hsome
  obtain ⟨n, hn⟩ := Option.ne_none_iff_exists'.mp hsome
  simp [h r n hn] at hnone

theorem Grows.unmet_subset (h : p.Grows q) (rs : Finset String) : q.unmet rs ⊆ p.unmet rs :=
  Pass.unmet_subset h.names rs

theorem unmet_promised_ssubset {rs : Finset String} (name : String) (hr : r ∈ rs) (hnone : p.name? r = none) :
    (p.promised r name).unmet rs ⊂ p.unmet rs := by
  refine Finset.ssubset_iff_subset_ne.mpr ⟨(grows_promised hnone).unmet_subset rs, fun heq => ?_⟩
  have hmem : r ∈ p.unmet rs := Finset.mem_filter.mpr ⟨hr, hnone⟩
  rw [← heq] at hmem
  simpa [name?_promised] using (Finset.mem_filter.mp hmem).2

/-- All that is being followed leads to `r`. -/
def Comes (schemas : List (String × RefOr Schema)) (p : Pass) (r : String) : Prop :=
  ∀ s ∈ p.aliasing, Relation.TransGen (fun a b => Reference.next? schemas a = some b) s r

theorem Comes.next {schemas : List (String × RefOr Schema)} {next : String} (h : p.Comes schemas r)
    (hnext : Reference.next? schemas r = some next) :
    ∀ s ∈ r :: p.aliasing, Relation.TransGen (fun a b => Reference.next? schemas a = some b) s next := by
  intro s hs
  rcases List.mem_cons.mp hs with rfl | hs
  · exact .single hnext
  · exact .tail (h s hs) hnext

end Pass

namespace Resolver

open Reference Pass

variable {schemas : List (String × RefOr Schema)} {Met : String → Prop} {base : Registry}
  {onRef : String → Resolver TypeExpr} {r name : String} {p q : Pass} {rs : Finset String}
  {levels : Nat} {e : ReferenceError}

/-- With room for all references that have no name yet, a failure has its cause in one of those that
are met. -/
def Explains (schemas : List (String × RefOr Schema)) (Met : String → Prop) (base : Registry)
    (rs : Finset String) (levels : Nat) (onRef : String → Resolver TypeExpr) (r : String) : Prop :=
  ∀ p : Pass, p.Sound schemas (fun _ => True) base → p.Comes schemas r →
    (p.unmet rs).card ≤ levels → ∀ e q, onRef r p = (.error e, q) → e.Caused schemas Met

/-- A chain of references fails where it comes back to one of them. -/
theorem shapeOf_ref_explains {next : String}
    (hexplains : Explains schemas Met base rs levels onRef next) (hmet : Met next)
    (hnext : next? schemas r = some next) (hp : p.Sound schemas (fun _ => True) base)
    (hcomes : p.Comes schemas r) (hroom : (p.unmet rs).card ≤ levels)
    (h : shapeOf onRef r name (.ref next) p = (.error e, q)) : e.Caused schemas Met := by
  have hcomes' := hcomes.next hnext
  obtain ⟨hmem, he, -⟩ | ⟨-, result, z, hrun, hresult, -⟩ := shapeOf_ref_cases h
  · obtain rfl := Except.error.inj he
    exact .cycle hmet (hcomes' next hmem)
  · cases result with
    | ok t => cases hresult
    | error e' =>
      obtain rfl := Except.error.inj hresult
      exact hexplains { p with aliasing := r :: p.aliasing } (hp.congr rfl rfl) hcomes' hroom _ _ hrun

/-- Inside of a structure no reference is being followed. -/
theorem Explains.named (h : Explains schemas Met base rs levels onRef r)
    (hexp : Expands schemas (fun _ => True) base onRef r) (hp : p.aliasing = [])
    (hroom : (p.unmet rs).card ≤ levels) :
    Outline.Named (p.Completes schemas (fun _ => True) base) (fun e _ => e.Caused schemas Met)
      onRef r := by
  refine hexp.named_of_error fun q hq e z hrun => ?_
  have hcomes : q.Comes schemas r := by simp [Comes, hq.aliasing, hp]
  have hroom' : (q.unmet rs).card ≤ levels :=
    (Finset.card_le_card (hq.grows.unmet_subset rs)).trans hroom
  exact h q hq.sound hcomes hroom' e z hrun

theorem workOut_explains (hclosed : ClosedUnder schemas Met) (hmem : ∀ r, Met r → r ∈ rs)
    (hexp : ∀ r, Expands schemas (fun _ => True) base onRef r)
    (hexplains : ∀ r, Met r → Explains schemas Met base rs levels onRef r) (hr : Met r)
    (hp : p.Sound schemas (fun _ => True) base) (hnone : p.name? r = none)
    (hcomes : p.Comes schemas r) (hroom : (p.unmet rs).card ≤ levels + 1)
    (h : workOut schemas onRef r p = (.error e, q)) : e.Caused schemas Met := by
  obtain ⟨e', hmissing, he, -⟩ | ⟨c, target, hpoints, result, z, hshape, hresult⟩ := workOut_cases h
  · obtain rfl := Except.error.inj he
    exact .missing hr hmissing
  · obtain ⟨e', rfl, he, -⟩ | ⟨d, -, he, -⟩ := hresult
    · obtain rfl := Except.error.inj he
      have hpromised := hp.promised hnone trivial hpoints
      have hlater (s : String) (hs : s ∈ target.shape.refs) : Met s := hclosed r c target hr hpoints s hs
      -- the name just given makes room for one level less
      have hroom' : ((p.promised r (capitalCase c)).unmet rs).card ≤ levels := by
        have hlt := Finset.card_lt_card (unmet_promised_ssubset (capitalCase c) (hmem r hr) hnone)
        omega
      cases target with
      | ref next =>
        have hnext : next? schemas r = some next := next?_eq_some_iff.mpr ⟨c, hpoints⟩
        have hmet : Met next := hlater next List.mem_cons_self
        exact shapeOf_ref_explains (hexplains next hmet) hmet hnext hpromised hcomes hroom' hshape
      | inline s =>
        let inside : Pass := { p.promised r (capitalCase c) with aliasing := [] }
        have hinside : inside.Sound schemas (fun _ => True) base := hpromised.congr rfl rfl
        have hruns := s.shape.resolve_runs completes_enumStable
          (p.registry.reserve (capitalCase c)).1
          fun r hr => (hexplains r (hlater r hr)).named (hexp r) (p := inside) rfl hroom'
        rw [shapeOf_inline_apply, Schema.define_eq] at hshape
        exact hruns.error (.refl hinside) (Prod.ext (Prod.mk.inj hshape).1 rfl)
    · cases he

theorem expand_explains (hclosed : ClosedUnder schemas Met) (hmem : ∀ r, Met r → r ∈ rs)
    (levels : Nat) {r : String} (hr : Met r) :
    Explains schemas Met base rs levels (expand schemas levels) r := by
  induction levels generalizing r with
  | zero =>
    intro p hp hcomes hroom e q h
    have hexpands : Expands schemas (fun _ => True) base (expand schemas 0) r :=
      expand_sound closedUnder_all 0 trivial
    have hmet : r ∈ p.unmet rs := Finset.mem_filter.mpr ⟨hmem r hr, (hexpands.error hp h).2⟩
    exact absurd hroom (Nat.not_le_of_lt (Finset.card_pos.mpr ⟨r, hmet⟩))
  | succ levels ih =>
    intro p hp hcomes hroom e q h
    have hexpands (levels : Nat) (r : String) :
        Expands schemas (fun _ => True) base (expand schemas levels) r :=
      expand_sound closedUnder_all levels trivial
    have hnone := ((hexpands (levels + 1) r).error hp h).2
    rw [expand_succ hnone] at h
    exact workOut_explains hclosed hmem (hexpands levels) (fun r hr => ih hr) hr hp hnone hcomes
      hroom h

/-- There are levels enough for all references that one reference reaches. -/
theorem reference_explains (hp : p.Sound schemas (fun _ => True) base) (haliasing : p.aliasing = [])
    (h : reference schemas r p = (.error e, q)) :
    e.Caused schemas ((Outline.ref r).Reaches schemas) := by
  let rs := insert r (Schema.referencesOfFields schemas).toFinset
  have hmem (s : String) (hs : (Outline.ref r).Reaches schemas s) : s ∈ rs := by
    cases hs with
    | own hs => exact Finset.mem_insert.mpr (.inl (List.mem_singleton.mp hs))
    | through _ hpoints hs =>
      exact Finset.mem_insert.mpr (.inr (List.mem_toFinset.mpr (hpoints.mem_references hs)))
  have hroom : (p.unmet rs).card ≤ levels schemas := by
    have hunmet : (p.unmet rs).card ≤ rs.card := Finset.card_filter_le _ _
    have hinsert : rs.card ≤ (Schema.referencesOfFields schemas).toFinset.card + 1 :=
      Finset.card_insert_le _ _
    have hlist := List.toFinset_card_le (Schema.referencesOfFields schemas)
    rw [levels]
    omega
  have hcomes : p.Comes schemas r := by simp [Comes, haliasing]
  exact expand_explains (reaches_closed _) hmem (levels schemas) (.own List.mem_cons_self) p hp hcomes
    hroom e q h

end Resolver

/-! ### Success -/

theorem Outline.Reaches.of_ref {schemas : List (String × RefOr Schema)} {o : Outline} {r s : String}
    (h : (Outline.ref r).Reaches schemas s) (hr : r ∈ o.refs) : o.Reaches schemas s := by
  induction h with
  | own hs => exact .own (List.mem_singleton.mp hs ▸ hr)
  | through _ hpoints hs ih => exact .through ih hpoints hs

/-- What has caused a failure is not sane. -/
theorem ReferenceError.Caused.exists_not_sane {schemas : List (String × RefOr Schema)}
    {Met : String → Prop} {e : ReferenceError} (h : e.Caused schemas Met) :
    ∃ r, Met r ∧ ¬ Reference.Sane schemas r := by
  cases h with
  | missing hr hmissing => exact ⟨_, hr, fun ⟨c, target, hpoints, _⟩ => hmissing.not_points hpoints⟩
  | cycle hr hloop =>
    refine ⟨_, hr, fun ⟨c, target, hpoints, hnot⟩ => ?_⟩
    exact hnot (Reference.refersTo_of_next? hloop hpoints.1 hpoints.1)

namespace Resolver

open Reference Pass

variable {schemas : List (String × RefOr Schema)} {base : Registry} {p : Pass} {r n : String}

/-- What has a name at the end of a pass is sane. -/
theorem sane_of_settled (hp : p.Sound schemas (fun _ => True) base) (hsettled : p.Settled schemas)
    (haliasing : p.aliasing = []) (hn : p.name? r = some n) : Sane schemas r := by
  obtain ⟨-, c, target, hpoints, -⟩ := hp.faithful r n hn
  have hends : Ends (next? schemas) r := (hsettled r n hn).resolve_right (by simp [haliasing])
  exact ⟨c, target, hpoints, not_onLoop_of_ends hends hpoints.1⟩

theorem reference_settled_named (schemas : List (String × RefOr Schema)) (base : Registry)
    (haliasing : p.aliasing = []) (r : String) :
    Outline.Named (fun q => p.Completes schemas (fun _ => True) base q ∧ q.Settled schemas)
      (fun _ _ => True) (reference schemas) r :=
  (expand_settles (levels schemas) r).named (reference_expands closedUnder_all trivial) haliasing

theorem reference_caused_named (schemas : List (String × RefOr Schema)) (base : Registry)
    {Met : String → Prop} (haliasing : p.aliasing = [])
    (hmet : ∀ s, (Outline.ref r).Reaches schemas s → Met s) :
    Outline.Named (p.Completes schemas (fun _ => True) base) (fun e _ => e.Caused schemas Met)
      (reference schemas) r := by
  have hexpands : Expands schemas (fun _ => True) base (reference schemas) r :=
    reference_expands closedUnder_all trivial
  refine hexpands.named_of_error fun q hq e z hrun => ?_
  exact (reference_explains hq.sound (hq.aliasing.trans haliasing) hrun).mono hmet

/-- A schema is resolved by a fresh resolver exactly if every reference that it reaches names an
existing component by the path of the schemas and one more token, and none of these components lies on a
loop of components that are nothing but references. -/
theorem schema?_ok_iff (schemas : List (String × RefOr Schema)) (s : RefOr Schema)
    (key parent : String) :
    (∃ t q, schema? schemas (some s) key parent { registry := .empty } = (.ok t, q)) ↔
      ∀ r, (Schema.outlineOf s).Reaches schemas r → ∃ (token : List Char) (target : RefOr Schema),
        r.toList = "#/components/schemas/".toList ++ token ∧ token ≠ [] ∧ '/' ∉ token ∧
          schemas.lookup (String.ofList (unescape token)) = some target ∧
          ¬ OnLoop schemas (String.ofList (unescape token)) := by
  simp only [← sane_iff]
  rw [schema?_eq, Schema.outlineOf?]
  generalize Schema.outlineOf s = o
  let start : Pass := { registry := .empty }
  have hstart : start.Sound schemas (fun _ => True) .empty := .start Registry.Ordered.empty
  constructor
  · rintro ⟨t, q, h⟩ r hr
    have hruns := Outline.resolve_runs settled_enumStable o key parent
      fun r _ => reference_settled_named schemas .empty (p := start) rfl r
    obtain ⟨⟨hq, hsettled⟩, -, hmeans⟩ := hruns.ok ⟨.refl hstart, by simp [Settled, name?, start]⟩ h
    obtain ⟨n, hn⟩ := reaches_named (hq.sound.naming hq.reserved) (hmeans q (.refl q)) hr
    exact sane_of_settled hq.sound hsettled hq.aliasing hn
  · intro hsane
    have hruns := Outline.resolve_runs completes_enumStable o key parent
      fun r hr => reference_caused_named schemas .empty (p := start) rfl fun s hs => hs.of_ref hr
    rcases h : o.resolve (reference schemas) key parent { registry := .empty } with ⟨e | t, q⟩
    · obtain ⟨r, hr, hnot⟩ := (hruns.error (.refl hstart) h).exists_not_sane
      exact absurd (hsane r hr) hnot
    · exact ⟨t, q, rfl⟩

end Resolver

/-! ### Whole descriptions -/

/-- Each operation of the description can be read, and what it asks for reaches sane references only. -/
structure Document.Resolvable (d : Document) : Prop where
  reads : ∀ site ∈ d.sites, ∃ R, site.Reads d.components R
  sane : ∀ site ∈ d.sites, ∀ a, site.Asks d.components a → ∀ r,
    a.outline.Reaches d.components.schemas r → Reference.Sane d.components.schemas r

open Reference Resolver Pass

theorem Document.resolvable_of_resolve {d : Document} {R : Resolution} (h : d.resolve = .ok R) :
    d.Resolvable := by
  let start : Pass := { registry := .empty }
  have hstart : start.Sound d.components.schemas (fun _ => True) .empty :=
    .start Registry.Ordered.empty
  have hruns := endpoints_runs (fun _ _ _ _ _ _ => trivial) fun site _ a _ =>
    a.resolve_runs settled_enumStable d.components.schemas
      fun r _ => reference_settled_named d.components.schemas .empty (p := start) rfl r
  obtain ⟨eps, q, hrun, -, -⟩ := resolve_eq_ok h
  obtain ⟨⟨hq, hsettled⟩, -, heps⟩ :=
    hruns.ok ⟨.refl hstart, by simp [Settled, name?, start]⟩ hrun
  have hsites := (heps q (.refl q)).flip
  refine ⟨fun site hsite => ?_, fun site hsite a ha r hr => ?_⟩
  · obtain ⟨ep, -, hep⟩ := exists_of_forall₂ hsites hsite
    obtain ⟨R, -, -, hR, -⟩ := hep.endpoint
    exact ⟨R, hR⟩
  · obtain ⟨ep, -, hep⟩ := exists_of_forall₂ hsites hsite
    obtain ⟨t, ht⟩ := hep.asked a ha
    obtain ⟨n, hn⟩ := reaches_named (hq.sound.naming hq.reserved) ht hr
    exact sane_of_settled hq.sound hsettled hq.aliasing hn

/-- The exact condition under which a description is resolved. -/
theorem Document.resolve_ok_iff {d : Document} : (∃ R, d.resolve = .ok R) ↔ d.Resolvable := by
  refine ⟨fun ⟨R, h⟩ => resolvable_of_resolve h, fun h => ?_⟩
  let start : Pass := { registry := .empty }
  have hstart : start.Sound d.components.schemas (fun _ => True) .empty :=
    .start Registry.Ordered.empty
  let Met (r : String) : Prop :=
    ∃ site ∈ d.sites, ∃ a, site.Asks d.components a ∧ a.outline.Reaches d.components.schemas r
  have hruns := endpoints_runs (d := d) (E := fun e _ => e.Caused d.components.schemas Met)
    (fun site hsite e he => by
      obtain ⟨R, hR⟩ := h.reads site hsite
      exact absurd he hR.not_refuses)
    fun site hsite a ha => a.resolve_runs completes_enumStable d.components.schemas fun r hr =>
      reference_caused_named d.components.schemas .empty (p := start) rfl
        fun s hs => ⟨site, hsite, a, ha, hs.of_ref hr⟩
  rcases hrun : Resolver.endpoints d { registry := .empty } with ⟨e | eps, q⟩
  · obtain ⟨r, ⟨site, hsite, a, ha, hr⟩, hnot⟩ := (hruns.error (.refl hstart) hrun).exists_not_sane
    exact absurd (h.sane site hsite a ha r hr) hnot
  · rw [Document.resolve, endpoints_apply, hrun]
    exact ⟨_, rfl⟩

end ApiClient

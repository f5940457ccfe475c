import ApiClient.Proofs.Aliasing

/-! The recursion of the resolver comes to an end. From one call to a call in the course of it, fewer of the
references that can be met are without a name, or the schema is a smaller one, whatever the schemas refer
to. -/

namespace ApiClient

open Resolver (Call)

/-! ### Smaller schemas -/

namespace Schema

/-- The schema stands inside of the other one: it is smaller and has no other references. -/
structure Holds (s : Schema) (v : Option (RefOr Schema)) : Prop where
  smaller : sizeOf v < sizeOf (some (RefOr.inline s))
  references : referencesOfItems v ⊆ s.references

theorem referencesOf_subset_all {v : RefOr Schema} {ss : List (RefOr Schema)} (h : v ∈ ss) :
    referencesOf v ⊆ referencesOfAll ss := by
  induction ss with
  | nil => cases h
  | cons s ss ih =>
    rw [referencesOfAll]
    rcases List.mem_cons.mp h with rfl | h
    · exact List.subset_append_left _ _
    · exact List.Subset.trans (ih h) (List.subset_append_right _ _)

theorem referencesOf_subset_fields {name : String} {v : RefOr Schema}
    {fs : List (String × RefOr Schema)} (h : (name, v) ∈ fs) :
    referencesOf v ⊆ referencesOfFields fs := by
  induction fs with
  | nil => cases h
  | cons f fs ih =>
    rw [referencesOfFields]
    rcases List.mem_cons.mp h with rfl | h
    · exact List.subset_append_left _ _
    · exact List.Subset.trans (ih h) (List.subset_append_right _ _)

variable {s : Schema} {v : RefOr Schema} {ss : List (RefOr Schema)} {name : String}

theorem holds_of_mem (hsize : sizeOf ss < sizeOf s) (hrefs : referencesOfAll ss ⊆ s.references)
    (h : v ∈ ss) : s.Holds (some v) := by
  refine ⟨?_, List.Subset.trans (referencesOf_subset_all h) hrefs⟩
  have hmem := List.sizeOf_lt_of_mem h
  simp
  omega

theorem holds_allOf (h : v ∈ s.allOf) : s.Holds (some v) := by
  cases s
  exact holds_of_mem (by simp; omega) (fun r hr => by simp [references, hr]) h

theorem holds_oneOf (h : v ∈ s.oneOf) : s.Holds (some v) := by
  cases s
  exact holds_of_mem (by simp; omega) (fun r hr => by simp [references, hr]) h

theorem holds_anyOf (h : v ∈ s.anyOf) : s.Holds (some v) := by
  cases s
  exact holds_of_mem (by simp) (fun r hr => by simp [references, hr]) h

theorem holds_property (h : (name, v) ∈ s.properties) : s.Holds (some v) := by
  cases s
  refine ⟨?_, fun r hr => ?_⟩
  · have hmem := List.sizeOf_lt_of_mem h
    simp at hmem ⊢
    omega
  · have hfields := referencesOf_subset_fields h hr
    simp [references, hfields]

theorem holds_items (s : Schema) : s.Holds s.items := by
  cases s
  refine ⟨?_, fun r hr => by simp [references, hr]⟩
  simp
  omega

theorem holds_additional (h : s.additional = some (.values v)) : s.Holds (some v) := by
  cases s
  simp only at h
  subst h
  refine ⟨?_, fun r hr => ?_⟩
  · simp
    omega
  · rw [referencesOfItems] at hr
    simp [references, referencesOfAdditional, hr]

/-! ### What a step depends on -/

open Resolver (Same EnumStable)

variable {I : Pass → Prop} {self self' : Call → Resolver TypeExpr} {key parent : String}

section

variable (h : ∀ v key parent, s.Holds v →
  Same I (self (.schema v key parent)) (self' (.schema v key parent)))

include h

theorem visitAll_same (hmem : ∀ v ∈ ss, s.Holds (some v)) (key parent : String) :
    Same I (visitAll self ss key parent) (visitAll self' ss key parent) :=
  .mapM_list fun v hv => h v key parent (hmem v hv)

theorem visitFields_same {fs : List (String × RefOr Schema)} (hmem : ∀ f ∈ fs, s.Holds (some f.2))
    (required : List String) (key : String) :
    Same I (visitFields self fs required key) (visitFields self' fs required key) :=
  .mapM_list fun f hf => (h f.2 f.1 key (hmem f hf)).map

theorem visitObject_same (key : String) :
    Same I (s.visitObject self key) (s.visitObject self' key) := by
  rw [visitObject, visitObject]
  split_ifs
  · split
    · rename_i v hv
      exact (h v key key (holds_additional hv)).map
    · exact .pure _
    · exact .pure _
    · exact .pure _
  · exact (visitFields_same h (fun f hf => holds_property hf) _ key).map

end

theorem namedType_same {object object' array array' : Resolver TypeExpr} (ho : Same I object object')
    (ha : Same I array array') (name : String) :
    Same I (namedType object array name) (namedType object' array' name) := by
  rw [namedType, namedType]
  split_ifs
  · exact ho
  · exact ha
  · cases Primitive.ofTypeName? name <;> exact .pure _

/-- A visit depends on the answers for the schemas inside only. -/
theorem visit_same (hI : EnumStable I)
    (h : ∀ v key parent, s.Holds v →
      Same I (self (.schema v key parent)) (self' (.schema v key parent)))
    (key parent : String) : Same I (s.visit self key parent) (s.visit self' key parent) := by
  have hobject := visitObject_same h key
  have harray := (h s.items key parent (holds_items s)).map (c := TypeExpr.array)
  rw [visit, visit]
  refine Same.map ?_
  cases enumValues? s.enum with
  | some values => exact (Same.register hI _ values).map
  | none =>
    by_cases hall : !s.allOf.isEmpty
    · simp only [if_pos hall]
      exact (visitAll_same h (fun _ => holds_allOf) key parent).map
    · by_cases hsome : !s.oneOf.isEmpty || !s.anyOf.isEmpty
      · simp only [if_neg hall, if_pos hsome]
        exact (visitAll_same h (fun _ => holds_oneOf) key parent).bind fun _ =>
          (visitAll_same h (fun _ => holds_anyOf) key parent).map
      · simp only [if_neg hall, if_neg hsome]
        rcases s.type with _ | name | names
        · split_ifs
          · exact hobject
          · exact harray
          · exact .pure _
        · exact namedType_same hobject harray name
        · exact (Same.mapM_list fun name _ => namedType_same hobject harray name).map

theorem visitComponent_same (hI : EnumStable I)
    (h : ∀ v key parent, s.Holds v →
      Same I (self (.schema v key parent)) (self' (.schema v key parent)))
    (name : String) : Same I (s.visitComponent self name) (s.visitComponent self' name) := by
  rw [visitComponent, visitComponent]
  cases enumValues? s.enum with
  | some values => exact .pure _
  | none =>
    split_ifs
    · exact (visitFields_same h (fun f hf => holds_property hf) _ name).map
    · exact (visit_same hI h name name).map

end Schema

namespace Resolver

namespace Call

/-- The references that stand in a call. -/
def references : Call → List String
  | .reference r => [r]
  | .schema s _ _ => Schema.referencesOfItems s

/-- The size of the schema that is visited. -/
noncomputable def size : Call → Nat
  | .reference _ => 0
  | .schema s _ _ => sizeOf s

/-- A call goes down to another one: from a reference that gets its name before, from a schema to a
smaller one. -/
def Descends : Call → Pass → Call → Pass → Prop
  | .reference r, p, _, q => p.name? r = none ∧ q.name? r ≠ none
  | .schema s _ _, _, inner, _ => inner.size < sizeOf s

end Call

variable {schemas : List (String × RefOr Schema)} {self : Call → Resolver TypeExpr}
  {x y : Call × Pass}

/-- What is true of a call, with the state that it starts from, in the course of another one. -/
structure Inner (schemas : List (String × RefOr Schema)) (x y : Call × Pass) : Prop where
  references : y.1.references ⊆ x.1.references ++ Schema.referencesOfFields schemas
  table : x.2.Extends y.2
  descends : x.1.Descends x.2 y.1 y.2

/-- How many references are without a name that the call can meet, and the size of its schema. -/
noncomputable def weight (schemas : List (String × RefOr Schema)) (x : Call × Pass) : Nat × Nat :=
  ((x.2.unmet (within schemas x.1.references)).card, x.1.size)

theorem Inner.unmet_subset (h : Inner schemas x y) :
    y.2.unmet (within schemas y.1.references) ⊆ x.2.unmet (within schemas x.1.references) := by
  intro r hr
  obtain ⟨hmem, hnone⟩ := Finset.mem_filter.mp hr
  refine Finset.mem_filter.mpr ⟨List.mem_toFinset.mpr ?_, h.table.name?_eq_none hnone⟩
  rcases List.mem_append.mp (List.mem_toFinset.mp hmem) with hmem | hmem
  · exact h.references hmem
  · exact List.mem_append_right _ hmem

theorem Inner.weight_lt (h : Inner schemas x y) :
    Prod.Lex (· < ·) (· < ·) (weight schemas y) (weight schemas x) := by
  obtain ⟨call, p⟩ := x
  obtain ⟨inner, q⟩ := y
  have hsubset := h.unmet_subset
  have hdescends := h.descends
  cases call with
  | reference r =>
    obtain ⟨hnone, hsome⟩ := hdescends
    refine .left _ _ (Finset.card_lt_card ((Finset.ssubset_iff_of_subset hsubset).mpr ⟨r, ?_, ?_⟩))
    · exact Finset.mem_filter.mpr ⟨mem_within_self schemas r, hnone⟩
    · exact fun hr => hsome (Finset.mem_filter.mp hr).2
  | schema s key parent =>
    rcases (Finset.card_le_card hsubset).lt_or_eq with hlt | heq
    · exact .left _ _ hlt
    · rw [weight, weight, heq]
      exact .right _ hdescends

theorem weight_wellFounded (schemas : List (String × RefOr Schema)) :
    WellFounded fun y x => Prod.Lex (· < ·) (· < ·) (weight schemas y) (weight schemas x) :=
  InvImage.wf (weight schemas) (Prod.lex Nat.lt_wfRel Nat.lt_wfRel).wf

/-! ### What a step can call -/

/-- What one step calls, and what the table of names and the chain of aliases are then. A schema calls for
what stands in it. A component that is a reference calls for that one with one more alias, one with its
schema in place calls for what stands in it without any. -/
inductive Frame (schemas : List (String × RefOr Schema)) : Call × Pass → Call × Pass → Prop
  | place {r key parent : String} {p : Pass} :
    Frame schemas (.schema (some (.ref r)) key parent, p) (.reference r, p)
  | inside {s : Schema} {v : Option (RefOr Schema)} {key parent key' parent' : String} {p q : Pass} :
    s.Holds v → p.Extends q → q.aliasing = p.aliasing →
    Frame schemas (.schema (some (.inline s)) key parent, p) (.schema v key' parent', q)
  | next {r c s : String} {p : Pass} :
    p.name? r = none → Reference.Points schemas r c (.ref s) →
    Frame schemas (.reference r, p)
      (.reference s, { p.promised r (capitalCase c) with aliasing := r :: p.aliasing })
  | content {r c key parent : String} {s : Schema} {v : Option (RefOr Schema)} {p q : Pass} :
    p.name? r = none → Reference.Points schemas r c (.inline s) → s.Holds v →
    (p.promised r (capitalCase c)).Extends q → q.aliasing = [] →
    Frame schemas (.reference r, p) (.schema v key parent, q)

theorem Frame.inner (h : Frame schemas x y) : Inner schemas x y := by
  -- Once a reference is promised its name, it has it in whatever is called from there.
  have hnamed {r c : String} {p q : Pass} (hq : (p.promised r (capitalCase c)).Extends q) :
      q.name? r ≠ none := by
    intro hnone
    simpa [Pass.name?_promised] using hq.name?_eq_none hnone
  have hwithin {r c : String} {target : RefOr Schema} (hpoints : Reference.Points schemas r c target) :
      Schema.referencesOf target ⊆ [r] ++ Schema.referencesOfFields schemas := fun s hs =>
    List.mem_append_right _ (Schema.mem_referencesOfFields_of_lookup hpoints.2 hs)
  cases h with
  | place => exact ⟨List.subset_append_left _ _, .refl _, by simp [Call.Descends, Call.size]⟩
  | inside hv hq => exact ⟨List.Subset.trans hv.references (List.subset_append_left _ _), hq, hv.smaller⟩
  | @next r c s p hn hpoints =>
    have hchain : (p.promised r (capitalCase c)).Extends
        { p.promised r (capitalCase c) with aliasing := r :: p.aliasing } := Pass.Extends.congr (.refl _) rfl
    exact ⟨hwithin hpoints, (Pass.extends_promised _ hn).trans hchain, hn, hnamed hchain⟩
  | content hn hpoints hv hq =>
    exact ⟨List.Subset.trans hv.references (hwithin hpoints), (Pass.extends_promised _ hn).trans hq, hn,
      hnamed hq⟩

/-- In the schemas inside of one that is visited from `p`, with the chain of aliases as it is then, the
answers to the calls are those of the resolver. -/
theorem same_run (self : Call → Resolver TypeExpr) (p : Pass) (aliasing : List String) {s : Schema}
    (h : ∀ v key parent q, s.Holds v → p.Extends q → q.aliasing = aliasing →
      self (.schema v key parent) q = Call.run schemas (.schema v key parent) q)
    (v : Option (RefOr Schema)) (key parent : String) (hv : s.Holds v) :
    Same (fun q => p.Extends q ∧ q.aliasing = aliasing) (self (.schema v key parent))
      (Call.run schemas (.schema v key parent)) := by
  refine ⟨fun q hq => h v key parent q hv hq.1 hq.2, fun q hq t z hrun => ?_⟩
  have hz : z = (Call.run schemas (.schema v key parent) q).2 := by
    rw [← h v key parent q hv hq.1 hq.2, hrun]
  subst hz
  exact ⟨hq.1.trans (Call.run_advances (.schema v key parent) q).extends,
    (Call.run_aliasing (.schema v key parent) q).trans hq.2⟩

theorem visitTarget_congr {self' : Call → Resolver TypeExpr} {r : String} {p : Pass}
    (h : ∀ c target, Reference.Points schemas r c target →
      visitShape self r (p.registry.reserve (capitalCase c)).1 target (p.promised r (capitalCase c)) =
        visitShape self' r (p.registry.reserve (capitalCase c)).1 target
          (p.promised r (capitalCase c))) :
    visitTarget schemas self r p = visitTarget schemas self' r p := by
  rw [visitTarget, visitTarget]
  refine bind_eq_bind rfl fun c q hq => ?_
  cases hc : Reference.component .schemas r with
  | error e =>
    rw [componentOf_error hc] at hq
    cases (Prod.mk.inj hq).1
  | ok c' =>
    rw [componentOf_ok hc] at hq
    obtain ⟨rfl, rfl⟩ : c' = c ∧ p = q := ⟨Except.ok.inj (Prod.mk.inj hq).1, (Prod.mk.inj hq).2⟩
    cases htarget : schemas.lookup c' with
    | none => rfl
    | some target =>
      dsimp only
      rw [bind_ok (promise_apply (capitalCase c') p), bind_ok (promise_apply (capitalCase c') p)]
      exact bind_eq_bind (h c' target ⟨hc, htarget⟩) fun _ _ _ => rfl

/-- What a call comes to depends on nothing but the answers to the calls of its step. -/
theorem step_eq_run (x : Call × Pass)
    (h : ∀ y, Frame schemas x y → self y.1 y.2 = y.1.run schemas y.2) :
    x.1.step schemas self x.2 = x.1.run schemas x.2 := by
  have hstable (p : Pass) (aliasing : List String) :
      EnumStable fun q => p.Extends q ∧ q.aliasing = aliasing :=
    fun q name vs hq => ⟨Pass.extends_enumStable q name vs hq.1, hq.2⟩
  obtain ⟨call, p⟩ := x
  rw [Call.run_eq_step]
  cases call with
  | schema s key parent =>
    rcases s with _ | r | s
    · rfl
    · exact h (.reference r, p) .place
    · have hsame := same_run self p p.aliasing (s := s)
        fun v key' parent' q hv hq haliasing => h (.schema v key' parent', q) (.inside hv hq haliasing)
      exact (Schema.visit_same (hstable p p.aliasing) hsame key parent).eq p ⟨.refl p, rfl⟩
  | reference r =>
    rw [Call.step, Call.step]
    cases hn : p.name? r with
    | some n => rw [visitReference_of_name? hn, visitReference_of_name? hn]
    | none =>
      rw [visitReference_of_none hn, visitReference_of_none hn]
      refine visitTarget_congr fun c target hpoints => ?_
      let named := p.promised r (capitalCase c)
      cases target with
      | ref next =>
        let chain : Pass := { named with aliasing := r :: p.aliasing }
        have hnext : self (.reference next) chain = Call.run schemas (.reference next) chain :=
          h (.reference next, chain) (.next hn hpoints)
        rw [visitShape, visitShape]
        exact shapeOf_ref_congr hnext
      | inline s =>
        have hsame := same_run self named [] (s := s)
          fun v key parent q hv hq haliasing =>
            h (.schema v key parent, q) (.content hn hpoints hv hq haliasing)
        have hshape := (Schema.visitComponent_same (hstable named []) hsame
          (p.registry.reserve (capitalCase c)).1).eq { named with aliasing := [] }
          ⟨Pass.Extends.congr (.refl named) rfl, rfl⟩
        rw [visitShape, visitShape, apart, apart]
        exact congrArg (fun x => (x.1, { x.2 with aliasing := p.aliasing })) hshape

/-! ### Calls in the course of a call -/

/-- The first call makes the second one: with another answer to that it would come out differently. -/
def Calls (schemas : List (String × RefOr Schema)) (x y : Call × Pass) : Prop :=
  ∃ self : Call → Resolver TypeExpr,
    (∀ z : Call × Pass, z ≠ y → self z.1 z.2 = z.1.run schemas z.2) ∧
      x.1.step schemas self x.2 ≠ x.1.run schemas x.2

theorem Calls.frame (h : Calls schemas x y) : Frame schemas x y := by
  obtain ⟨self, hself, hne⟩ := h
  by_contra hnot
  refine hne (step_eq_run x fun z hz => hself z ?_)
  rintro rfl
  exact hnot hz

theorem Calls.inner (h : Calls schemas x y) : Inner schemas x y := h.frame.inner

open Classical in
/-- The resolver, but that one call comes to an end that the resolver never comes to. -/
noncomputable def stoppedAt (schemas : List (String × RefOr Schema)) (y : Call × Pass) (call : Call) :
    Resolver TypeExpr :=
  fun q => if (call, q) = y then (.error (.unfinished ""), q) else call.run schemas q

theorem stoppedAt_self (schemas : List (String × RefOr Schema)) (y : Call × Pass) :
    stoppedAt schemas y y.1 y.2 = (.error (.unfinished ""), y.2) := if_pos rfl

/-- A call that is stopped by another one makes that call. -/
theorem calls_of_stopped (h : (x.1.step schemas (stoppedAt schemas y) x.2).1 = .error (.unfinished "")) :
    Calls schemas x y := by
  refine ⟨stoppedAt schemas y, fun z hz => if_neg hz, fun heq => ?_⟩
  have hproper : Advances x.2 (x.1.run schemas x.2) := x.1.run_advances x.2
  rcases hrun : x.1.run schemas x.2 with ⟨result, q⟩
  rw [heq, hrun] at h
  subst h
  rw [hrun] at hproper
  exact hproper.2 "" rfl

/-- So does a reference if the shape of its component is stopped. -/
theorem calls_of_shape_stopped {r c : String} {target : RefOr Schema} {p : Pass}
    (hn : p.name? r = none) (hpoints : Reference.Points schemas r c target)
    (h : (visitShape (stoppedAt schemas y) r (p.registry.reserve (capitalCase c)).1 target
      (p.promised r (capitalCase c))).1 = .error (.unfinished "")) :
    Calls schemas (.reference r, p) y := by
  refine calls_of_stopped ?_
  rw [Call.step, visitReference_of_none hn, visitTarget, bind_ok (componentOf_ok hpoints.1 p)]
  simp only [hpoints.2]
  rw [bind_ok (promise_apply (capitalCase c) p)]
  rcases hrun : visitShape (stoppedAt schemas y) r (p.registry.reserve (capitalCase c)).1 target
    (p.promised r (capitalCase c)) with ⟨result, q⟩
  rw [hrun] at h
  subst h
  rw [bind_error hrun]

/-- A component that is a reference itself makes the call for that one. -/
theorem calls_alias {r c next : String} {p : Pass} (hn : p.name? r = none)
    (hpoints : Reference.Points schemas r c (.ref next)) (hnext : next ∉ r :: p.aliasing) :
    Calls schemas (.reference r, p)
      (.reference next, { p.promised r (capitalCase c) with aliasing := r :: p.aliasing }) := by
  let chain : Pass := { p.promised r (capitalCase c) with aliasing := r :: p.aliasing }
  refine calls_of_shape_stopped hn hpoints ?_
  rw [visitShape]
  rcases hrun : shapeOf (fun s => stoppedAt schemas (.reference next, chain) (.reference s)) r
    (p.registry.reserve (capitalCase c)).1 (.ref next) (p.promised r (capitalCase c)) with ⟨result, q⟩
  obtain ⟨hmem, -, -⟩ | ⟨-, result', z, hinner, rfl, -⟩ := shapeOf_ref_cases hrun
  · exact absurd hmem hnext
  · obtain ⟨rfl, -⟩ := Prod.mk.inj ((stoppedAt_self schemas (.reference next, chain)).symm.trans hinner)
    rfl

theorem calls_wellFounded (schemas : List (String × RefOr Schema)) :
    WellFounded fun y x => Calls schemas x y :=
  Subrelation.wf (fun h => h.inner.weight_lt) (weight_wellFounded schemas)

/-- The resolver is the only function that takes its steps. -/
theorem eq_run_of_step (h : ∀ call, self call = call.step schemas self) : self = Call.run schemas := by
  have heq (x : Call × Pass) : self x.1 x.2 = x.1.run schemas x.2 := by
    induction x using (weight_wellFounded schemas).induction with
    | _ x ih =>
      rw [h]
      exact step_eq_run x fun y hy => ih y hy.inner.weight_lt
  funext call p
  exact heq (call, p)

/-- The reference that a call has to work out, as it has no name yet. -/
def expanded? : Call × Pass → Option String
  | (.reference r, p) => if p.name? r = none then some r else none
  | (.schema _ _ _, _) => none

theorem expanded?_eq_some {r : String} (h : expanded? x = some r) :
    ∃ p, x = (.reference r, p) ∧ p.name? r = none := by
  obtain ⟨call, p⟩ := x
  cases call with
  | schema s key parent => cases h
  | reference s =>
    rw [expanded?] at h
    split_ifs at h with hnone
    obtain rfl := Option.some.inj h
    exact ⟨p, rfl, hnone⟩

theorem mem_unmet_of_expanded? {r : String} (h : expanded? x = some r) :
    r ∈ x.2.unmet (within schemas x.1.references) := by
  obtain ⟨p, rfl, hnone⟩ := expanded?_eq_some h
  exact Finset.mem_filter.mpr ⟨mem_within_self schemas r, hnone⟩

/-- A reference that is being worked out has its name in all inner calls. -/
theorem Inner.not_mem_unmet {r : String} {rs : Finset String} (h : Inner schemas x y)
    (hx : expanded? x = some r) : r ∉ y.2.unmet rs := by
  obtain ⟨p, rfl, -⟩ := expanded?_eq_some hx
  exact fun hr => h.descends.2 (Finset.mem_filter.mp hr).2

/-- The references that are worked out at the same time are different, and had no name before. -/
theorem expanded_chain {stack : List (Call × Pass)} (h : (x :: stack).IsChain (Calls schemas)) :
    ((x :: stack).filterMap expanded?).Nodup ∧
      ∀ r ∈ (x :: stack).filterMap expanded?, r ∈ x.2.unmet (within schemas x.1.references) := by
  induction stack generalizing x with
  | nil =>
    rw [List.filterMap_cons]
    cases hx : expanded? x with
    | none => simp
    | some r => simpa using mem_unmet_of_expanded? hx
  | cons y stack ih =>
    obtain ⟨hxy, hstack⟩ := List.isChain_cons_cons.mp h
    obtain ⟨hnodup, hunmet⟩ := ih hstack
    have hrest (r : String) (hr : r ∈ (y :: stack).filterMap expanded?) :
        r ∈ x.2.unmet (within schemas x.1.references) := hxy.inner.unmet_subset (hunmet r hr)
    rw [List.filterMap_cons]
    cases hx : expanded? x with
    | none => exact ⟨hnodup, hrest⟩
    | some r =>
      refine ⟨List.nodup_cons.mpr ⟨fun hr => ?_, hnodup⟩, List.forall_mem_cons.mpr ⟨?_, hrest⟩⟩
      · exact hxy.inner.not_mem_unmet hx (hunmet r hr)
      · exact mem_unmet_of_expanded? hx

theorem Call.runAll_extends (calls : List Call) (p : Pass) :
    p.Extends (Call.runAll schemas calls p) := by
  induction calls generalizing p with
  | nil => exact .refl p
  | cons call calls ih => exact (call.run_advances p).extends.trans (ih _)

/-- A call for a reference changes nothing, or enters the reference into the table before all else. -/
theorem reference_enters (r : String) (p : Pass) :
    (Call.run schemas (.reference r) p).2 = p ∨
      p.name? r = none ∧ ∃ c target, Reference.Points schemas r c target ∧
        (p.promised r (capitalCase c)).Extends (Call.run schemas (.reference r) p).2 := by
  cases hn : p.name? r with
  | some n => exact .inl (congrArg Prod.snd (expand_of_name? hn _))
  | none =>
    rcases hrun : Call.run schemas (.reference r) p with ⟨result, q⟩
    have hwork := (reference_of_none hn).symm.trans hrun
    obtain ⟨e, -, -, rfl⟩ | ⟨c, target, hpoints, result', z, hshape, hresult⟩ := workOut_cases hwork
    · exact .inl rfl
    · refine .inr ⟨rfl, c, target, hpoints, ?_⟩
      have hroom (s : String) : HasRoom ∅ 0 (reference schemas) s := fun q _ => reference_advances s q
      have hz : (p.promised r (capitalCase c)).Extends (shapeOf (reference schemas) r
          (p.registry.reserve (capitalCase c)).1 target (p.promised r (capitalCase c))).2 :=
        (shapeOf_advances (fun s _ => hroom s) (Nat.le_refl _) r _).extends
      rw [hshape] at hz
      obtain ⟨e, -, -, rfl⟩ | ⟨d, -, -, rfl⟩ := hresult
      · exact hz
      · exact hz.congr rfl

/-- Resolution ends on every document, from every state of a resolver. Its calls follow the description
of a single step and nothing else does. In each inner call fewer of the references are without a name,
or the schema is smaller. A reference enters the table of names before its component is looked at, and
stays in it; as its name is all the answer from then on, it is worked out once at most. At no time are
more references being worked out than there are. -/
theorem resolution_terminates (schemas : List (String × RefOr Schema)) :
    (∀ call, Call.run schemas call = call.step schemas (Call.run schemas)) ∧
    (∀ self, (∀ call, self call = call.step schemas self) → self = Call.run schemas) ∧
    (∀ call p e q, Call.run schemas call p = (.error e, q) → ∀ r, e ≠ .unfinished r) ∧
    (∀ x y, Calls schemas x y →
      Prod.Lex (· < ·) (· < ·) (weight schemas y) (weight schemas x)) ∧
    (WellFounded fun y x => Calls schemas x y) ∧
    (∀ self r (p : Pass) n, p.name? r = some n →
      Call.step schemas self (.reference r) p = (.ok (.named n), p)) ∧
    (∀ r p, (Call.run schemas (.reference r) p).2 = p ∨
      p.name? r = none ∧ ∃ c target, Reference.Points schemas r c target ∧
        (p.promised r (capitalCase c)).Extends (Call.run schemas (.reference r) p).2) ∧
    (∀ calls (p : Pass), p.Extends (Call.runAll schemas calls p)) ∧
    ∀ x stack, (x :: stack).IsChain (Calls schemas) →
      ((x :: stack).filterMap expanded?).Nodup ∧
        ((x :: stack).filterMap expanded?).length ≤ (within schemas x.1.references).card := by
  refine ⟨Call.run_eq_step, fun self h => eq_run_of_step h, fun call p e q h => ?_,
    fun x y h => h.inner.weight_lt, calls_wellFounded schemas, fun self r p n hn => ?_, reference_enters,
    Call.runAll_extends, fun x stack h => ?_⟩
  · have hadvances : Advances p (call.run schemas p) := call.run_advances p
    rw [h] at hadvances
    exact hadvances.2
  · rw [Call.step]
    exact visitReference_of_name? hn
  · obtain ⟨hnodup, hunmet⟩ := expanded_chain h
    refine ⟨hnodup, ?_⟩
    rw [← List.toFinset_card_of_nodup hnodup]
    exact Finset.card_le_card fun r hr =>
      (Finset.mem_filter.mp (hunmet r (List.mem_toFinset.mp hr))).1

/-- Two references in a row that lead to a component which refers back to the first. -/
def circularSchemas : List (String × RefOr Schema) :=
  [("A", .ref "#/components/schemas/B"), ("B", .ref "#/components/schemas/C"),
    ("C", .inline { properties := [("a", .ref "#/components/schemas/A")] })]

theorem resolution_terminates_circular :
    let a := "#/components/schemas/A"
    let b := "#/components/schemas/B"
    let c := "#/components/schemas/C"
    ∃ q z, List.IsChain (Calls circularSchemas)
        [(.reference a, { registry := .empty }), (.reference b, q), (.reference c, z)] ∧
      [(Call.reference a, { registry := .empty }), (.reference b, q), (.reference c, z)].filterMap
        expanded? = [a, b, c] ∧
      3 ≤ (within circularSchemas [a]).card ∧
      (Call.run circularSchemas (.reference a) { registry := .empty }).2.names =
        [(c, "C"), (b, "B"), (a, "A")] := by
  intro a b c
  let p : Pass := { registry := .empty }
  let q : Pass := { p.promised a (capitalCase "A") with aliasing := [a] }
  let z : Pass := { q.promised b (capitalCase "B") with aliasing := [b, a] }
  have ha : Reference.Points circularSchemas a "A" (.ref b) := ⟨by decide +kernel, rfl⟩
  have hb : Reference.Points circularSchemas b "B" (.ref c) := ⟨by decide +kernel, rfl⟩
  have hchain : List.IsChain (Calls circularSchemas)
      [(.reference a, p), (.reference b, q), (.reference c, z)] := by
    refine .cons_cons (calls_alias rfl ha (by decide)) (.cons_cons (calls_alias ?_ hb ?_) (.singleton _))
    · decide +kernel
    · decide
  have hexpanded : [(Call.reference a, p), (.reference b, q), (.reference c, z)].filterMap expanded? =
      [a, b, c] := by decide +kernel
  obtain ⟨-, -, -, -, -, -, -, -, hactive⟩ := resolution_terminates circularSchemas
  have hlength := (hactive _ _ hchain).2
  rw [hexpanded] at hlength
  exact ⟨q, z, hchain, hexpanded, hlength, by decide +kernel⟩

end Resolver

end ApiClient

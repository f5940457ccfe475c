import ApiClient.Proofs.Memo

/-! Two tables of schemas. Where they agree on all that a reference reaches, the reference is worked out
in the same way, whatever else there is in the tables and however many levels they allow. -/

namespace ApiClient

/-! ### Runs that are the same -/

namespace Resolver

variable {α β : Type} {I : Pass → Prop}

/-- From a state with `I` both do the same, and they keep `I` where they end well. -/
structure Same (I : Pass → Prop) (x y : Resolver α) : Prop where
  eq : ∀ p, I p → x p = y p
  keeps : ∀ p, I p → ∀ a q, x p = (.ok a, q) → I q

theorem bind_eq_bind {x y : Resolver α} {f g : α → Resolver β} {p : Pass} (hx : x p = y p)
    (hf : ∀ a q, x p = (.ok a, q) → f a q = g a q) : (x >>= f) p = (y >>= g) p := by
  rcases h : x p with ⟨e | a, q⟩
  · rw [bind_error h, bind_error (hx.symm.trans h)]
  · rw [bind_ok h, bind_ok (hx.symm.trans h), hf a q h]

namespace Same

variable {x y : Resolver α} {f g : α → Resolver β}

theorem pure (a : α) : Same I (Pure.pure a) (Pure.pure a) := by
  refine ⟨fun _ _ => rfl, fun p hp b q h => ?_⟩
  obtain rfl : p = q := (Prod.mk.inj h).2
  exact hp

theorem throw (e : ReferenceError) : Same I (throw e : Resolver α) (throw e) :=
  ⟨fun _ _ => rfl, fun _ _ _ _ h => by cases (Prod.mk.inj h).1⟩

theorem bind (hx : Same I x y) (hf : ∀ a, Same I (f a) (g a)) : Same I (x >>= f) (y >>= g) := by
  refine ⟨fun p hp => ?_, fun p hp b z h => ?_⟩
  · exact bind_eq_bind (hx.eq p hp) fun a q hq => (hf a).eq q (hx.keeps p hp a q hq)
  · rcases hrun : x p with ⟨e | a, q⟩
    · rw [bind_error hrun] at h
      cases (Prod.mk.inj h).1
    · rw [bind_ok hrun] at h
      exact (hf a).keeps q (hx.keeps p hp a q hrun) b z h

theorem map {c : α → β} (hx : Same I x y) :
    Same I (x >>= fun a => Pure.pure (c a)) (y >>= fun a => Pure.pure (c a)) :=
  hx.bind fun a => pure (c a)

theorem mapM {f : α → Resolver β} {γ : Type} {g : γ → Resolver β} {S : α → γ → Prop} {as : List α}
    {bs : List γ} (h : List.Forall₂ S as bs) (hf : ∀ a b, a ∈ as → S a b → Same I (f a) (g b)) :
    Same I (as.mapM f) (bs.mapM g) := by
  induction h with
  | nil => exact .pure []
  | cons hab _ ih =>
    rw [List.mapM_cons, List.mapM_cons]
    have htail := ih fun a b ha => hf a b (List.mem_cons_of_mem _ ha)
    exact (hf _ _ List.mem_cons_self hab).bind fun _ => htail.map

theorem mapM_list {f g : α → Resolver β} {as : List α} (hf : ∀ a ∈ as, Same I (f a) (g a)) :
    Same I (as.mapM f) (as.mapM g) :=
  mapM (List.forall₂_same.mpr fun _ _ => rfl) fun a _ ha hab => hab ▸ hf a ha

theorem register (hI : EnumStable I) (name : String) (vs : List Json) :
    Same I (register name (.enum vs)) (register name (.enum vs)) := by
  refine ⟨fun _ _ => rfl, fun p hp n q h => ?_⟩
  rw [← (Prod.mk.inj h).2]
  exact hI p name vs hp

end Same

/-- A step that has nothing to do with the pass fails at once, or leaves it to the rest. -/
theorem Steady.bind_same {x : Resolver α} {f g : α → Resolver β} (hx : Steady x)
    (hf : ∀ a, x = Pure.pure a → Same I (f a) (g a)) : Same I (x >>= f) (x >>= g) := by
  obtain ⟨a, rfl⟩ | ⟨e, rfl⟩ := hx
  · rw [pure_bind, pure_bind]
    exact hf a rfl
  · exact .throw e

end Resolver

namespace Outline

open Resolver

variable {I : Pass → Prop} {onRef onRef' : String → Resolver TypeExpr}

mutual

/-- If its references are resolved in the same way, so is a whole outline. -/
theorem resolve_same (hI : EnumStable I) : (o : Outline) → (key parent : String) →
    (∀ r ∈ o.refs, Same I (onRef r) (onRef' r)) →
    Same I (o.resolve onRef key parent) (o.resolve onRef' key parent)
  | .ref r, _, _, h => h r List.mem_cons_self
  | .enum vs, _, _, _ => (Same.register hI _ vs).map
  | .primitive _, _, _, _ => .pure _
  | .unknown, _, _, _ => .pure _
  | .array o, key, parent, h => (resolve_same hI o key parent h).map
  | .map o, key, _, h => (resolve_same hI o key key h).map
  | .object fs, key, _, h => (resolveFields_same hI fs key h).map
  | .all os, key, parent, h => (resolveAll_same hI os key parent h).map
  | .any os, key, parent, h => (resolveAll_same hI os key parent h).map
  | .orNull o, key, parent, h => (resolve_same hI o key parent h).map

theorem resolveAll_same (hI : EnumStable I) : (os : List Outline) → (key parent : String) →
    (∀ r ∈ refsOfAll os, Same I (onRef r) (onRef' r)) →
    Same I (resolveAll onRef os key parent) (resolveAll onRef' os key parent)
  | [], _, _, _ => .pure _
  | o :: os, key, parent, h => by
    have ho := resolve_same hI o key parent fun r hr => h r (List.mem_append_left _ hr)
    have hos := resolveAll_same hI os key parent fun r hr => h r (List.mem_append_right _ hr)
    exact ho.bind fun _ => hos.map

theorem resolveFields_same (hI : EnumStable I) : (fs : List (FieldKey × Outline)) →
    (key : String) → (∀ r ∈ refsOfFields fs, Same I (onRef r) (onRef' r)) →
    Same I (resolveFields onRef fs key) (resolveFields onRef' fs key)
  | [], _, _ => .pure _
  | (k, o) :: fs, key, h => by
    have ho := resolve_same hI o k.name key fun r hr => h r (List.mem_append_left _ hr)
    have hfs := resolveFields_same hI fs key fun r hr => h r (List.mem_append_right _ hr)
    exact ho.bind fun _ => hfs.map

end

end Outline

theorem Shape.resolve_same {I : Pass → Prop} {onRef onRef' : String → Resolver TypeExpr}
    (hI : Resolver.EnumStable I) (s : Shape) (name : String)
    (h : ∀ r ∈ s.refs, Resolver.Same I (onRef r) (onRef' r)) :
    Resolver.Same I (s.resolve onRef name) (s.resolve onRef' name) := by
  cases s with
  | object fs => exact (Outline.resolveFields_same hI fs name h).map
  | enum vs => exact .pure _
  | type o => exact (Outline.resolve_same hI o name name h).map

/-! ### References in two tables -/

namespace Resolver

open Pass Reference

variable {schemas schemas' : List (String × RefOr Schema)} {base : Registry}
  {onRef onRef' : String → Resolver TypeExpr} {r name : String} {p : Pass} {rs : Finset String}
  {room : Nat}

/-- With room for all references that have no name yet, both work the reference out to the same. -/
def Tallies (rs : Finset String) (room : Nat) (onRef onRef' : String → Resolver TypeExpr)
    (r : String) : Prop :=
  ∀ p : Pass, (p.unmet rs).card ≤ room → onRef r p = onRef' r p

/-- Inside of a structure the room does not get less. -/
theorem Tallies.same (h : Tallies rs room onRef onRef' r) (hroom : HasRoom rs room onRef r) :
    Same (fun q => (q.unmet rs).card ≤ room) (onRef r) (onRef' r) := by
  refine ⟨h, fun q hq t z hrun => ?_⟩
  have hz := hroom q hq
  rw [hrun] at hz
  exact (Extends.card_unmet_le hz rs).trans hq

/-- A component that is a reference asks for nothing else. -/
theorem shapeOf_ref_congr {next : String}
    (h : onRef next { p with aliasing := r :: p.aliasing } =
      onRef' next { p with aliasing := r :: p.aliasing }) :
    shapeOf onRef r name (.ref next) p = shapeOf onRef' r name (.ref next) p := by
  have hchained : chained r (onRef next) p = chained r (onRef' next) p := by
    rw [chained, chained, h]
  refine bind_eq_bind rfl fun q z hq => ?_
  obtain ⟨rfl, rfl⟩ : p = q ∧ p = z := ⟨Except.ok.inj (Prod.mk.inj hq).1, (Prod.mk.inj hq).2⟩
  split_ifs
  · rfl
  · exact bind_eq_bind hchained fun _ _ _ => rfl

theorem shapeOf_tallies {target : RefOr Schema}
    (hexp : ∀ s ∈ target.shape.refs, HasRoom rs room onRef s)
    (htallies : ∀ s ∈ target.shape.refs, Tallies rs room onRef onRef' s)
    (hroom : (p.unmet rs).card ≤ room) (r name : String) :
    shapeOf onRef r name target p = shapeOf onRef' r name target p := by
  cases target with
  | ref next => exact shapeOf_ref_congr (htallies next List.mem_cons_self _ hroom)
  | inline s =>
    have hstable : EnumStable fun q => (q.unmet rs).card ≤ room := fun _ _ _ h => h
    have hsame := s.shape.resolve_same hstable name fun r hr => (htallies r hr).same (hexp r hr)
    rw [shapeOf_inline_apply, shapeOf_inline_apply, Schema.define_eq, Schema.define_eq,
      hsame.eq { p with aliasing := [] } hroom]

theorem workOut_tallies (hclosed : ClosedUnder schemas (· ∈ rs))
    (hsame : ∀ r c, r ∈ rs → component .schemas r = .ok c → schemas.lookup c = schemas'.lookup c)
    (hexp : ∀ r ∈ rs, HasRoom rs room onRef r)
    (htallies : ∀ r ∈ rs, Tallies rs room onRef onRef' r) (hr : r ∈ rs) (hnone : p.name? r = none)
    (hroom : (p.unmet rs).card ≤ room + 1) :
    workOut schemas onRef r p = workOut schemas' onRef' r p := by
  rw [workOut, workOut]
  refine bind_eq_bind rfl fun c q hq => ?_
  cases hc : component .schemas r with
  | error e =>
    rw [componentOf_error hc] at hq
    cases (Prod.mk.inj hq).1
  | ok c' =>
    rw [componentOf_ok hc] at hq
    obtain ⟨rfl, rfl⟩ : c' = c ∧ p = q := ⟨Except.ok.inj (Prod.mk.inj hq).1, (Prod.mk.inj hq).2⟩
    rw [← hsame r c' hr hc]
    cases htarget : schemas.lookup c' with
    | none => rfl
    | some target =>
      have hmem (s : String) (hs : s ∈ target.shape.refs) : s ∈ rs :=
        hclosed r c' target hr ⟨hc, htarget⟩ s hs
      -- the name just given makes room for one level less
      have hroom' : ((p.promised r (capitalCase c')).unmet rs).card ≤ room := by
        have hlt := Finset.card_lt_card (unmet_promised_ssubset (capitalCase c') hr hnone)
        omega
      have hshape := shapeOf_tallies (fun s hs => hexp s (hmem s hs))
        (fun s hs => htallies s (hmem s hs)) hroom' r (p.registry.reserve (capitalCase c')).1
      dsimp only
      rw [bind_ok (promise_apply (capitalCase c') p), bind_ok (promise_apply (capitalCase c') p)]
      exact bind_eq_bind hshape fun _ _ _ => rfl

theorem expand_tallies (hclosed : ClosedUnder schemas (· ∈ rs))
    (hsame : ∀ r c, r ∈ rs → component .schemas r = .ok c → schemas.lookup c = schemas'.lookup c)
    (room : Nat) {levels levels' : Nat} (hlevels : room ≤ levels) (hlevels' : room ≤ levels')
    {r : String} (hr : r ∈ rs) :
    Tallies rs room (expand schemas levels) (expand schemas' levels') r := by
  induction room generalizing levels levels' r with
  | zero =>
    intro p hroom
    cases hn : p.name? r with
    | some n => rw [expand_of_name? hn, expand_of_name? hn]
    | none =>
      have hunmet : r ∈ p.unmet rs := Finset.mem_filter.mpr ⟨hr, hn⟩
      exact absurd hroom (Nat.not_le_of_lt (Finset.card_pos.mpr ⟨r, hunmet⟩))
  | succ room ih =>
    obtain ⟨levels, rfl⟩ := Nat.exists_eq_add_of_le' (Nat.le_of_add_left_le hlevels)
    obtain ⟨levels', rfl⟩ := Nat.exists_eq_add_of_le' (Nat.le_of_add_left_le hlevels')
    intro p hroom
    cases hn : p.name? r with
    | some n => rw [expand_of_name? hn, expand_of_name? hn]
    | none =>
      rw [expand_succ hn, expand_succ hn]
      have hlevels : room ≤ levels := by omega
      have hexp (s : String) (hs : s ∈ rs) : HasRoom rs room (expand schemas levels) s :=
        fun q hq => expand_hasRoom hclosed levels hs q (hq.trans hlevels)
      exact workOut_tallies hclosed hsame hexp (fun r hr => ih hlevels (by omega) hr) hr hn hroom

/-- The tables agree on the components of all references that the outline reaches. -/
def AgreeOn (schemas schemas' : List (String × RefOr Schema)) (o : Outline) : Prop :=
  ∀ s c, o.Reaches schemas s → component .schemas s = .ok c → schemas.lookup c = schemas'.lookup c

/-- Both tables have levels enough for the references that are reached: those stand in both. -/
theorem reference_eq (h : AgreeOn schemas schemas' (.ref r)) :
    reference schemas r = reference schemas' r := by
  classical
  let own := insert r
    ((Schema.referencesOfFields schemas).toFinset ∩ (Schema.referencesOfFields schemas').toFinset)
  let rs := own.filter fun s => (Outline.ref r).Reaches schemas s
  have hmem (s : String) : s ∈ rs ↔ (Outline.ref r).Reaches schemas s := by
    refine ⟨fun hs => (Finset.mem_filter.mp hs).2, fun hs => Finset.mem_filter.mpr ⟨?_, hs⟩⟩
    cases hs with
    | own hs => exact Finset.mem_insert.mpr (.inl (List.mem_singleton.mp hs))
    | @through t c _ target ht hpoints hs =>
      have hpoints' : Points schemas' t c target := ⟨hpoints.1, h t c ht hpoints.1 ▸ hpoints.2⟩
      exact Finset.mem_insert.mpr (.inr (Finset.mem_inter.mpr
        ⟨List.mem_toFinset.mpr (hpoints.mem_references hs),
          List.mem_toFinset.mpr (hpoints'.mem_references hs)⟩))
  have hcard (fs : List (String × RefOr Schema))
      (hfs : (Schema.referencesOfFields schemas).toFinset ∩
        (Schema.referencesOfFields schemas').toFinset ⊆ (Schema.referencesOfFields fs).toFinset) :
      rs.card ≤ levels fs := by
    have hfilter : rs.card ≤ own.card := Finset.card_filter_le _ _
    have hinsert : own.card ≤ _ + 1 := Finset.card_insert_le r _
    have hinter := Finset.card_le_card hfs
    have hlist := List.toFinset_card_le (Schema.referencesOfFields fs)
    rw [levels]
    omega
  have hclosed : ClosedUnder schemas (· ∈ rs) := fun t c target ht hpoints s hs =>
    (hmem s).mpr (reaches_closed _ t c target ((hmem t).mp ht) hpoints s hs)
  funext p
  exact expand_tallies hclosed (fun s c hs hc => h s c ((hmem s).mp hs) hc) rs.card
    (hcard schemas Finset.inter_subset_left) (hcard schemas' Finset.inter_subset_right)
    ((hmem r).mpr (.own List.mem_cons_self)) p (Finset.card_filter_le _ _)

theorem reference_same (h : AgreeOn schemas schemas' (.ref r)) :
    Same (p.Completes schemas (fun _ => True) base) (reference schemas r) (reference schemas' r) := by
  have hexpands : Expands schemas (fun _ => True) base (reference schemas) r :=
    reference_expands closedUnder_all trivial
  exact ⟨fun q _ => congrFun (reference_eq h) q,
    fun q hq t z hrun => hq.trans (hexpands.ok hq.sound hrun).1⟩

theorem resolve_same {a : Ask} (h : AgreeOn schemas schemas' a.outline) :
    Same (p.Completes schemas (fun _ => True) base) (a.resolve schemas) (a.resolve schemas') :=
  Outline.resolve_same completes_enumStable a.outline a.key a.parent fun _ hr =>
    reference_same fun s c hs => h s c (hs.of_ref hr)

theorem askFields_same {asks : List (FieldKey × Ask)}
    (h : ∀ f ∈ asks, AgreeOn schemas schemas' f.2.outline) (fields : Fields) :
    Same (p.Completes schemas (fun _ => True) base) (askFields schemas asks fields)
      (askFields schemas' asks fields) := by
  induction asks generalizing fields with
  | nil => exact .pure fields
  | cons f asks ih =>
    exact (resolve_same (h f List.mem_cons_self)).bind fun t =>
      ih (fun f hf => h f (List.mem_cons_of_mem _ hf)) _

end Resolver

end ApiClient

import ApiClient.Proofs.Rules

/-! What a pass keeps of the registry. It touches the registry in three ways only: it registers an enum, it
promises a name to a component, and it stores a shape under a name that was promised. What all three keep
is kept by the pass, also by one that fails. -/

namespace ApiClient

namespace Resolver

variable {J : Registry → Prop} {α β : Type}

/-- The action keeps what holds of the registry, whether it ends well or not. -/
def Preserves (J : Registry → Prop) (x : Resolver α) : Prop :=
  ∀ p, J p.registry → J (x p).2.registry

theorem preserves_iff_upholds {x : Resolver α} :
    Preserves J x ↔ Upholds (fun p => J p.registry) (fun _ p => J p.registry) x := by
  refine forall_congr' fun p => imp_congr_right fun _ => ?_
  rcases x p with ⟨e | a, q⟩ <;> rfl

namespace Preserves

theorem pure (a : α) : Preserves J (Pure.pure a) := fun _ h => h

theorem throw (e : ReferenceError) : Preserves J (throw e : Resolver α) := fun _ h => h

theorem bind {x : Resolver α} {f : α → Resolver β} (hx : Preserves J x)
    (hf : ∀ a, Preserves J (f a)) : Preserves J (x >>= f) :=
  preserves_iff_upholds.mpr ((preserves_iff_upholds.mp hx).bind fun a => preserves_iff_upholds.mp (hf a))

theorem map {x : Resolver α} (f : α → β) (hx : Preserves J x) :
    Preserves J (x >>= fun a => Pure.pure (f a)) := hx.bind fun a => .pure (f a)

theorem mapM {f : α → Resolver β} {as : List α} (hf : ∀ a ∈ as, Preserves J (f a)) :
    Preserves J (as.mapM f) := by
  induction as with
  | nil => exact .pure []
  | cons a as ih =>
    rw [List.forall_mem_cons] at hf
    rw [List.mapM_cons]
    exact hf.1.bind fun b => (ih hf.2).map _

end Preserves

theorem Steady.bind_preserves {x : Resolver α} {f : α → Resolver β} (hx : Steady x)
    (hf : ∀ a, x = pure a → Preserves J (f a)) : Preserves J (x >>= f) := by
  rcases hx with ⟨a, rfl⟩ | ⟨e, rfl⟩
  · rw [pure_bind]
    exact hf a rfl
  · exact .throw e

end Resolver

open Resolver

/-- What every step of a pass keeps of the registry if the parts that it meets obey the rules. -/
structure Rules.Stable (K : Rules) (J : Registry → Prop) : Prop where
  enum : ∀ g key parent vs, K.Key key → K.Key parent → K.values vs → J g →
    J (g.register (Schema.enumName key parent) (.enum vs)).2
  promise : ∀ g c, K.component c → J g → J (g.reserve (capitalCase c)).2
  fill : ∀ g c name D, K.component c → Registry.IsNumbered (capitalCase c) name →
    (∀ vs, D = Definition.enum vs → K.values vs) → J g → J (g.fill name D)

/-- Each name that holds a shape or is promised one has the property. -/
def Registry.NamesHave (T : String → Prop) (g : Registry) : Prop := ∀ name ∈ g.names ++ g.reserved, T name

theorem Registry.namesHave_insert {T : String → Prop} {g : Registry} {name : String}
    (hg : g.NamesHave T) (hname : T name) (D : Definition) {reserved : List String}
    (h : reserved ⊆ g.reserved) : NamesHave T ⟨insertEntry name D g.entries, reserved⟩ := by
  intro n hn
  rcases List.mem_append.mp hn with hn | hn
  · obtain ⟨e, he, rfl⟩ := List.mem_map.mp hn
    rcases mem_insertEntry he with rfl | he
    · exact hname
    · exact hg e.1 (List.mem_append_left _ (List.mem_map_of_mem he))
  · exact hg n (List.mem_append_right _ (h hn))

/-- Names that are made from those of components and of the places of enums. -/
theorem Rules.namesHave_stable {K : Rules} {T : String → Prop}
    (hcomponent : ∀ c n, K.component c → Registry.IsNumbered (capitalCase c) n → T n)
    (henum : ∀ key parent n, K.Key key → K.Key parent →
      Registry.IsNumbered (Schema.enumName key parent) n → T n) : K.Stable (Registry.NamesHave T) where
  enum g key parent vs hkey hparent _ hg := by
    obtain ⟨k, hk, ⟨-, hr⟩ | ⟨-, hr⟩⟩ :=
      Registry.register_cases g (Schema.enumName key parent) (.enum vs)
    · rwa [hr]
    · rw [hr]
      exact Registry.namesHave_insert hg (henum key parent _ hkey hparent ⟨k, hk, rfl⟩) _ fun _ h => h
  promise g c hc hg := by
    obtain ⟨k, hk, -, hr⟩ := Registry.reserve_cases g (capitalCase c)
    rw [hr]
    intro n hn
    rcases List.mem_append.mp hn with hn | hn
    · exact hg n (List.mem_append_left _ hn)
    · rcases List.mem_cons.mp hn with rfl | hn
      · exact hcomponent c _ hc ⟨k, hk, rfl⟩
      · exact hg n (List.mem_append_right _ hn)
  fill g c name D hc hname _ hg :=
    Registry.namesHave_insert hg (hcomponent c name hc hname) D List.erase_subset

section

variable {K : Rules} {J : Registry → Prop} {onRef : String → Resolver TypeExpr}

namespace Outline

mutual

theorem resolve_preserves (hJ : K.Stable J) (h : ∀ r, Preserves J (onRef r)) : (o : Outline) →
    {key parent : String} → o.Obeys K → K.Key key → K.Key parent →
    Preserves J (o.resolve onRef key parent)
  | .ref r, _, _, _, _, _ => h r
  | .enum vs, _, _, ho, hkey, hparent =>
    .map _ fun p hp => hJ.enum p.registry _ _ vs hkey hparent ho hp
  | .primitive _, _, _, _, _, _ => .pure _
  | .unknown, _, _, _, _, _ => .pure _
  | .array o, _, _, ho, hkey, hparent => (resolve_preserves hJ h o ho hkey hparent).map _
  | .map o, _, _, ho, hkey, _ => (resolve_preserves hJ h o ho hkey hkey).map _
  | .object fs, _, _, ho, hkey, _ =>
    (resolveFields_preserve hJ h fs ho.2 (fun _ hf => .property ho.1 (List.mem_map_of_mem hf)) hkey).map _
  | .all os, _, _, ho, hkey, hparent => (resolveAll_preserve hJ h os ho hkey hparent).map _
  | .any os, _, _, ho, hkey, hparent => (resolveAll_preserve hJ h os ho hkey hparent).map _
  | .orNull o, _, _, ho, hkey, hparent => (resolve_preserves hJ h o ho hkey hparent).map _

theorem resolveAll_preserve (hJ : K.Stable J) (h : ∀ r, Preserves J (onRef r)) : (os : List Outline) →
    {key parent : String} → ObeyAll K os → K.Key key → K.Key parent →
    Preserves J (resolveAll onRef os key parent)
  | [], _, _, _, _, _ => .pure _
  | o :: os, _, _, ho, hkey, hparent =>
    (resolve_preserves hJ h o ho.1 hkey hparent).bind fun _ =>
      (resolveAll_preserve hJ h os ho.2 hkey hparent).map _

theorem resolveFields_preserve (hJ : K.Stable J) (h : ∀ r, Preserves J (onRef r)) :
    (fs : List (FieldKey × Outline)) → {key : String} → ObeyFields K fs →
    (∀ f ∈ fs, K.Key f.1.name) → K.Key key → Preserves J (resolveFields onRef fs key)
  | [], _, _, _, _ => .pure _
  | (_, o) :: fs, _, ho, hnames, hkey => by
    rw [List.forall_mem_cons] at hnames
    exact (resolve_preserves hJ h o ho.1 hnames.1 hkey).bind fun _ =>
      (resolveFields_preserve hJ h fs ho.2 hnames.2 hkey).map _

end

end Outline

variable (hJ : K.Stable J)

include hJ

theorem Shape.resolve_preserves (h : ∀ r, Preserves J (onRef r)) {s : Shape} {name : String}
    (hs : s.Obeys K) (hname : K.Key name) : Preserves J (s.resolve onRef name) := by
  cases s with
  | object fs =>
    have hkeys : ∀ f ∈ fs, K.Key f.1.name := fun f hf => .property hs.1 (List.mem_map_of_mem hf)
    exact (Outline.resolveFields_preserve hJ h fs hs.2 hkeys hname).map _
  | enum vs => exact .pure _
  | type o => exact (Outline.resolve_preserves hJ h o hs hname hname).map _

end

namespace Resolver

/-- A shape is stored as an enum only if it is one. -/
theorem shape_of_resolve_enum {onRef : String → Resolver TypeExpr} {s : Shape} {name : String}
    {p q : Pass} {vs : List Json} (h : s.resolve onRef name p = (.ok (.enum vs), q)) : s = .enum vs := by
  cases s with
  | object fs =>
    rw [Shape.resolve] at h
    rcases hrun : Outline.resolveFields onRef fs name p with ⟨e | gs, z⟩
    · rw [bind_error hrun] at h
      cases h
    · rw [bind_ok hrun] at h
      cases h
  | enum ws =>
    cases h
    rfl
  | type o =>
    rw [Shape.resolve] at h
    rcases hrun : o.resolve onRef name name p with ⟨e | t, z⟩
    · rw [bind_error hrun] at h
      cases h
    · rw [bind_ok hrun] at h
      cases h

theorem target_of_shapeOf_enum {onRef : String → Resolver TypeExpr} {r name : String}
    {target : RefOr Schema} {p q : Pass} {vs : List Json}
    (h : shapeOf onRef r name target p = (.ok (.enum vs), q)) : target.shape = .enum vs := by
  cases target with
  | ref next =>
    obtain ⟨-, hresult, -⟩ | ⟨-, result, z, -, hresult, -⟩ := shapeOf_ref_cases h
    · cases hresult
    · rcases result with e | t <;> cases hresult
  | inline s =>
    rw [shapeOf_inline_apply, Schema.define_eq] at h
    rcases hrun : s.shape.resolve onRef name { p with aliasing := [] } with ⟨result, z⟩
    rw [hrun] at h
    obtain rfl : result = .ok (.enum vs) := (Prod.mk.inj h).1
    exact shape_of_resolve_enum hrun

section

variable {K : Rules} {J : Registry → Prop} {onRef : String → Resolver TypeExpr} {c : Components}
  (hJ : K.Stable J) (hc : c.Obeys K)

include hJ

theorem shapeOf_preserves (h : ∀ r, Preserves J (onRef r)) (r : String) {name : String}
    {target : RefOr Schema} (ht : target.shape.Obeys K) (hname : K.Key name) :
    Preserves J (shapeOf onRef r name target) := by
  intro p hp
  cases target with
  | ref next =>
    rcases hshape : shapeOf onRef r name (.ref next) p with ⟨result, q⟩
    obtain ⟨-, -, rfl⟩ | ⟨-, result', z, hrun, -, rfl⟩ := shapeOf_ref_cases hshape
    · exact hp
    · have hz := h next { p with aliasing := r :: p.aliasing } hp
      rwa [hrun] at hz
  | inline s =>
    rw [shapeOf_inline_apply, Schema.define_eq]
    exact Shape.resolve_preserves hJ h ht hname { p with aliasing := [] } hp

include hc

theorem workOut_preserves (h : ∀ r, Preserves J (onRef r)) (r : String) :
    Preserves J (workOut c.schemas onRef r) := by
  intro p hp
  rcases hrun : workOut c.schemas onRef r p with ⟨result, q⟩
  obtain ⟨-, -, -, rfl⟩ | ⟨name, target, hpoints, result', z, hshape, hresult⟩ := workOut_cases hrun
  · exact hp
  · have hmem := Assoc.mem_of_lookup hpoints.2
    have hcomponent := hc.names _ hmem
    have htarget := RefOr.shape_obeys (hc.schemas _ hmem)
    obtain ⟨k, hk, -, hreserve⟩ := Registry.reserve_cases p.registry (capitalCase name)
    have hnumbered : Registry.IsNumbered (capitalCase name)
        (p.registry.reserve (capitalCase name)).1 := ⟨k, hk, congrArg Prod.fst hreserve⟩
    have hz := shapeOf_preserves hJ h r htarget (.component hcomponent hnumbered)
      (p.promised r (capitalCase name)) (hJ.promise p.registry name hcomponent hp)
    rw [hshape] at hz
    rcases hresult with ⟨-, -, -, rfl⟩ | ⟨D, rfl, -, rfl⟩
    · exact hz
    · refine hJ.fill z.registry name _ D hcomponent hnumbered (fun vs hvs => ?_) hz
      rw [hvs] at hshape
      rwa [target_of_shapeOf_enum hshape] at htarget

theorem expand_preserves (levels : Nat) (r : String) : Preserves J (expand c.schemas levels r) := by
  induction levels generalizing r with
  | zero =>
    intro p hp
    cases hname : p.name? r with
    | some n => rwa [expand_of_name? hname]
    | none => rwa [expand_zero hname]
  | succ levels ih =>
    intro p hp
    cases hname : p.name? r with
    | some n => rwa [expand_of_name? hname]
    | none =>
      rw [expand_succ hname]
      exact workOut_preserves hJ hc ih r p hp

theorem ask_preserves {a : Ask} (ha : a.Obeys K) : Preserves J (a.resolve c.schemas) :=
  Outline.resolve_preserves hJ (expand_preserves hJ hc _) a.outline ha.outline ha.key ha.parent

theorem askFields_preserves {asks : List (FieldKey × Ask)} (hasks : ∀ f ∈ asks, f.2.Obeys K)
    (fields : Fields) : Preserves J (askFields c.schemas asks fields) := by
  induction asks generalizing fields with
  | nil => exact .pure _
  | cons f asks ih =>
    rw [List.forall_mem_cons] at hasks
    exact (ask_preserves hJ hc hasks.1).bind fun t => ih hasks.2 _

theorem endpoint_preserves (base : String) {site : Site} (hsite : site.Obeys K) :
    Preserves J (endpoint c base site) := by
  have hask {a : Ask} (ha : site.Asks c a) : a.Obeys K := ha.obeys hc hsite
  rw [endpoint_eq]
  refine (parameters_steady site).bind_preserves fun ps hps => ?_
  refine (askFields_preserves hJ hc (fun f hf => hask (.parameter hps hf)) _).bind fun fields => ?_
  refine (lift_steady _).bind_preserves fun body hbody => ?_
  refine (askFields_preserves hJ hc (fun f hf => hask (.body hbody hf)) _).bind fun requestType => ?_
  refine (answerSchema_steady _ _).bind_preserves fun answer hanswer => ?_
  exact (ask_preserves hJ hc (hask (.answer hanswer))).map _

end

end Resolver

/-- What every step keeps of the registry is kept by a pass over a description that obeys the rules, also
by one that fails. -/
theorem Document.Obeys.endpoints_preserves {K : Rules} {J : Registry → Prop} {d : Document}
    {g : Registry} (hd : d.Obeys K) (hJ : K.Stable J) (hg : J g) : J (d.endpoints g).2 :=
  Preserves.mapM (fun site hsite => endpoint_preserves hJ hd.components _ (hd.sites site hsite))
    { registry := g } hg

theorem Document.Obeys.resolve_preserves {K : Rules} {J : Registry → Prop} {d : Document}
    {R : Resolution} (hd : d.Obeys K) (hJ : K.Stable J) (hempty : J .empty) (h : d.resolve = .ok R) :
    J R.definitions := by
  obtain ⟨eps, q, hrun, hR, -⟩ := d.resolve_eq_ok h
  have hpass := hd.endpoints_preserves hJ hempty
  rwa [endpoints_apply, hrun, hR] at hpass

end ApiClient

import ApiClient.Proofs.Expansion
import ApiClient.Proofs.Readings

/-! From references to whole descriptions: what holds of the resolution of every reference holds of the
pass over a description, and every type in its endpoints is an outline with its names put in. -/

namespace ApiClient

/-- The type is one that some outline stands for. -/
def Pass.Typed (p : Pass) (t : TypeExpr) : Prop := ∃ o : Outline, o.Means p.name? p.registry t

/-- The types of an endpoint: those of its arguments and that of its answer. -/
def Endpoint.types (ep : Endpoint) : List TypeExpr := ep.requestType.map (·.2) ++ [ep.responseType]

/-- The fields have the keys of the table, in the same order, and types of which `Q` holds. -/
def Ask.Types (Q : Ask → TypeExpr → Prop) (table : List (FieldKey × Ask)) (fields : Fields) : Prop :=
  List.Forall₂ (fun f f' => f.1 = f'.1 ∧ Q f.2 f'.2) table fields

theorem Ask.Types.put {Q : Ask → TypeExpr → Prop} {table : List (FieldKey × Ask)} {fields : Fields}
    {key : FieldKey} {a : Ask} {t : TypeExpr} (h : Types Q table fields) (ht : Q a t) :
    Types Q (Assoc.put key a table) (Assoc.put key t fields) := by
  induction h with
  | nil => exact .cons ⟨rfl, ht⟩ .nil
  | @cons f f' table fields hf h ih =>
    obtain ⟨k, b⟩ := f
    obtain ⟨k', u⟩ := f'
    obtain ⟨rfl, hu⟩ := hf
    rw [Assoc.put, Assoc.put]
    split_ifs
    · exact .cons ⟨rfl, ht⟩ h
    · exact .cons ⟨rfl, hu⟩ ih

theorem exists_of_forall₂ {α β : Type} {S : α → β → Prop} {as : List α} {bs : List β} {b : β}
    (h : List.Forall₂ S as bs) (hb : b ∈ bs) : ∃ a ∈ as, S a b := by
  induction h with
  | nil => cases hb
  | cons hab _ ih =>
    rcases List.mem_cons.mp hb with rfl | hb
    · exact ⟨_, List.mem_cons_self, hab⟩
    · obtain ⟨a, ha, hab⟩ := ih hb
      exact ⟨a, List.mem_cons_of_mem _ ha, hab⟩

/-- What comes of fields when types are put among them. -/
structure Ask.Fills (Q : Ask → TypeExpr → Prop) (asks : List (FieldKey × Ask))
    (fields added : Fields) : Prop where
  asked : ∀ f ∈ asks, ∃ t, Q f.2 t
  types : ∀ table, Types Q table fields →
    Types Q (asks.foldl (fun table f => Assoc.put f.1 f.2 table) table) added

/-- The endpoint is what has become of an operation, where `Q` holds of each type that it asks for. -/
structure Site.Resolved (c : Components) (base : String) (Q : Ask → TypeExpr → Prop) (site : Site)
    (ep : Endpoint) : Prop where
  asked : ∀ a, site.Asks c a → ∃ t, Q a t
  endpoint : ∃ R requestType responseType, site.Reads c R ∧
    ep = R.endpoint base site requestType responseType ∧
    Ask.Types Q (Assoc.ofList R.fields) requestType ∧ Q (site.answerAsk R.answer) responseType

theorem Site.Resolved.exists_ask {c : Components} {base : String} {Q : Ask → TypeExpr → Prop}
    {site : Site} {ep : Endpoint} (h : site.Resolved c base Q ep) {t : TypeExpr}
    (ht : t ∈ ep.types) : ∃ a, Q a t := by
  obtain ⟨R, requestType, responseType, -, rfl, htypes, hresponse⟩ := h.endpoint
  rcases List.mem_append.mp ht with ht | ht
  · obtain ⟨f, hf, rfl⟩ := List.mem_map.mp ht
    obtain ⟨a, -, -, ha⟩ := exists_of_forall₂ htypes hf
    exact ⟨a.2, ha⟩
  · obtain rfl := List.mem_singleton.mp ht
    exact ⟨_, hresponse⟩

namespace Resolver

open Pass

variable {I : Pass → Prop} {E : ReferenceError → Pass → Prop} {α β : Type}

theorem Runs.mapM {f : α → Resolver β} {Q : α → β → Pass → Prop} {as : List α}
    (h : ∀ a ∈ as, Runs I E (f a) (Q a)) :
    Runs I E (as.mapM f) fun bs z => List.Forall₂ (fun a b => Q a b z) as bs := by
  induction as with
  | nil => exact .pure fun _ => .nil
  | cons a as ih =>
    rw [List.mapM_cons]
    exact (h a List.mem_cons_self).map₂ (ih fun a ha => h a (List.mem_cons_of_mem _ ha))
      fun b bs z hb hbs => .cons hb hbs

/-- A step that has nothing to do with the pass either fails or hands its result on. -/
theorem Steady.bind_runs {x : Resolver α} {f : α → Resolver β} {R : β → Pass → Prop} (hx : Steady x)
    (hE : ∀ e, x = throw e → ∀ p, I p → E e p) (hf : ∀ a, x = pure a → Runs I E (f a) R) :
    Runs I E (x >>= f) R := by
  obtain ⟨a, rfl⟩ | ⟨e, rfl⟩ := hx
  · rw [pure_bind]
    exact hf a rfl
  · exact Runs.throw (hE e rfl)

variable {c : Components} {schemas : List (String × RefOr Schema)} {Q : Ask → TypeExpr → Pass → Prop}

theorem askFields_runs {asks : List (FieldKey × Ask)}
    (h : ∀ f ∈ asks, Runs I E (f.2.resolve schemas) (Q f.2)) (fields : Fields) :
    Runs I E (askFields schemas asks fields) fun added z =>
      Ask.Fills (fun a t => Q a t z) asks fields added := by
  induction asks generalizing fields with
  | nil => exact .pure fun _ => ⟨by simp, fun _ h => h⟩
  | cons f asks ih =>
    rw [askFields]
    refine ((h f List.mem_cons_self).bind fun t =>
      ih (fun f hf => h f (List.mem_cons_of_mem _ hf)) _).mono ?_
    rintro added z ⟨t, ht, hadded⟩
    exact ⟨List.forall_mem_cons.mpr ⟨⟨t, ht⟩, hadded.asked⟩,
      fun table htable => hadded.types _ (htable.put ht)⟩

section

variable {site : Site} (hE : ∀ e, site.Refuses c e → ∀ p, I p → E e p)
  (hask : ∀ a, site.Asks c a → Runs I E (a.resolve c.schemas) (Q a))

include hE hask

theorem answer_runs (base : String) (ps : List Parameter) (body : Bool × List (FieldKey × Ask))
    (requestType : Fields) :
    Runs I E (do
      let answer ← answerSchema c site.operation.responses preferredAnswers
      let responseType ← (site.answerAsk answer).resolve c.schemas
      return Reading.endpoint ⟨ps, body.1, body.2, answer⟩ base site requestType responseType)
      fun ep z => ∃ answer t,
        answerSchema c site.operation.responses preferredAnswers = pure answer ∧
        Q (site.answerAsk answer) t z ∧
        ep = Reading.endpoint ⟨ps, body.1, body.2, answer⟩ base site requestType t :=
  (answerSchema_steady _ _).bind_runs (fun e h => hE e (.answer h))
    fun answer hread => (hask _ (.answer hread)).map fun t _ ht => ⟨answer, t, hread, ht, rfl⟩

/-- What holds of each type that an operation asks for holds of those that its endpoint gets. -/
theorem endpoint_runs (base : String) :
    Runs I E (endpoint c base site) fun ep z => site.Resolved c base (fun a t => Q a t z) ep := by
  rw [endpoint_eq]
  refine (parameters_steady site).bind_runs (fun e h => hE e (.parameters h))
    fun ps hps => ?_
  have hbody (fields : Fields) := (lift_steady (site.body c)).bind_runs
    (fun e h => hE e (.body h))
    fun body hread => ((askFields_runs (fun f hf => hask f.2 (.body hread hf)) fields).bind
      (answer_runs hE hask base ps body)).mono
      (Q := fun ep z => ∃ body requestType, lift (site.body c) = pure body ∧
        Ask.Fills (fun a t => Q a t z) body.2 fields requestType ∧ ∃ answer t,
          answerSchema c site.operation.responses preferredAnswers = pure answer ∧
          Q (site.answerAsk answer) t z ∧
          ep = Reading.endpoint ⟨ps, body.1, body.2, answer⟩ base site requestType t)
      fun ep z ⟨requestType, hfills, hep⟩ => ⟨body, requestType, hread, hfills, hep⟩
  refine ((askFields_runs (fun f hf => hask f.2 (.parameter hps hf)) []).bind hbody).mono ?_
  rintro ep z ⟨fields, hfields, body, requestType, hread, hrequest, answer, t, hanswer, ht, rfl⟩
  refine ⟨fun a ha => ?_, ⟨ps, body.1, body.2, answer⟩, requestType, t, ⟨hps, hread, hanswer⟩, rfl,
    ?_, ht⟩
  · cases ha with
    | parameter h hf =>
      obtain rfl := pure_injective (h.symm.trans hps)
      exact hfields.asked _ hf
    | body h hf =>
      obtain rfl := pure_injective (h.symm.trans hread)
      exact hrequest.asked _ hf
    | answer h =>
      obtain rfl := pure_injective (h.symm.trans hanswer)
      exact ⟨t, ht⟩
  · rw [Reading.fields, Assoc.ofList, List.foldl_append]
    exact hrequest.types _ (hfields.types [] .nil)

end

/-- What holds of each type that a description asks for holds of those that its endpoints get. -/
theorem endpoints_runs {d : Document}
    (hE : ∀ site ∈ d.sites, ∀ e, site.Refuses d.components e → ∀ p, I p → E e p)
    (hask : ∀ site ∈ d.sites, ∀ a, site.Asks d.components a →
      Runs I E (a.resolve d.components.schemas) (Q a)) :
    Runs I E (endpoints d) fun eps z => List.Forall₂ (fun site ep =>
      site.Resolved d.components (Url.basePath d.servers) (fun a t => Q a t z) ep) d.sites eps :=
  .mapM fun site hsite => endpoint_runs (hE site hsite) (hask site hsite) _

end Resolver

open Resolver Pass

section

variable {d : Document} {R : Resolution}

theorem Document.endpoints_apply (d : Document) (g : Registry) :
    d.endpoints g = ((Resolver.endpoints d { registry := g }).1,
      (Resolver.endpoints d { registry := g }).2.registry) := rfl

/-- A description is resolved by a pass over its operations. -/
theorem Document.resolve_eq_ok (h : d.resolve = .ok R) :
    ∃ eps q, Resolver.endpoints d { registry := .empty } = (.ok eps, q) ∧
      q.registry = R.definitions ∧ R.operations.Perm eps := by
  rw [Document.resolve, endpoints_apply] at h
  rcases hrun : Resolver.endpoints d { registry := .empty } with ⟨e | eps, q⟩
  · rw [hrun] at h
    cases h
  · rw [hrun] at h
    obtain rfl := Except.ok.inj h
    exact ⟨eps, q, rfl, rfl, List.mergeSort_perm _ _⟩

theorem Ask.resolve_runs {I : Pass → Prop} {E : ReferenceError → Pass → Prop} (hI : EnumStable I)
    (schemas : List (String × RefOr Schema)) (a : Ask)
    (href : ∀ r ∈ a.outline.refs, Outline.Named I E (reference schemas) r) :
    Runs I E (a.resolve schemas) fun t z => a.outline.Means z.name? z.registry t :=
  Outline.resolve_runs hI a.outline a.key a.parent href

/-- What holds at the start and is kept by the resolution of every reference holds of the pass that has
resolved a description. -/
theorem Document.resolve_runs {I : Pass → Prop} {E : ReferenceError → Pass → Prop}
    (hE : ∀ e p, I p → E e p) (hI : EnumStable I)
    (href : ∀ r, Outline.Named I E (reference d.components.schemas) r)
    (hstart : I { registry := .empty }) (h : d.resolve = .ok R) :
    ∃ q : Pass, q.registry = R.definitions ∧ I q ∧
      ∀ ep ∈ R.operations, ∀ t ∈ ep.types, q.Typed t := by
  have hruns := endpoints_runs (fun _ _ e _ => hE e) fun site _ a _ =>
    a.resolve_runs hI d.components.schemas fun r _ => href r
  obtain ⟨eps, q, hrun, hR, hperm⟩ := resolve_eq_ok h
  obtain ⟨hq, -, heps⟩ := hruns.ok hstart hrun
  refine ⟨q, hR, hq, fun ep hep t ht => ?_⟩
  obtain ⟨site, -, hsite⟩ := exists_of_forall₂ (heps q (.refl q)) (hperm.mem_iff.mp hep)
  obtain ⟨a, ha⟩ := hsite.exists_ask ht
  exact ⟨a.outline, ha⟩

/-- What has been computed from a resolution is so of one that there is. -/
theorem Document.resolve_of_map {α : Type} {f : Resolution → α} {a : α}
    (h : d.resolve.toOption.map f = some a) : ∃ R, d.resolve = .ok R ∧ f R = a := by
  obtain ⟨R, hR, ha⟩ := Option.map_eq_some_iff.mp h
  refine ⟨R, ?_, ha⟩
  cases hd : d.resolve with
  | ok S =>
    rw [hd] at hR
    exact congrArg Except.ok (Option.some.inj hR)
  | error e =>
    rw [hd] at hR
    cases hR

/-- What has been computed from the endpoints of a pass is so of those of a resolution. -/
theorem Document.resolve_of_endpoints {α : Type} {f : List Endpoint → α} {a : α}
    (h : (d.endpoints .empty).1.toOption.map f = some a) :
    ∃ R eps, d.resolve = .ok R ∧ d.endpoints .empty = (.ok eps, R.definitions) ∧ f eps = a := by
  obtain ⟨eps, heps, ha⟩ := Option.map_eq_some_iff.mp h
  rw [Document.resolve]
  rcases hpass : d.endpoints .empty with ⟨e | eps', g⟩
  · rw [hpass] at heps
    cases heps
  · rw [hpass] at heps
    obtain rfl := Option.some.inj heps
    exact ⟨_, eps', rfl, rfl, ha⟩

/-- Each reference gets its name, whatever it belongs to. -/
theorem Resolver.reference_named (schemas : List (String × RefOr Schema)) (base : Registry)
    (p : Pass) (r : String) :
    Outline.Named (p.Completes schemas (fun _ => True) base)
      (fun _ q => p.Follows schemas (fun _ => True) base q) (reference schemas) r := by
  have hexpands : Expands schemas (fun _ => True) base (reference schemas) r :=
    reference_expands closedUnder_all trivial
  exact (hexpands.named (List.mem_singleton_self r) p).weaken fun _ _ h => h.1

/-- The pass that has resolved a description is sound and has kept its promises. -/
theorem Document.resolve_sound (h : d.resolve = .ok R) :
    ∃ q : Pass, q.registry = R.definitions ∧
      q.Sound d.components.schemas (fun _ => True) .empty ∧ R.definitions.reserved = [] ∧
      ∀ ep ∈ R.operations, ∀ t ∈ ep.types, q.Typed t := by
  let start : Pass := { registry := .empty }
  have hstart : start.Sound d.components.schemas (fun _ => True) .empty :=
    .start Registry.Ordered.empty
  obtain ⟨q, hq, hcompletes, htyped⟩ := d.resolve_runs (fun _ _ hp => hp.toFollows)
    completes_enumStable (reference_named _ .empty _) (.refl hstart) h
  exact ⟨q, hq, hcompletes.sound, hq ▸ hcompletes.reserved, htyped⟩

end

end ApiClient

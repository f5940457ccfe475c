import ApiClient.Proofs.Drafts
import ApiClient.Proofs.Success
import ApiClient.Proofs.Unfolding

/-! The order of the paths. All operations share one registry, so the order of the paths decides which
shape gets a name and which shapes get numbered variants of it. It decides nothing else. -/

namespace ApiClient

open Registry (IsNumbered)
open Resolver Pass

/-- Two types, each in its registry, that show no difference at any depth, and are one type but for the
numbers of names. -/
structure TypeExpr.Agrees (g h : Registry) (t u : TypeExpr) : Prop where
  unfolding : ∀ depth, (t.unfold g depth).Same (u.unfold h depth)
  names : ∃ v : TypeExpr, v.Renamed IsNumbered t ∧ v.Renamed IsNumbered u

/-- Two endpoints that differ in the numbers of names only. -/
structure Endpoint.Agrees (g h : Registry) (a b : Endpoint) : Prop where
  url : a.url = b.url
  method : a.method = b.method
  operationId : a.operationId = b.operationId
  pathParams : a.pathParams = b.pathParams
  queryParams : a.queryParams = b.queryParams
  bodyParams : a.bodyParams = b.bodyParams
  formParams : a.formParams = b.formParams
  requestType : List.Forall₂ (fun f f' => f.1 = f'.1 ∧ f.2.Agrees g h f'.2) a.requestType b.requestType
  responseType : a.responseType.Agrees g h b.responseType

/-! ### One operation in two passes -/

theorem Site.Reads.unique {c : Components} {site : Site} {R R' : Reading} (h : site.Reads c R)
    (h' : site.Reads c R') : R = R' := by
  obtain ⟨ps, hasBody, bodyFields, answer⟩ := R
  obtain ⟨ps', hasBody', bodyFields', answer'⟩ := R'
  obtain rfl := pure_injective (h.parameters.symm.trans h'.parameters)
  obtain ⟨rfl, rfl⟩ := Prod.mk.inj (pure_injective (h.body.symm.trans h'.body))
  obtain rfl := pure_injective (h.answer.symm.trans h'.answer)
  rfl

section

variable {g h : Registry} {Q Q' : Ask → TypeExpr → Prop}
  (hQ : ∀ a t u, Q a t → Q' a u → t.Agrees g h u)

include hQ

theorem Ask.Types.agrees {table : List (FieldKey × Ask)} {fields fields' : Fields}
    (hfields : Types Q table fields) (hfields' : Types Q' table fields') :
    List.Forall₂ (fun f f' => f.1 = f'.1 ∧ f.2.Agrees g h f'.2) fields fields' := by
  induction hfields generalizing fields' with
  | nil =>
    cases hfields'
    exact .nil
  | cons hf _ ih =>
    cases hfields' with
    | cons hf' hfields' =>
      exact .cons ⟨hf.1.symm.trans hf'.1, hQ _ _ _ hf.2 hf'.2⟩ (ih hfields')

theorem Site.Resolved.agrees {c : Components} {base : String} {site : Site} {ep ep' : Endpoint}
    (hep : site.Resolved c base Q ep) (hep' : site.Resolved c base Q' ep') : ep.Agrees g h ep' := by
  obtain ⟨R, fields, t, hR, rfl, hfields, ht⟩ := hep.endpoint
  obtain ⟨R', fields', u, hR', rfl, hfields', hu⟩ := hep'.endpoint
  obtain rfl := hR.unique hR'
  exact ⟨rfl, rfl, rfl, rfl, rfl, rfl, rfl, hfields.agrees hQ hfields', hQ _ _ _ ht hu⟩

end

/-! ### One description -/

/-- The endpoints of the operations of a description, in its order. -/
structure Document.Lists (d : Document) (R : Resolution) (eps : List Endpoint) : Prop where
  pass : d.endpoints .empty = (.ok eps, R.definitions)
  operations : R.operations.Perm eps
  length : eps.length = d.sites.length

/-- What an outline gets in a pass: its references have the names that `ρ` gives them, and the numbers
of names are all that there is to choose. -/
structure Ask.Gets (ρ : String → Option String) (g : Registry) (a : Ask) (t : TypeExpr) : Prop where
  means : a.outline.Means ρ g t
  draft : (a.outline.draft a.key a.parent).Renamed IsNumbered t

theorem Ask.Gets.agrees {schemas : List (String × RefOr Schema)} {ρ σ : String → Option String}
    {g h : Registry} (hρ : Naming schemas ρ g) (hσ : Naming schemas σ h) (a : Ask) (t u : TypeExpr)
    (ht : a.Gets ρ g t) (hu : a.Gets σ h u) : t.Agrees g h u where
  unfolding := hρ.type_unfold_same hσ ht.means hu.means
  names := ⟨_, ht.draft, hu.draft⟩

/-- A pass that has resolved a description has given names to references, and put them into all that the
operations ask for. -/
theorem Document.resolve_gets {d : Document} {R : Resolution} (h : d.resolve = .ok R) :
    ∃ eps ρ, d.Lists R eps ∧ Naming d.components.schemas ρ R.definitions ∧
      List.Forall₂ (fun site ep =>
        site.Resolved d.components (Url.basePath d.servers) (Ask.Gets ρ R.definitions) ep)
        d.sites eps := by
  let start : Pass := { registry := .empty }
  have hstart : start.Sound d.components.schemas (fun _ => True) .empty :=
    .start Registry.Ordered.empty
  have hnamed := reference_named d.components.schemas .empty start
  have hgets (a : Ask) : Runs (start.Completes d.components.schemas (fun _ => True) .empty)
      (fun _ q => start.Follows d.components.schemas (fun _ => True) .empty q)
      (a.resolve d.components.schemas) fun t z => a.Gets z.name? z.registry t := by
    have hmeans := a.resolve_runs completes_enumStable d.components.schemas fun r _ => hnamed r
    have hdraft := a.outline.draft_runs completes_enumStable a.key a.parent
      fun r _ => (hnamed r).asWanted fun q hq => hq.sound
    exact (hmeans.and hdraft).mono fun t z ht => ⟨ht.1, ht.2⟩
  have hruns := endpoints_runs (d := d) (fun _ _ _ _ _ hp => hp.toFollows) fun _ _ a _ => hgets a
  obtain ⟨eps, q, hrun, hR, hperm⟩ := resolve_eq_ok h
  obtain ⟨hq, -, heps⟩ := hruns.ok (.refl hstart) hrun
  have hsites := heps q (.refl q)
  rw [hR] at hsites
  refine ⟨eps, q.name?, ⟨?_, hperm, hsites.length_eq.symm⟩, ?_, hsites⟩
  · rw [endpoints_apply, hrun, hR]
  · rw [← hR]
    exact hq.sound.naming hq.reserved

/-! ### Two orders -/

theorem Document.sites_perm {d : Document} {paths : List (String × PathItem)}
    (h : paths.Perm d.paths) : Document.sites { d with paths } |>.Perm d.sites :=
  h.flatMap_right _

/-- The order of the paths does not matter to whether a description is resolved, and it shows in the
numbers of names only. -/
theorem Document.resolve_perm {d : Document} {paths : List (String × PathItem)}
    (h : paths.Perm d.paths) :
    ((∃ R', Document.resolve { d with paths } = .ok R') ↔ ∃ R, d.resolve = .ok R) ∧
      ∀ R R', d.resolve = .ok R → Document.resolve { d with paths } = .ok R' →
        ∃ eps eps', d.Lists R eps ∧ Document.Lists { d with paths } R' eps' ∧
          ∀ site ep ep', (site, ep) ∈ d.sites.zip eps →
            (site, ep') ∈ (Document.sites { d with paths }).zip eps' →
              ep.Agrees R.definitions R'.definitions ep' := by
  have hsites (site : Site) : site ∈ Document.sites { d with paths } ↔ site ∈ d.sites :=
    (sites_perm h).mem_iff
  refine ⟨?_, fun R R' hR hR' => ?_⟩
  · rw [resolve_ok_iff, resolve_ok_iff]
    constructor
    · exact fun hd => ⟨fun site hsite => hd.reads site ((hsites site).mpr hsite),
        fun site hsite => hd.sane site ((hsites site).mpr hsite)⟩
    · exact fun hd => ⟨fun site hsite => hd.reads site ((hsites site).mp hsite),
        fun site hsite => hd.sane site ((hsites site).mp hsite)⟩
  · obtain ⟨eps, ρ, hlists, hρ, heps⟩ := resolve_gets hR
    obtain ⟨eps', σ, hlists', hσ, heps'⟩ := resolve_gets hR'
    refine ⟨eps, eps', hlists, hlists', fun site ep ep' hep hep' => ?_⟩
    exact (List.forall₂_zip heps hep).agrees (Ask.Gets.agrees hρ hσ) (List.forall₂_zip heps' hep')

/-- An enum in one operation and a component that another one refers to, which want the same name. -/
def statusDocument : Document where
  paths := [
    ("/a", {
      operation? := fun m => if m = .get then some {
        operationId := some "a"
        parameters := [.inline {
          name := "status"
          location := "query"
          schema := some (.inline { enum := some [.str "on", .str "off"] }) }] }
        else none }),
    ("/b", {
      operation? := fun m => if m = .get then some {
        operationId := some "b"
        responses := [("200", .inline ⟨[("application/json", some (.ref "#/components/schemas/status"))]⟩)] }
        else none })]
  components.schemas := [("status", .inline { type := some (.single "string") })]

theorem resolve_perm_status :
    let reversed : Document := { statusDocument with paths := statusDocument.paths.reverse }
    let called (eps : List Endpoint) := eps.map fun ep => ep.types.map (·.same (.named "Status"))
    ∃ R R' eps eps', statusDocument.resolve = .ok R ∧ reversed.resolve = .ok R' ∧
      called eps = [[true, false], [false]] ∧ called eps' = [[true], [false, false]] ∧
      statusDocument.Lists R eps ∧ reversed.Lists R' eps' ∧
      ∀ site ep ep', (site, ep) ∈ statusDocument.sites.zip eps →
        (site, ep') ∈ reversed.sites.zip eps' → ep.Agrees R.definitions R'.definitions ep' := by
  intro reversed called
  have hrun : (statusDocument.endpoints .empty).1.toOption.map called =
      some [[true, false], [false]] := by decide +kernel
  have hrun' : (reversed.endpoints .empty).1.toOption.map called =
      some [[true], [false, false]] := by decide +kernel
  obtain ⟨R, eps, hR, hpass, hcalled⟩ := Document.resolve_of_endpoints hrun
  obtain ⟨R', eps', hR', hpass', hcalled'⟩ := Document.resolve_of_endpoints hrun'
  obtain ⟨eps₁, eps₁', hlists, hlists', hagree⟩ :=
    (Document.resolve_perm (d := statusDocument) (List.reverse_perm _)).2 R R' hR hR'
  obtain rfl := Except.ok.inj (Prod.mk.inj (hlists.pass.symm.trans hpass)).1
  obtain rfl := Except.ok.inj (Prod.mk.inj (hlists'.pass.symm.trans hpass')).1
  exact ⟨R, R', eps₁, eps₁', hR, hR', hcalled, hcalled', hlists, hlists', hagree⟩

end ApiClient

import ApiClient.Proofs.InPlace
import ApiClient.Proofs.Listing

/-! Paths that are added at the end of a description. The pass over the longer description starts with
the pass over the shorter one, and what comes after it adds shapes and changes none. -/

namespace ApiClient

open Resolver Pass

variable {d : Document} {later : List (String × PathItem)}

theorem Document.sites_append (d : Document) (later : List (String × PathItem)) :
    Document.sites { d with paths := d.paths ++ later } =
      d.sites ++ Document.sites { d with paths := later } :=
  List.flatMap_append

namespace Resolver

/-- The operations of the later paths are resolved in the state in which the earlier ones leave the
pass. -/
theorem endpoints_append (d : Document) (later : List (String × PathItem)) :
    endpoints { d with paths := d.paths ++ later } = do
      let eps ← endpoints d
      let added ← endpoints { d with paths := later }
      return eps ++ added := by
  rw [endpoints, Document.sites_append, List.mapM_append]
  rfl

/-- A pass over a description that ends well leaves each name and each shape of the passes before it. -/
theorem endpoints_grows {base : Registry} {p q : Pass} {eps : List Endpoint}
    (hp : p.Sound d.components.schemas (fun _ => True) base) (h : endpoints d p = (.ok eps, q)) :
    p.Grows q := by
  have hruns := endpoints_runs (d := d) (fun _ _ _ _ _ hz => hz.toFollows) fun _ _ a _ =>
    a.resolve_runs completes_enumStable d.components.schemas
      fun r _ => reference_named _ base p r
  exact (hruns.ok (.refl hp) h).2.1

end Resolver

/-- A description that resolves with some paths at its end resolves without them. It has the same
endpoints up to there, and each of its shapes stays under its name. -/
theorem Document.resolve_extends {R' : Resolution}
    (h : Document.resolve { d with paths := d.paths ++ later } = .ok R') :
    ∃ R eps eps', d.resolve = .ok R ∧ d.endpoints .empty = (.ok eps, R.definitions) ∧
      Document.endpoints { d with paths := d.paths ++ later } .empty = (.ok eps', R'.definitions) ∧
      eps <+: eps' ∧ R.definitions.entries ⊆ R'.definitions.entries := by
  obtain ⟨eps', q', hrun', hR', -⟩ := resolve_eq_ok h
  have hparts := hrun'
  rw [endpoints_append] at hparts
  obtain ⟨eps, q, hrun, hparts⟩ := bind_eq_ok hparts
  obtain ⟨added, z, hadded, hparts⟩ := bind_eq_ok hparts
  obtain ⟨rfl, rfl⟩ := pure_eq_ok hparts
  have hq : q.Sound d.components.schemas (fun _ => True) .empty := by
    have hx := endpoints_outcome d Registry.Ordered.empty
    rw [hrun] at hx
    exact hx.sound
  have hgrows : q.Grows z := endpoints_grows (d := { d with paths := later }) hq hadded
  refine ⟨⟨eps.mergeSort (inOrder (·.operationId)), q.registry⟩, eps, eps ++ added, ?_, ?_, ?_,
    List.prefix_append eps added, fun e he => ?_⟩
  · rw [Document.resolve, endpoints_apply, hrun]
    rfl
  · rw [endpoints_apply, hrun]
  · rw [endpoints_apply, hrun', hR']
  · rw [← hR']
    exact Registry.mem_of_get? (hgrows.registry e.1 e.2 (hq.ordered.get?_of_mem he))

/-- An operation with an enum in it. -/
def stateOperation (id : String) (values : List Json) : String × PathItem :=
  ("/" ++ id, {
    operation? := fun m => if m = .get then some {
      operationId := some id
      parameters := [.inline {
        name := "state", location := "query", schema := some (.inline { enum := some values }) }] }
      else none })

theorem resolve_extends_state :
    let d : Document := { paths := [stateOperation "lamps" [.str "on", .str "off"]] }
    let later := [stateOperation "doors" [.str "open", .str "shut"]]
    ∃ R R' eps eps', d.resolve = .ok R ∧
      Document.resolve { d with paths := d.paths ++ later } = .ok R' ∧
      R.definitions.names = ["State"] ∧ R'.definitions.names = ["State", "State2"] ∧
      d.endpoints .empty = (.ok eps, R.definitions) ∧
      Document.endpoints { d with paths := d.paths ++ later } .empty = (.ok eps', R'.definitions) ∧
      eps <+: eps' ∧ R.definitions.entries ⊆ R'.definitions.entries := by
  intro d later
  have hnames : d.resolve.toOption.map (·.definitions.names) = some ["State"] := by decide +kernel
  have hnames' : (Document.resolve { d with paths := d.paths ++ later }).toOption.map
      (·.definitions.names) = some ["State", "State2"] := by decide +kernel
  obtain ⟨R₁, hR₁, hnames⟩ := Document.resolve_of_map hnames
  obtain ⟨R', hR', hnames'⟩ := Document.resolve_of_map hnames'
  obtain ⟨R, eps, eps', hR, hpass, hpass', hprefix, hentries⟩ :=
    Document.resolve_extends (d := d) hR'
  obtain rfl := Except.ok.inj (hR₁.symm.trans hR)
  exact ⟨R₁, R', eps, eps', hR, hR', hnames, hnames', hpass, hpass', hprefix, hentries⟩

end ApiClient

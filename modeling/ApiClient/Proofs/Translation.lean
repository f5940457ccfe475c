import ApiClient.Proofs.Expansion

/-! Resolving a schema with a fresh resolver is putting names into outlines, one for each reference that
is met on the way. Which names were free at the time does not show in the result. -/

namespace ApiClient

/-- The references that are met when an outline is resolved: its own, and those in the components of
references that are met. -/
inductive Outline.Reaches (schemas : List (String × RefOr Schema)) (o : Outline) : String → Prop
  | own {r : String} : r ∈ o.refs → Reaches schemas o r
  | through {r c s : String} {target : RefOr Schema} :
    Reaches schemas o r → Reference.Points schemas r c target → s ∈ target.shape.refs →
      Reaches schemas o s

/-- The type and the registry are the outline and the components that it reaches, with names put in by
`ρ`: each reference that is met has one name, no two have the same, and under its name stands the shape
of its component. -/
structure Translates (schemas : List (String × RefOr Schema)) (o : Outline)
    (ρ : String → Option String) (t : TypeExpr) (g : Registry) : Prop extends
    Naming schemas ρ g where
  met : ∀ r, (∃ n, ρ r = some n) ↔ o.Reaches schemas r
  type : o.Means ρ g t

namespace Resolver

open Pass

variable {schemas : List (String × RefOr Schema)} {key parent : String} {t : TypeExpr} {q : Pass}

theorem reaches_closed (o : Outline) : ClosedUnder schemas (o.Reaches schemas) :=
  fun _ _ _ hr hp _ hs => .through hr hp hs

/-- Whatever an outline reaches has a name, if the outline means anything. -/
theorem reaches_named {ρ : String → Option String} {g : Registry} {o : Outline}
    (hρ : Naming schemas ρ g) (ho : o.Means ρ g t) {r : String} (h : o.Reaches schemas r) :
    ∃ n, ρ r = some n := by
  induction h with
  | own hr => exact ho.named hr
  | through _ hp hs ih =>
    obtain ⟨n, hn⟩ := ih
    obtain ⟨c, target, d, hp', -, -, hmeans⟩ := hρ.component _ n hn
    obtain ⟨rfl, rfl⟩ := hp.unique hp'
    exact hmeans.named hs

/-- A schema that a fresh resolver resolves is translated, whatever names collide on the way. -/
theorem schema?_translates {s : Option (RefOr Schema)}
    (h : schema? schemas s key parent { registry := .empty } = (.ok t, q)) :
    ∃ ρ, Translates schemas (Schema.outlineOf? s) ρ t q.registry := by
  rw [schema?_eq] at h
  generalize Schema.outlineOf? s = o at h ⊢
  let start : Pass := { registry := .empty }
  have hstart : start.Sound schemas (o.Reaches schemas) .empty := .start Registry.Ordered.empty
  have hnamed (r : String) (hr : r ∈ o.refs) :
      Outline.Named (start.Completes schemas (o.Reaches schemas) .empty)
        (Fails schemas (o.Reaches schemas) .empty start o.refs) (reference schemas) r :=
    (reference_expands (reaches_closed o) (.own hr)).named hr start
  have hruns := Outline.resolve_runs completes_enumStable o key parent hnamed
  obtain ⟨hq, -, hmeans⟩ := hruns.ok (.refl hstart) h
  have htype := hmeans q (.refl q)
  have hnaming := hq.sound.naming hq.reserved
  refine ⟨q.name?, hnaming, fun r => ⟨?_, reaches_named hnaming htype⟩, htype⟩
  rintro ⟨n, hn⟩
  exact (hq.sound.faithful r n hn).1

/-- Components whose names collide with each other and with an enum. -/
def collidingSchemas : List (String × RefOr Schema) :=
  [("node", .inline {
      properties := [
        ("state", .inline { enum := some [.str "on", .str "off"] }),
        ("next", .ref "#/components/schemas/node"),
        ("other", .ref "#/components/schemas/Node")] }),
    ("Node", .ref "#/components/schemas/nodeState"),
    ("nodeState", .inline { enum := some [.str "idle"] })]

theorem schema?_translates_colliding :
    ∃ t q, schema? collidingSchemas (some (.ref "#/components/schemas/node")) "a" "a"
        { registry := .empty } = (.ok t, q) ∧
      q.registry.names = ["Node", "Node2", "NodeState", "NodeState2"] ∧
      ∃ ρ, Translates collidingSchemas (.ref "#/components/schemas/node") ρ t q.registry := by
  have hrun : (schema? collidingSchemas (some (.ref "#/components/schemas/node")) "a" "a"
        { registry := .empty }).1.isOk = true ∧
      (schema? collidingSchemas (some (.ref "#/components/schemas/node")) "a" "a"
        { registry := .empty }).2.registry.names = ["Node", "Node2", "NodeState", "NodeState2"] := by
    decide +kernel
  rcases h : schema? collidingSchemas (some (.ref "#/components/schemas/node")) "a" "a"
    { registry := .empty } with ⟨e | t, q⟩
  · rw [h] at hrun
    exact absurd hrun.1 Bool.false_ne_true
  · rw [h] at hrun
    exact ⟨t, q, rfl, hrun.2, schema?_translates h⟩

end Resolver

end ApiClient

import ApiClient.Proofs.Outline

/-! When a type is an outline with its names put in: a reference is called what `ρ` calls it, and an
enum by a name that holds its values in the registry. Nothing else of a pass shows in a type. -/

namespace ApiClient

mutual

inductive Outline.Means (ρ : String → Option String) (g : Registry) : Outline → TypeExpr → Prop
  | ref {r n : String} : ρ r = some n → Means ρ g (.ref r) (.named n)
  | enum {vs : List Json} {n : String} : g.HoldsEnum n vs → Means ρ g (.enum vs) (.named n)
  | primitive {p : Primitive} : Means ρ g (.primitive p) (.primitive p)
  | unknown : Means ρ g .unknown .unknown
  | array {o : Outline} {t : TypeExpr} : Means ρ g o t → Means ρ g (.array o) (.array t)
  | map {o : Outline} {t : TypeExpr} : Means ρ g o t → Means ρ g (.map o) (.map t)
  | object {fs : List (FieldKey × Outline)} {gs : Fields} :
    FieldsMean ρ g fs gs → Means ρ g (.object fs) (.object gs)
  | all {os : List Outline} {ts : List TypeExpr} :
    AllMean ρ g os ts → Means ρ g (.all os) (Schema.collapse .intersection ts)
  | any {os : List Outline} {ts : List TypeExpr} :
    AllMean ρ g os ts → Means ρ g (.any os) (Schema.collapse .union ts)
  | orNull {o : Outline} {t : TypeExpr} : Means ρ g o t → Means ρ g (.orNull o) (Schema.orNull t)

inductive Outline.AllMean (ρ : String → Option String) (g : Registry) :
    List Outline → List TypeExpr → Prop
  | nil : AllMean ρ g [] []
  | cons {o : Outline} {os : List Outline} {t : TypeExpr} {ts : List TypeExpr} :
    Means ρ g o t → AllMean ρ g os ts → AllMean ρ g (o :: os) (t :: ts)

inductive Outline.FieldsMean (ρ : String → Option String) (g : Registry) :
    List (FieldKey × Outline) → Fields → Prop
  | nil : FieldsMean ρ g [] []
  | cons {k : FieldKey} {o : Outline} {fs : List (FieldKey × Outline)} {t : TypeExpr}
    {gs : Fields} : Means ρ g o t → FieldsMean ρ g fs gs → FieldsMean ρ g ((k, o) :: fs) ((k, t) :: gs)

end

namespace Outline

variable {ρ σ : String → Option String} {g h : Registry} {r : String}

mutual

/-- More names and more shapes leave the meaning of an outline as it is. -/
theorem Means.mono (hρ : ∀ r n, ρ r = some n → σ r = some n) (hg : g.Kept h) {o : Outline}
    {t : TypeExpr} : o.Means ρ g t → o.Means σ h t
  | .ref hn => .ref (hρ _ _ hn)
  | .enum hn => .enum (hn.kept hg)
  | .primitive => .primitive
  | .unknown => .unknown
  | .array hm => .array (hm.mono hρ hg)
  | .map hm => .map (hm.mono hρ hg)
  | .object hm => .object (hm.mono hρ hg)
  | .all hm => .all (hm.mono hρ hg)
  | .any hm => .any (hm.mono hρ hg)
  | .orNull hm => .orNull (hm.mono hρ hg)

theorem AllMean.mono (hρ : ∀ r n, ρ r = some n → σ r = some n) (hg : g.Kept h)
    {os : List Outline} {ts : List TypeExpr} : AllMean ρ g os ts → AllMean σ h os ts
  | .nil => .nil
  | .cons hm hms => .cons (hm.mono hρ hg) (hms.mono hρ hg)

theorem FieldsMean.mono (hρ : ∀ r n, ρ r = some n → σ r = some n) (hg : g.Kept h)
    {fs : List (FieldKey × Outline)} {gs : Fields} : FieldsMean ρ g fs gs → FieldsMean σ h fs gs
  | .nil => .nil
  | .cons hm hms => .cons (hm.mono hρ hg) (hms.mono hρ hg)

end

mutual

/-- An outline means something only if all of its references have names. -/
theorem Means.named {o : Outline} {t : TypeExpr} : o.Means ρ g t → r ∈ o.refs → ∃ n, ρ r = some n
  | .ref hn, h => by
    obtain rfl := List.mem_singleton.mp h
    exact ⟨_, hn⟩
  | .array hm, h => hm.named h
  | .map hm, h => hm.named h
  | .object hm, h => hm.named h
  | .all hm, h => hm.named h
  | .any hm, h => hm.named h
  | .orNull hm, h => hm.named h

theorem AllMean.named {os : List Outline} {ts : List TypeExpr} :
    AllMean ρ g os ts → r ∈ refsOfAll os → ∃ n, ρ r = some n
  | .cons hm hms, h => by
    rcases List.mem_append.mp h with h | h
    · exact hm.named h
    · exact hms.named h

theorem FieldsMean.named {fs : List (FieldKey × Outline)} {gs : Fields} :
    FieldsMean ρ g fs gs → r ∈ refsOfFields fs → ∃ n, ρ r = some n
  | .cons hm hms, h => by
    rcases List.mem_append.mp h with h | h
    · exact hm.named h
    · exact hms.named h

end

end Outline

/-- The definition is the shape with its names put in. -/
inductive Shape.Means (ρ : String → Option String) (g : Registry) : Shape → Definition → Prop
  | object {fs : List (FieldKey × Outline)} {gs : Fields} :
    Outline.FieldsMean ρ g fs gs → Means ρ g (.object fs) (.object gs)
  | enum {vs : List Json} : Means ρ g (.enum vs) (.enum vs)
  | type {o : Outline} {t : TypeExpr} : o.Means ρ g t → Means ρ g (.type o) (.alias t)

theorem Shape.Means.mono {ρ σ : String → Option String} {g h : Registry} {s : Shape}
    {d : Definition} (hρ : ∀ r n, ρ r = some n → σ r = some n) (hg : g.Kept h) :
    s.Means ρ g d → s.Means σ h d
  | .object hm => .object (hm.mono hρ hg)
  | .enum => .enum
  | .type hm => .type (hm.mono hρ hg)

theorem Shape.Means.named {ρ : String → Option String} {g : Registry} {s : Shape} {d : Definition}
    {r : String} (h : s.Means ρ g d) (hr : r ∈ s.refs) : ∃ n, ρ r = some n := by
  cases h with
  | object hm => exact hm.named hr
  | enum => cases hr
  | type hm => exact hm.named hr

end ApiClient

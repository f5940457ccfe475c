import ApiClient.Proofs.Renaming
import ApiClient.Proofs.Soundness

/-! The names that are wanted. A draft is the type that an outline would get if every name were free; what
it gets in a pass differs from the draft in the numbers of names only. -/

namespace ApiClient

open Registry (IsNumbered)

/-- The name that is wanted for a reference. One that names no component never gets a name. -/
def Reference.wanted (r : String) : String :=
  match component .schemas r with
  | .ok c => capitalCase c
  | .error _ => r

namespace Outline

mutual

/-- Puts the names that are wanted into an outline. -/
def draft : Outline → (key parent : String) → TypeExpr
  | .ref r, _, _ => .named (Reference.wanted r)
  | .enum _, key, parent => .named (Schema.enumName key parent)
  | .primitive p, _, _ => .primitive p
  | .unknown, _, _ => .unknown
  | .array o, key, parent => .array (o.draft key parent)
  | .map o, key, _ => .map (o.draft key key)
  | .object fs, key, _ => .object (draftFields fs key)
  | .all os, key, parent => Schema.collapse .intersection (draftAll os key parent)
  | .any os, key, parent => Schema.collapse .union (draftAll os key parent)
  | .orNull o, key, parent => Schema.orNull (o.draft key parent)

def draftAll : List Outline → (key parent : String) → List TypeExpr
  | [], _, _ => []
  | o :: os, key, parent => o.draft key parent :: draftAll os key parent

def draftFields : List (FieldKey × Outline) → (key : String) → Fields
  | [], _ => []
  | (k, o) :: fs, key => (k, o.draft k.name key) :: draftFields fs key

end

open Resolver TypeExpr

variable {I : Pass → Prop} {E : ReferenceError → Pass → Prop} {onRef : String → Resolver TypeExpr}

/-- A reference gets the name that is wanted for it, or a numbered variant. -/
def NamedAsWanted (I : Pass → Prop) (E : ReferenceError → Pass → Prop)
    (onRef : String → Resolver TypeExpr) (r : String) : Prop :=
  Runs I E (onRef r) fun t _ => ∃ n, IsNumbered (Reference.wanted r) n ∧ t = .named n

theorem Named.asWanted {schemas : List (String × RefOr Schema)} {Met : String → Prop}
    {base : Registry} {r : String} (h : Named I E onRef r)
    (hI : ∀ q, I q → q.Sound schemas Met base) : NamedAsWanted I E onRef r := by
  intro p hp
  refine (h p hp).mono (fun t q ⟨hq, hgrows, hnamed⟩ => ⟨hq, hgrows, fun _ _ => ?_⟩) fun _ _ h => h
  obtain ⟨n, hn, rfl⟩ := hnamed q (.refl q)
  obtain ⟨-, c, target, hpoints, hname, -⟩ := (hI q hq).faithful r n hn
  refine ⟨n, ?_, rfl⟩
  rw [Reference.wanted, hpoints.1]
  exact hname

mutual

/-- An outline gets the names that are wanted, or numbered variants of them. -/
theorem draft_runs (hI : EnumStable I) : (o : Outline) → (key parent : String) →
    (∀ r ∈ o.refs, NamedAsWanted I E onRef r) →
    Runs I E (o.resolve onRef key parent) fun t _ => Renamed IsNumbered (o.draft key parent) t
  | .ref r, _, _, h => by
    refine (h r List.mem_cons_self).mono ?_
    rintro _ z ⟨n, hn, rfl⟩
    exact .named hn
  | .enum vs, key, parent, _ => (register_runs hI _ vs).map fun _ _ hn => .named hn.2
  | .primitive p, _, _, _ => .pure fun _ => .primitive
  | .unknown, _, _, _ => .pure fun _ => .unknown
  | .array o, key, parent, h => (draft_runs hI o key parent h).map fun _ _ ht => .array ht
  | .map o, key, parent, h => (draft_runs hI o key key h).map fun _ _ ht => .map ht
  | .object fs, key, parent, h => (draftFields_runs hI fs key h).map fun _ _ hts => .object hts
  | .all os, key, parent, h => (draftAll_runs hI os key parent h).map fun _ _ hts =>
    hts.collapse fun _ _ => .intersection
  | .any os, key, parent, h => (draftAll_runs hI os key parent h).map fun _ _ hts =>
    hts.collapse fun _ _ => .union
  | .orNull o, key, parent, h => (draft_runs hI o key parent h).map fun _ _ ht => ht.orNull

theorem draftAll_runs (hI : EnumStable I) : (os : List Outline) → (key parent : String) →
    (∀ r ∈ refsOfAll os, NamedAsWanted I E onRef r) →
    Runs I E (resolveAll onRef os key parent) fun ts _ =>
      AllRenamed IsNumbered (draftAll os key parent) ts
  | [], _, _, _ => .pure fun _ => .nil
  | o :: os, key, parent, h => by
    have ho := draft_runs hI o key parent fun r hr => h r (List.mem_append_left _ hr)
    have hos := draftAll_runs hI os key parent fun r hr => h r (List.mem_append_right _ hr)
    exact ho.map₂ hos fun t ts z ht hts => .cons ht hts

theorem draftFields_runs (hI : EnumStable I) : (fs : List (FieldKey × Outline)) →
    (key : String) → (∀ r ∈ refsOfFields fs, NamedAsWanted I E onRef r) →
    Runs I E (resolveFields onRef fs key) fun gs _ =>
      FieldsRenamed IsNumbered (draftFields fs key) gs
  | [], _, _ => .pure fun _ => .nil
  | (k, o) :: fs, key, h => by
    have ho := draft_runs hI o k.name key fun r hr => h r (List.mem_append_left _ hr)
    have hfs := draftFields_runs hI fs key fun r hr => h r (List.mem_append_right _ hr)
    exact ho.map₂ hfs fun t gs z ht hgs => .cons ht hgs

end

end Outline

end ApiClient

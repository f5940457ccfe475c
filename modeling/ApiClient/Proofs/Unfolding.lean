import ApiClient.Proofs.Renaming
import ApiClient.Proofs.Soundness
import ApiClient.Proofs.Values

/-! Types with the shapes of their names put in, to any depth. Two registries in which the same references
have got their names show no difference at any depth. -/

namespace ApiClient

/-- A type in which a name is the shape that it stands for, down to a depth at which it is cut. -/
inductive Unfolding where
  | primitive (p : Primitive)
  | unknown
  | array (items : Unfolding)
  | map (values : Unfolding)
  | object (fields : List (FieldKey × Unfolding))
  | union (members : List Unfolding)
  | intersection (members : List Unfolding)
  | named (shape : Unfolding)
  | enum (values : List Json)
  | alias (type : Unfolding)
  | cut
  | missing

namespace TypeExpr

mutual

/-- Puts shapes in the place of names. -/
def expand (shape : String → Unfolding) : TypeExpr → Unfolding
  | .primitive p => .primitive p
  | .unknown => .unknown
  | .named n => .named (shape n)
  | .array t => .array (t.expand shape)
  | .map t => .map (t.expand shape)
  | .object fs => .object (expandFields shape fs)
  | .union ts => .union (expandAll shape ts)
  | .intersection ts => .intersection (expandAll shape ts)

def expandAll (shape : String → Unfolding) : List TypeExpr → List Unfolding
  | [] => []
  | t :: ts => t.expand shape :: expandAll shape ts

def expandFields (shape : String → Unfolding) :
    List (FieldKey × TypeExpr) → List (FieldKey × Unfolding)
  | [] => []
  | (k, t) :: fs => (k, t.expand shape) :: expandFields shape fs

end

end TypeExpr

def Definition.expand (shape : String → Unfolding) : Definition → Unfolding
  | .object fs => .object (TypeExpr.expandFields shape fs)
  | .enum vs => .enum vs
  | .alias t => .alias (t.expand shape)

/-- What a name stands for, where the shapes of names inside of it are put in `depth` times. -/
def Registry.unfold (g : Registry) : (depth : Nat) → (name : String) → Unfolding
  | 0, _ => .cut
  | depth + 1, name =>
    match g.get? name with
    | some d => d.expand (g.unfold depth)
    | none => .missing

def TypeExpr.unfold (t : TypeExpr) (g : Registry) (depth : Nat) : Unfolding :=
  t.expand (g.unfold depth)

namespace Unfolding

mutual

/-- Equality of unfoldings. An enum is known by any values that are equal to those of the
description. -/
inductive Same : Unfolding → Unfolding → Prop
  | primitive {p : Primitive} : Same (.primitive p) (.primitive p)
  | unknown : Same .unknown .unknown
  | array {x y : Unfolding} : Same x y → Same (.array x) (.array y)
  | map {x y : Unfolding} : Same x y → Same (.map x) (.map y)
  | object {xs ys : List (FieldKey × Unfolding)} :
    FieldsSame xs ys → Same (.object xs) (.object ys)
  | union {xs ys : List Unfolding} : AllSame xs ys → Same (.union xs) (.union ys)
  | intersection {xs ys : List Unfolding} :
    AllSame xs ys → Same (.intersection xs) (.intersection ys)
  | named {x y : Unfolding} : Same x y → Same (.named x) (.named y)
  | enum {vs ws us : List Json} : (vs = us ∨ Json.sameItems vs us = true) →
    (ws = us ∨ Json.sameItems ws us = true) → Same (.enum vs) (.enum ws)
  | alias {x y : Unfolding} : Same x y → Same (.alias x) (.alias y)
  | cut : Same .cut .cut
  | missing : Same .missing .missing

inductive AllSame : List Unfolding → List Unfolding → Prop
  | nil : AllSame [] []
  | cons {x y : Unfolding} {xs ys : List Unfolding} :
    Same x y → AllSame xs ys → AllSame (x :: xs) (y :: ys)

inductive FieldsSame : List (FieldKey × Unfolding) → List (FieldKey × Unfolding) → Prop
  | nil : FieldsSame [] []
  | cons {k : FieldKey} {x y : Unfolding} {xs ys : List (FieldKey × Unfolding)} :
    Same x y → FieldsSame xs ys → FieldsSame ((k, x) :: xs) ((k, y) :: ys)

end

/-- The values of the description do not matter, for values without repeated keys. -/
theorem same_enum_iff {vs ws : List Json} (hvs : Json.AllDistinct vs) (hws : Json.AllDistinct ws) :
    Same (.enum vs) (.enum ws) ↔ Json.sameItems vs ws = true := by
  constructor
  · intro h
    cases h with
    | enum hvs' hws' => exact hvs.sameItems_of_common hws hvs' hws'
  · intro h
    exact .enum (.inr h) (.inl rfl)

end Unfolding

namespace TypeExpr

open Unfolding (Same AllSame FieldsSame)

variable {N : String → String → Prop} {f f' : String → Unfolding}

mutual

theorem Renamed.expand (hN : ∀ m n, N m n → Same (f m) (f' n)) {t u : TypeExpr} :
    Renamed N t u → Same (t.expand f) (u.expand f')
  | .primitive => .primitive
  | .unknown => .unknown
  | .named h => .named (hN _ _ h)
  | .array h => .array (h.expand hN)
  | .map h => .map (h.expand hN)
  | .object h => .object (h.expand hN)
  | .union h => .union (h.expand hN)
  | .intersection h => .intersection (h.expand hN)

theorem AllRenamed.expand (hN : ∀ m n, N m n → Same (f m) (f' n)) {ts us : List TypeExpr} :
    AllRenamed N ts us → AllSame (expandAll f ts) (expandAll f' us)
  | .nil => .nil
  | .cons h hs => .cons (h.expand hN) (hs.expand hN)

theorem FieldsRenamed.expand (hN : ∀ m n, N m n → Same (f m) (f' n)) {fs gs : Fields} :
    FieldsRenamed N fs gs → FieldsSame (expandFields f fs) (expandFields f' gs)
  | .nil => .nil
  | .cons h hs => .cons (h.expand hN) (hs.expand hN)

end

end TypeExpr

/-! ### Two namings of the same references -/

/-- Two names that one reference has got, or one enum. -/
inductive Counterparts (ρ σ : String → Option String) (g h : Registry) (m n : String) : Prop
  | ref {r : String} : ρ r = some m → σ r = some n → Counterparts ρ σ g h m n
  | enum {vs : List Json} : g.HoldsEnum m vs → h.HoldsEnum n vs → Counterparts ρ σ g h m n

variable {ρ σ : String → Option String} {g h : Registry}

theorem Outline.Means.counterparts {o : Outline} {t u : TypeExpr} (ht : o.Means ρ g t)
    (hu : o.Means σ h u) : t.Renamed (Counterparts ρ σ g h) u :=
  ht.renamed (fun _ _ _ => .ref) (fun _ _ _ => .enum) hu

theorem Shape.Means.expand_same {s : Shape} {d e : Definition} {f f' : String → Unfolding}
    (hd : s.Means ρ g d) (he : s.Means σ h e)
    (hf : ∀ m n, Counterparts ρ σ g h m n → (f m).Same (f' n)) :
    (d.expand f).Same (e.expand f') := by
  cases hd with
  | object hfs =>
    cases he with
    | object hgs =>
      exact .object ((hfs.renamed (fun _ _ _ => .ref) (fun _ _ _ => .enum) hgs).expand hf)
  | enum =>
    cases he with
    | enum => exact .enum (.inl rfl) (.inl rfl)
  | type ht =>
    cases he with
    | type hu => exact .alias ((ht.counterparts hu).expand hf)

namespace Naming

variable {schemas : List (String × RefOr Schema)}

/-- Counterparts stand for the same, however deep one looks. -/
theorem unfold_same (hρ : Naming schemas ρ g) (hσ : Naming schemas σ h) (depth : Nat) {m n : String}
    (hmn : Counterparts ρ σ g h m n) : (g.unfold depth m).Same (h.unfold depth n) := by
  induction depth generalizing m n with
  | zero => exact .cut
  | succ depth ih =>
    cases hmn with
    | ref hm hn =>
      obtain ⟨c, target, d, hpoints, -, hd, hdmeans⟩ := hρ.component _ m hm
      obtain ⟨c', target', e, hpoints', -, he, hemeans⟩ := hσ.component _ n hn
      obtain ⟨rfl, rfl⟩ := hpoints.unique hpoints'
      rw [Registry.unfold, Registry.unfold, hd, he]
      exact hdmeans.expand_same hemeans fun m n => ih
    | enum hm hn =>
      obtain ⟨vs, hvs, hsame⟩ := hm
      obtain ⟨ws, hws, hsame'⟩ := hn
      rw [Registry.unfold, Registry.unfold, hvs, hws]
      exact .enum hsame hsame'

theorem type_unfold_same (hρ : Naming schemas ρ g) (hσ : Naming schemas σ h) {o : Outline}
    {t u : TypeExpr} (ht : o.Means ρ g t) (hu : o.Means σ h u) (depth : Nat) :
    (t.unfold g depth).Same (u.unfold h depth) :=
  (ht.counterparts hu).expand fun _ _ hmn => hρ.unfold_same hσ depth hmn

end Naming

end ApiClient

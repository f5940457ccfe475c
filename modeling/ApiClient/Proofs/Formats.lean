import ApiClient.Proofs.NormalForms
import ApiClient.Proofs.RecordReading
import ApiClient.Proofs.RequestFields
import ApiClient.Yaml.Typed

/-! What holds of all that a format reads. Reading either fails or gives a value, whatever else it keeps
account of, and what holds of the parts of a value holds of what is made of them. -/

namespace ApiClient

open Format
open ApiClient.Tree (strict)

/-! ### What a run may give -/

/-- The values that a run may give, in whatever state it starts. One that fails gives none. -/
class Outcomes (m : Type → Type) [Monad m] [MonadExcept Unit m] where
  Gives {α : Type} : m α → α → Prop
  eq_of_pure {α : Type} {a b : α} : Gives (pure a) b → b = a
  of_bind {α β : Type} {x : m α} {f : α → m β} {b : β} :
    Gives (x >>= f) b → ∃ a, Gives x a ∧ Gives (f a) b
  of_throw {α : Type} {a : α} : ¬ Gives (throw ()) a

instance : Outcomes Option where
  Gives x a := x = some a
  eq_of_pure h := (Option.some.inj h).symm
  of_bind := Option.bind_eq_some_iff.mp
  of_throw := nofun

/-- The number of aliases that are left does not matter. -/
instance : Outcomes Yaml.Typed where
  Gives x a := ∃ left left', x left = some (a, left')
  eq_of_pure h := by
    obtain ⟨left, left', h⟩ := h
    exact (Prod.mk.inj (Option.some.inj h)).1.symm
  of_bind h := by
    obtain ⟨left, left'', h⟩ := h
    obtain ⟨⟨a, left'⟩, hx, hf⟩ := Option.bind_eq_some_iff.mp h
    exact ⟨a, ⟨left, left', hx⟩, left', left'', hf⟩
  of_throw h := by
    obtain ⟨left, left', h⟩ := h
    cases h

variable {m : Type → Type} [Monad m] [MonadExcept Unit m] [Outcomes m] {α β ν : Type}

/-- What comes of it, if anything does, has the property. -/
def Yields (P : α → Prop) (x : m α) : Prop := ∀ a, Outcomes.Gives x a → P a

namespace Yields

variable {P : α → Prop} {Q : β → Prop} {x : m α}

theorem pure {a : α} (h : P a) : Yields P (pure a : m α) := fun _ hb => Outcomes.eq_of_pure hb ▸ h

theorem any (x : m α) : Yields (fun _ => True) x := fun _ _ => trivial

theorem fails : Yields P (throw () : m α) := fun _ ha => absurd ha Outcomes.of_throw

theorem bind {f : α → m β} (hx : Yields P x) (hf : ∀ a, P a → Yields Q (f a)) :
    Yields Q (x >>= f) := by
  intro b hb
  obtain ⟨a, ha, hb⟩ := Outcomes.of_bind hb
  exact hf a (hx a ha) b hb

theorem map [LawfulMonad m] {f : α → β} (hx : Yields P x) (hf : ∀ a, P a → Q (f a)) : Yields Q (f <$> x) := by
  rw [map_eq_pure_bind]
  exact hx.bind fun a ha => .pure (hf a ha)

theorem mono {R : α → Prop} (hx : Yields P x) (h : ∀ a, P a → R a) : Yields R x := fun a ha => h a (hx a ha)

theorem mapM [LawfulMonad m] {f : α → m β} {as : List α} (h : ∀ a ∈ as, Yields Q (f a)) :
    Yields (fun bs => ∀ b ∈ bs, Q b) (as.mapM f) := by
  induction as with
  | nil =>
    rw [List.mapM_nil]
    exact .pure (by simp)
  | cons a as ih =>
    rw [List.forall_mem_cons] at h
    rw [List.mapM_cons]
    exact h.1.bind fun b hb => (ih h.2).bind fun bs hbs => .pure (List.forall_mem_cons.mpr ⟨hb, hbs⟩)

end Yields

/-! ### What a format takes apart -/

/-- The property holds of all that is read of the values with the other one. -/
def Reads (N : ν → Prop) (P : α → Prop) (read : ν → m α) : Prop := ∀ v, N v → Yields P (read v)

/-- The property of a value goes over to its parts, and the numbers of its tree are in normal form. -/
structure Format.Keeps (f : Format m ν) (N : ν → Prop) : Prop where
  record : ∀ names, Reads N (fun r => ∀ e ∈ r.given, N e.2) (f.record names)
  list : Reads N (fun vs => ∀ v ∈ vs, N v) f.list
  table : Reads N (fun es => ∀ e ∈ es, N e.2) f.table
  optional : Reads N (fun o => ∀ v ∈ o, N v) f.optional
  tree : Reads N Tree.Normal f.tree

namespace Reads

variable {N : ν → Prop} {P : α → Prop} {read : ν → m α} {r : Record ν} {name : String}

theorem any (read : ν → m α) : Reads N (fun _ => True) read := fun v _ => .any (read v)

theorem defaulted (h : Reads N P read) (hr : ∀ e ∈ r.given, N e.2) {default : α} (hdefault : P default) :
    Yields P (defaulted r name default read) := by
  rw [Format.defaulted]
  cases hv : r.given.lookup name with
  | some v => exact h v (hr _ (Assoc.mem_of_lookup hv))
  | none => exact .pure hdefault

end Reads

namespace Format.Keeps

variable {f : Format m ν} {N : ν → Prop} {P : α → Prop} {read : ν → m α} {r : Record ν} {name : String}
  {names : List String}

/-- The fields of a record are parts of the value. -/
theorem ofRecord (hf : f.Keeps N) {make : Record ν → m α}
    (h : ∀ r : Record ν, (∀ e ∈ r.given, N e.2) → Yields P (make r)) :
    Reads N P fun v => f.record names v >>= make := fun v hv => (hf.record names v hv).bind h

theorem listOf [LawfulMonad m] (hf : f.Keeps N) (h : Reads N P read) :
    Reads N (fun as => ∀ a ∈ as, P a) (f.listOf read) := fun v hv =>
  (hf.list v hv).bind fun _ hvs => .mapM fun u hu => h u (hvs u hu)

/-- Each key of a table that is read stands once. -/
theorem tableOf [LawfulMonad m] (hf : f.Keeps N) (h : Reads N P read) :
    Reads N (fun es => (es.map (·.1)).Nodup ∧ ∀ e ∈ es, P e.2) (f.tableOf read) := by
  intro v hv
  refine (hf.table v hv).bind fun table htable =>
    (Yields.mapM (Q := fun e => P e.2) fun e he => ?_).bind fun pairs hpairs =>
      .pure ⟨Assoc.nodup_ofList pairs, fun e he => ?_⟩
  · exact (h e.2 (htable e he)).bind fun a ha => .pure ha
  · obtain ⟨before, after, hsplit, -⟩ := Assoc.mem_ofList_iff.mp he
    exact hpairs e (hsplit ▸ List.mem_append_right _ List.mem_cons_self)

theorem listField [LawfulMonad m] (hf : f.Keeps N) (h : Reads N P read) (hr : ∀ e ∈ r.given, N e.2) :
    Yields (fun as => ∀ a ∈ as, P a) (Format.defaulted r name [] (f.listOf read)) :=
  (hf.listOf h).defaulted hr (by simp)

theorem tableField [LawfulMonad m] (hf : f.Keeps N) (h : Reads N P read) (hr : ∀ e ∈ r.given, N e.2) :
    Yields (fun es => (es.map (·.1)).Nodup ∧ ∀ e ∈ es, P e.2)
      (Format.defaulted r name [] (f.tableOf read)) :=
  (hf.tableOf h).defaulted hr (by simp)

theorem optionally (hf : f.Keeps N) (h : Reads N P read) (hr : ∀ e ∈ r.given, N e.2) :
    Yields (fun o => ∀ a ∈ o, P a) (f.optionally r name read) := by
  rw [Format.optionally]
  cases hv : r.given.lookup name with
  | some v =>
    refine (hf.optional v (hr _ (Assoc.mem_of_lookup hv))).bind fun o ho => ?_
    cases o with
    | none => exact .pure (by simp)
    | some u => exact (h u (ho u rfl)).bind fun a ha => .pure (by simpa using ha)
  | none =>
    dsimp only
    split_ifs
    · exact .fails
    · exact .pure (by simp)

/-- A value that is expected of the tree is read of numbers in normal form. -/
theorem within (hf : f.Keeps N) {read : Tree → Option α} (h : Reads Tree.Normal P read) :
    Reads N P (f.within read) := by
  intro v hv
  refine (hf.tree v hv).bind fun t ht => ?_
  cases hread : read t with
  | none => exact .fails
  | some a => exact .pure (h t ht a hread)

end Format.Keeps

/-! ### The two formats -/

namespace Tree

theorem Part.normal {t u : Tree} (h : Part u t) (ht : t.Normal) : u.Normal := by
  cases h with
  | item h => exact allNormal_iff.mp ht u h
  | entry h => exact entriesNormal_iff.mp ht _ h

theorem strict_keeps : strict.Keeps Tree.Normal where
  record _ _ ht _ hr _ he := (part_of_record? hr he).normal ht
  list _ ht _ hitems _ hu := (part_of_seq? hitems hu).normal ht
  table _ ht _ htable _ he := (part_of_table? htable he).normal ht
  optional t ht o ho u hu := by
    obtain rfl : t.present = o := Option.some.inj ho
    cases t with
    | null => cases hu
    | _ =>
      obtain rfl := Option.some.inj hu
      exact ht
  tree _ ht u hu := Option.some.inj hu ▸ ht

end Tree

namespace Yaml.Typed

variable {α : Type} {P : α → Prop} {anchors : List (Nat × Node)}

theorem yields_failure : Yields P (failure : Typed α) := by
  rintro a ⟨left, left', h⟩
  cases h

theorem yields_ofOption {x : Option α} (h : Yields P x) : Yields P (ofOption x) := by
  rintro a ⟨left, left', hx⟩
  obtain ⟨b, hb, heq⟩ := Option.map_eq_some_iff.mp hx
  obtain ⟨rfl, -⟩ := Prod.mk.inj heq
  exact h b hb

/-- Aliases included, every number of a tree is that of a scalar. -/
theorem tree_normal (levels : Nat) (n : Node) : Yields Tree.Normal (tree anchors levels n) := by
  rw [tree]
  refine .bind (.any _) fun target _ => ?_
  cases target with
  | scalar tag plain s => exact yields_ofOption fun t ht => Core.scalarTree?_normal ht
  | sequence tag items =>
    cases levels with
    | zero => exact yields_failure
    | succ levels =>
      dsimp only
      split_ifs
      · exact yields_failure
      · exact (Yields.mapM fun n _ => tree_normal levels n).map fun _ => Tree.allNormal_iff.mpr
  | mapping tag entries =>
    cases levels with
    | zero => exact yields_failure
    | succ levels =>
      dsimp only
      split_ifs
      · exact yields_failure
      · refine (Yields.mapM (Q := fun e => e.2.Normal) fun e _ => ?_).map fun _ => Tree.entriesNormal_iff.mpr
        exact .bind (.any _) fun k _ => (tree_normal levels e.2).bind fun v hv => .pure hv
  | _ => exact yields_failure

/-- Of the places of a document nothing is asked. -/
theorem format_keeps (anchors : List (Nat × Node)) : (format anchors).Keeps fun _ => True where
  record _ _ _ _ _ _ _ := trivial
  list _ _ _ _ _ _ := trivial
  table _ _ _ _ _ _ := trivial
  optional _ _ _ _ _ _ := trivial
  tree p _ := .bind (.any _) fun n _ => tree_normal p.levels n

end Yaml.Typed

/-- What holds of all that is read of the places of a document holds of what is read of its text. -/
theorem Yaml.read?_yields {P : α → Prop} {read : Format Typed Place → Place → Typed α} {text : String}
    (h : ∀ anchors, Reads (fun _ => True) P (read (Typed.format anchors))) :
    Yields P (Yaml.read? read text) := by
  intro a ha
  obtain ⟨root, -, ha⟩ := Option.bind_eq_some_iff.mp ha
  obtain ⟨⟨b, left⟩, hrun, hb⟩ := Option.bind_eq_some_iff.mp ha
  obtain rfl := Option.some.inj hb
  exact h _ ⟨128, root⟩ trivial b ⟨_, left, hrun⟩

end ApiClient

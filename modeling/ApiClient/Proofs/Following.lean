import ApiClient.Proofs.References
import Mathlib.Data.List.Perm.Subperm

/-! Following references inside one section, without a bound on the steps: what comes of it, what is
wrong where it fails, and when two tables give the same. -/

namespace ApiClient

/-- Both are the same reference, or values that are related. -/
inductive RefOr.Rel {α β : Type} (S : α → β → Prop) : RefOr α → RefOr β → Prop
  | ref {r : String} : Rel S (.ref r) (.ref r)
  | inline {a : α} {b : β} : S a b → Rel S (.inline a) (.inline b)

theorem RefOr.Rel.refl {α : Type} (item : RefOr α) : RefOr.Rel Eq item item := by
  cases item with
  | ref r => exact .ref
  | inline a => exact .inline rfl

namespace Reference

variable {α β : Type} {part : Section} {table : List (String × RefOr α)} {item : RefOr α}
  {seen known : List String} {r s c : String} {e : ReferenceError}

/-- Following the references from an item comes to a result, where those in `seen` have been met on
the way to it. -/
inductive Traces (part : Section) (table : List (String × RefOr α)) :
    List String → RefOr α → Except ReferenceError α → Prop
  | value {seen : List String} {a : α} : Traces part table seen (.inline a) (.ok a)
  | cycle {seen : List String} {r : String} :
    r ∈ seen → Traces part table seen (.ref r) (.error (.cycle r))
  | unsupported {seen : List String} {r : String} {e : ReferenceError} :
    r ∉ seen → component part r = .error e → Traces part table seen (.ref r) (.error e)
  | dangling {seen : List String} {r c : String} :
    r ∉ seen → component part r = .ok c → table.lookup c = none →
      Traces part table seen (.ref r) (.error (.dangling r))
  | step {seen : List String} {r c : String} {next : RefOr α} {result : Except ReferenceError α} :
    r ∉ seen → component part r = .ok c → table.lookup c = some next →
      Traces part table (r :: seen) next result → Traces part table seen (.ref r) result

theorem Traces.unique {result result' : Except ReferenceError α}
    (h : Traces part table seen item result) (h' : Traces part table seen item result') :
    result = result' := by
  induction h generalizing result' with
  | value => cases h' with
    | value => rfl
  | cycle hmem => cases h' with
    | cycle _ => rfl
    | unsupported hnot _ | dangling hnot _ _ | step hnot _ _ _ => exact absurd hmem hnot
  | unsupported hnot herror => cases h' with
    | cycle hmem => exact absurd hmem hnot
    | unsupported _ herror' => exact congrArg _ (Except.error.inj (herror.symm.trans herror'))
    | dangling _ hok _ | step _ hok _ _ => cases herror.symm.trans hok
  | dangling hnot hok hnone => cases h' with
    | cycle hmem => exact absurd hmem hnot
    | unsupported _ herror => cases hok.symm.trans herror
    | dangling _ _ _ => rfl
    | step _ hok' hsome _ =>
      obtain rfl := Except.ok.inj (hok.symm.trans hok')
      cases hnone.symm.trans hsome
  | step hnot hok hsome _ ih => cases h' with
    | cycle hmem => exact absurd hmem hnot
    | unsupported _ herror => cases hok.symm.trans herror
    | dangling _ hok' hnone =>
      obtain rfl := Except.ok.inj (hok.symm.trans hok')
      cases hnone.symm.trans hsome
    | step _ hok' hsome' htraces =>
      obtain rfl := Except.ok.inj (hok.symm.trans hok')
      obtain rfl := Option.some.inj (hsome.symm.trans hsome')
      exact ih htraces

/-- All references that can be met are `known`; those that have been met are different, so that there
are steps left for the others. -/
theorem followFrom_traces (steps : Nat) (hnodup : seen.Nodup) (hseen : seen ⊆ known)
    (hitem : item.reference?.toList ⊆ known)
    (htable : ∀ c next, table.lookup c = some next → next.reference?.toList ⊆ known)
    (hroom : known.length + 1 ≤ steps + seen.length) :
    Traces part table seen item (followFrom part table steps seen item) := by
  induction steps generalizing seen item with
  | zero =>
    have hle := (hnodup.subperm hseen).length_le
    omega
  | succ steps ih =>
    cases item with
    | inline a => exact .value
    | ref r =>
      rw [followFrom]
      by_cases hr : r ∈ seen
      · rw [if_pos (List.contains_iff_mem.mpr hr)]
        exact .cycle hr
      rw [if_neg (mt List.contains_iff_mem.mp hr)]
      split
      · exact .unsupported hr ‹_›
      · split
        · exact .dangling hr ‹_› ‹_›
        · rename_i c hc _ next hnext
          have hknown : r ∈ known := hitem List.mem_cons_self
          refine .step hr hc hnext (ih (List.nodup_cons.mpr ⟨hr, hnodup⟩)
            (List.cons_subset.mpr ⟨hknown, hseen⟩) (htable c next hnext) ?_)
          rw [List.length_cons]
          omega

/-- The references that can be met on the way from an item. -/
def metFrom (table : List (String × RefOr α)) (item : RefOr α) : List String :=
  item.reference?.toList ++ table.filterMap fun e => e.2.reference?

theorem length_metFrom_le (table : List (String × RefOr α)) (item : RefOr α) :
    (metFrom table item).length ≤ table.length + 1 := by
  have hitem : item.reference?.toList.length ≤ 1 := by cases item <;> simp [RefOr.reference?]
  have htable := List.length_filterMap_le (fun e : String × RefOr α => e.2.reference?) table
  simp only [metFrom, List.length_append]
  omega

theorem mem_metFrom_of_lookup {next : RefOr α} (h : table.lookup c = some next)
    (hr : next.reference? = some r) : r ∈ metFrom table item :=
  List.mem_append_right _ (List.mem_filterMap.mpr ⟨(c, next), Assoc.mem_of_lookup h, hr⟩)

/-- The bound on the steps is never met. -/
theorem follow_traces (part : Section) (table : List (String × RefOr α)) (item : RefOr α) :
    Traces part table [] item (follow part table item) := by
  have hlength := length_metFrom_le table item
  refine followFrom_traces _ List.nodup_nil (List.nil_subset (metFrom table item))
    (List.subset_append_left _ _) (fun c next hnext r hr => ?_) ?_
  · exact mem_metFrom_of_lookup hnext (Option.mem_toList.mp hr)
  · rw [List.length_nil]
    omega

theorem Traces.follow_eq {result : Except ReferenceError α} (h : Traces part table [] item result) :
    follow part table item = result :=
  (follow_traces part table item).unique h

/-- The component of one reference is nothing but the other. -/
def Continues (part : Section) (table : List (String × RefOr α)) (r s : String) : Prop :=
  ∃ c, component part r = .ok c ∧ table.lookup c = some (.ref s)

/-- What following finds stands in the place of the item or in the table. -/
theorem Traces.ok_cases {a : α} (h : Traces part table seen item (.ok a)) :
    item = .inline a ∨ ∃ c, table.lookup c = some (.inline a) := by
  generalize hresult : Except.ok a = result at h
  induction h with
  | value => exact .inl (congrArg _ (Except.ok.inj hresult).symm)
  | step _ _ hnext _ ih =>
    obtain rfl | hfound := ih hresult
    · exact .inr ⟨_, hnext⟩
    · exact .inr hfound
  | _ => cases hresult

/-! ### Failures -/

/-- The error says what is wrong with the reference. -/
inductive Faulty (part : Section) (table : List (String × RefOr α)) (r : String) :
    ReferenceError → Prop
  | dangling {c : String} : component part r = .ok c → table.lookup c = none →
    Faulty part table r (.dangling r)
  | unsupported : (∀ c, component part r ≠ .ok c) → Faulty part table r (.unsupported r part)
  | cycle : Relation.TransGen (Continues part table) r r → Faulty part table r (.cycle r)

/-- A failure has its cause in a reference that is met: all that have been met before lead to it. -/
theorem Traces.error_faulty {Met : String → Prop} (h : Traces part table seen item (.error e))
    (hclosed : ∀ r s, Met r → Continues part table r s → Met s)
    (hitem : ∀ r, item = .ref r → Met r)
    (hseen : ∀ r, item = .ref r → ∀ s ∈ seen, Relation.TransGen (Continues part table) s r) :
    ∃ r, Met r ∧ Faulty part table r e := by
  generalize hresult : Except.error e = result at h
  induction h with
  | value => cases hresult
  | cycle hr =>
    obtain rfl := Except.error.inj hresult
    exact ⟨_, hitem _ rfl, .cycle (hseen _ rfl _ hr)⟩
  | @unsupported _ r _ _ herror =>
    obtain rfl := Except.error.inj hresult
    obtain rfl := component_eq_error herror
    exact ⟨r, hitem r rfl, .unsupported fun c hc => by simp [hc] at herror⟩
  | dangling _ hc hnone =>
    obtain rfl := Except.error.inj hresult
    exact ⟨_, hitem _ rfl, .dangling hc hnone⟩
  | @step seen r c _ _ _ hc hnext _ ih =>
    refine ih (fun s hs => ?_) (fun s hs t ht => ?_) hresult
    · exact hclosed r s (hitem r rfl) ⟨c, hc, hs ▸ hnext⟩
    · have hrs : Continues part table r s := ⟨c, hc, hs ▸ hnext⟩
      rcases List.mem_cons.mp ht with rfl | ht
      · exact .single hrs
      · exact .tail (hseen r rfl t ht) hrs

theorem follow_error {Met : String → Prop} (h : follow part table item = .error e)
    (hclosed : ∀ r s, Met r → Continues part table r s → Met s)
    (hitem : ∀ r, item = .ref r → Met r) : ∃ r, Met r ∧ Faulty part table r e := by
  have htraces := follow_traces part table item
  rw [h] at htraces
  exact htraces.error_faulty hclosed hitem fun _ _ s hs => by cases hs

theorem follow_ok {a : α} (h : follow part table item = .ok a) :
    item = .inline a ∨ ∃ c, table.lookup c = some (.inline a) := by
  have htraces := follow_traces part table item
  rw [h] at htraces
  exact htraces.ok_cases

/-! ### Two tables -/

/-- Both are the same failure, or results that are related. -/
inductive Alike (S : α → β → Prop) : Except ReferenceError α → Except ReferenceError β → Prop
  | error {e : ReferenceError} : Alike S (.error e) (.error e)
  | ok {a : α} {b : β} : S a b → Alike S (.ok a) (.ok b)

theorem Alike.eq {x y : Except ReferenceError α} (h : Alike Eq x y) : x = y := by
  cases h with
  | error => rfl
  | ok hab => rw [hab]

variable {S : α → β → Prop} {table' : List (String × RefOr β)} {item' : RefOr β} {Met : String → Prop}

/-- Where two tables are related for all references that are met, what comes of following them is
related. -/
theorem Traces.alike {result : Except ReferenceError α} (h : Traces part table seen item result)
    (hclosed : ∀ r s, Met r → Continues part table r s → Met s)
    (hsame : ∀ r c, Met r → component part r = .ok c →
      Option.Rel (RefOr.Rel S) (table.lookup c) (table'.lookup c))
    (hitem : ∀ r, item = .ref r → Met r) (hrel : RefOr.Rel S item item') :
    ∃ result', Traces part table' seen item' result' ∧ Alike S result result' := by
  induction h generalizing item' with
  | value => cases hrel with
    | inline hab => exact ⟨_, .value, .ok hab⟩
  | cycle hr => cases hrel with
    | ref => exact ⟨_, .cycle hr, .error⟩
  | unsupported hr herror => cases hrel with
    | ref => exact ⟨_, .unsupported hr herror, .error⟩
  | @dangling _ r c hr hc hnone => cases hrel with
    | ref =>
      have hlookup := hsame r c (hitem r rfl) hc
      rw [hnone] at hlookup
      generalize hnone' : table'.lookup c = found at hlookup
      cases hlookup with
      | none => exact ⟨_, .dangling hr hc hnone', .error⟩
  | @step _ r c next _ hr hc hnext _ ih => cases hrel with
    | ref =>
      have hmet : Met r := hitem r rfl
      have hlookup := hsame r c hmet hc
      rw [hnext] at hlookup
      generalize hnext' : table'.lookup c = found at hlookup
      cases hlookup with
      | some hrel =>
        obtain ⟨result', htraces, halike⟩ :=
          ih (fun s hs => hclosed r s hmet ⟨c, hc, hs ▸ hnext⟩) hrel
        exact ⟨result', .step hr hc hnext' htraces, halike⟩

theorem follow_alike (hclosed : ∀ r s, Met r → Continues part table r s → Met s)
    (hsame : ∀ r c, Met r → component part r = .ok c →
      Option.Rel (RefOr.Rel S) (table.lookup c) (table'.lookup c))
    (hitem : ∀ r, item = .ref r → Met r) (hrel : RefOr.Rel S item item') :
    Alike S (follow part table item) (follow part table' item') := by
  obtain ⟨result', htraces, halike⟩ :=
    (follow_traces part table item).alike hclosed hsame hitem hrel
  rwa [htraces.follow_eq]

theorem follow_congr {table' : List (String × RefOr α)}
    (hclosed : ∀ r s, Met r → Continues part table r s → Met s)
    (hsame : ∀ r c, Met r → component part r = .ok c → table.lookup c = table'.lookup c)
    (hitem : ∀ r, item = .ref r → Met r) : follow part table item = follow part table' item := by
  have hlookup (r c : String) (hr : Met r) (hc : component part r = .ok c) :
      Option.Rel (RefOr.Rel Eq) (table.lookup c) (table'.lookup c) := by
    rw [← hsame r c hr hc]
    cases table.lookup c with
    | none => exact .none
    | some next => exact .some (.refl next)
  exact (follow_alike hclosed hlookup hitem (.refl item)).eq

end Reference

end ApiClient

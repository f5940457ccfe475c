import ApiClient.Proofs.Failures

/-! The chain of references that starts at an item, and the loop that follows it. Where the chain stops,
the loop gives what stands there; where it does not, the loop gives the first reference that comes a
second time. -/

namespace ApiClient.Reference

variable {α : Type} {part : Section} {table : List (String × RefOr α)}

/-! ### Chains -/

/-- The reference names the section, and the section has an entry under the name. -/
def Denotes (part : Section) (table : List (String × RefOr α)) (r : String) (next : RefOr α) : Prop :=
  ∃ token, Splits part r token ∧ table.lookup (String.ofList (unescape token)) = some next

/-- The references, one after the other, lead from one item to another. -/
inductive Leads (part : Section) (table : List (String × RefOr α)) :
    RefOr α → List String → RefOr α → Prop
  | here {item : RefOr α} : Leads part table item [] item
  | next {r : String} {rs : List String} {next last : RefOr α} :
    Denotes part table r next → Leads part table next rs last →
      Leads part table (.ref r) (r :: rs) last

/-- The chain does not go on from the item: it is a value, or a reference that cannot be followed. -/
inductive Stops (part : Section) (table : List (String × RefOr α)) :
    RefOr α → Except ReferenceError α → Prop
  | value {a : α} : Stops part table (.inline a) (.ok a)
  | unsupported {r : String} :
    (∀ token, ¬ Splits part r token) → Stops part table (.ref r) (.error (.unsupported r part))
  | dangling {r : String} {token : List Char} :
    Splits part r token → table.lookup (String.ofList (unescape token)) = none →
      Stops part table (.ref r) (.error (.dangling r))

variable {item last next : RefOr α} {r : String} {rs seen : List String}
  {result : Except ReferenceError α}

theorem denotes_iff :
    Denotes part table r next ↔ ∃ c, component part r = .ok c ∧ table.lookup c = some next := by
  simp only [Denotes, component_eq_ok_iff_splits]
  constructor
  · rintro ⟨token, hsplits, hnext⟩
    exact ⟨_, ⟨token, hsplits, rfl⟩, hnext⟩
  · rintro ⟨_, ⟨token, hsplits, rfl⟩, hnext⟩
    exact ⟨token, hsplits, hnext⟩

theorem Denotes.unique {next' : RefOr α} (h : Denotes part table r next)
    (h' : Denotes part table r next') : next = next' := by
  obtain ⟨c, hc, hnext⟩ := denotes_iff.mp h
  obtain ⟨c', hc', hnext'⟩ := denotes_iff.mp h'
  obtain rfl : c = c' := Except.ok.inj (hc.symm.trans hc')
  exact Option.some.inj (hnext.symm.trans hnext')

theorem Stops.not_denotes (h : Stops part table (.ref r) result) : ¬ Denotes part table r next := by
  intro hdenotes
  cases h with
  | unsupported hnot =>
    obtain ⟨token, hsplits, -⟩ := hdenotes
    exact hnot token hsplits
  | dangling hsplits hnone =>
    obtain ⟨c, hc, hnext⟩ := denotes_iff.mp hdenotes
    obtain rfl := Except.ok.inj (hc.symm.trans (component_eq_ok_iff_splits.mpr ⟨_, hsplits, rfl⟩))
    simp [hnone] at hnext

/-- A chain that stops takes one way only. -/
theorem Leads.unique {rs' : List String} {last' : RefOr α} {result' : Except ReferenceError α}
    (h : Leads part table item rs last) (h' : Leads part table item rs' last')
    (hlast : Stops part table last result) (hlast' : Stops part table last' result') : rs = rs' := by
  induction h generalizing rs' with
  | here => cases h' with
    | here => rfl
    | next hnext _ => exact absurd hnext hlast.not_denotes
  | next hnext _ ih => cases h' with
    | here => exact absurd hnext hlast'.not_denotes
    | next hnext' hrest' =>
      obtain rfl := hnext.unique hnext'
      rw [ih hrest' hlast]

/-- From a reference on the way the chain goes on as it does from the start. -/
theorem Leads.from_mem (h : Leads part table item rs last) (hr : r ∈ rs) :
    ∃ rest, rest.length < rs.length ∧ Leads part table (.ref r) (r :: rest) last := by
  induction h with
  | here => simp at hr
  | @next s rs _ _ hnext hrest ih =>
    rcases List.mem_cons.mp hr with rfl | hr
    · exact ⟨rs, by simp, .next hnext hrest⟩
    · obtain ⟨rest, hlength, hleads⟩ := ih hr
      exact ⟨rest, by simp; omega, hleads⟩

theorem Leads.denotes_of_mem (h : Leads part table item rs last) (hr : r ∈ rs) :
    ∃ next, Denotes part table r next := by
  obtain ⟨_, -, hleads⟩ := h.from_mem hr
  cases hleads with
  | next hnext _ => exact ⟨_, hnext⟩

/-- No reference comes twice on a chain that stops: the chain would take the same way again. -/
theorem Leads.nodup (h : Leads part table item rs last) (hlast : Stops part table last result) :
    rs.Nodup := by
  induction h with
  | here => exact .nil
  | @next r rs _ _ hnext hrest ih =>
    refine List.nodup_cons.mpr ⟨fun hr => ?_, ih hlast⟩
    obtain ⟨rest, hlength, hleads⟩ := hrest.from_mem hr
    have hsame := (Leads.next hnext hrest).unique hleads hlast hlast
    rw [List.cons_inj_right] at hsame
    simp [hsame] at hlength

/-! ### The loop -/

/-- Where the loop stands: the references that have been met, the latest first, and the item that it
looks at. -/
structure Cursor (α : Type) where
  seen : List String
  item : RefOr α

/-- One turn of the loop gives the result, or where to go on. -/
def turn (part : Section) (table : List (String × RefOr α)) :
    Cursor α → Except ReferenceError α ⊕ Cursor α
  | ⟨_, .inline value⟩ => .inl (.ok value)
  | ⟨seen, .ref r⟩ =>
    if r ∈ seen then .inl (.error (.cycle r))
    else match component part r with
      | .error e => .inl (.error e)
      | .ok name =>
        match table.lookup name with
        | none => .inl (.error (.dangling r))
        | some next => .inr ⟨r :: seen, next⟩

/-- The loop comes to the result in this number of turns. -/
inductive Turns (part : Section) (table : List (String × RefOr α)) :
    Nat → Cursor α → Except ReferenceError α → Prop
  | last {c : Cursor α} {result : Except ReferenceError α} :
    turn part table c = .inl result → Turns part table 1 c result
  | more {n : Nat} {c c' : Cursor α} {result : Except ReferenceError α} :
    turn part table c = .inr c' → Turns part table n c' result → Turns part table (n + 1) c result

theorem turn_of_mem (h : r ∈ seen) : turn part table ⟨seen, .ref r⟩ = .inl (.error (.cycle r)) := by
  simp [turn, h]

theorem turn_of_stops (h : Stops part table item result) (hitem : ∀ r ∈ seen, item ≠ .ref r) :
    turn part table ⟨seen, item⟩ = .inl result := by
  cases h with
  | value => rfl
  | @unsupported r hnot =>
    have hr : r ∉ seen := fun hr => hitem r hr rfl
    cases hc : component part r with
    | error e => simp [turn, hr, hc, component_eq_error hc]
    | ok c =>
      obtain ⟨token, hsplits, -⟩ := component_eq_ok_iff_splits.mp hc
      exact absurd hsplits (hnot token)
  | @dangling r token hsplits hnone =>
    have hr : r ∉ seen := fun hr => hitem r hr rfl
    simp [turn, hr, component_eq_ok_iff_splits.mpr ⟨token, hsplits, rfl⟩, hnone]

theorem turn_of_denotes (hr : r ∉ seen) (h : Denotes part table r next) :
    turn part table ⟨seen, .ref r⟩ = .inr ⟨r :: seen, next⟩ := by
  obtain ⟨c, hc, hnext⟩ := denotes_iff.mp h
  simp [turn, hr, hc, hnext]

/-- What a turn can do. -/
theorem turn_cases (part : Section) (table : List (String × RefOr α)) (seen : List String)
    (item : RefOr α) :
    (∃ r ∈ seen, item = .ref r) ∨
      (∃ result, Stops part table item result ∧ ∀ r ∈ seen, item ≠ .ref r) ∨
      ∃ r next, item = .ref r ∧ r ∉ seen ∧ Denotes part table r next := by
  cases item with
  | inline a => exact .inr (.inl ⟨_, .value, by simp⟩)
  | ref r =>
    by_cases hr : r ∈ seen
    · exact .inl ⟨r, hr, rfl⟩
    have hitem : ∀ s ∈ seen, (RefOr.ref r : RefOr α) ≠ .ref s := by
      rintro s hs ⟨⟩
      exact hr hs
    by_cases hsplits : ∃ token, Splits part r token
    · obtain ⟨token, hsplits⟩ := hsplits
      cases hnext : table.lookup (String.ofList (unescape token)) with
      | none => exact .inr (.inl ⟨_, .dangling hsplits hnext, hitem⟩)
      | some next => exact .inr (.inr ⟨r, next, rfl, hr, token, hsplits, hnext⟩)
    · exact .inr (.inl ⟨_, .unsupported (not_exists.mp hsplits), hitem⟩)

/-- The loop goes on from a reference to the entry that it denotes. -/
theorem turn_eq_inr {c' : Cursor α} (h : turn part table ⟨seen, item⟩ = .inr c') :
    ∃ r, item = .ref r ∧ r ∉ seen ∧ Denotes part table r c'.item ∧ c'.seen = r :: seen := by
  obtain ⟨r, hr, rfl⟩ | ⟨result, hstops, hitem⟩ | ⟨r, next, rfl, hr, hdenotes⟩ :=
    turn_cases part table seen item
  · rw [turn_of_mem hr] at h
    cases h
  · rw [turn_of_stops hstops hitem] at h
    cases h
  · rw [turn_of_denotes hr hdenotes] at h
    obtain rfl := Sum.inr.inj h
    exact ⟨r, rfl, hr, hdenotes, rfl⟩

/-- The loop ends where the chain stops, or where a reference comes again. -/
theorem turn_eq_inl (h : turn part table ⟨seen, item⟩ = .inl result) :
    Stops part table item result ∨ ∃ r ∈ seen, item = .ref r ∧ result = .error (.cycle r) := by
  obtain ⟨r, hr, rfl⟩ | ⟨result', hstops, hitem⟩ | ⟨r, next, rfl, hr, hdenotes⟩ :=
    turn_cases part table seen item
  · rw [turn_of_mem hr] at h
    exact .inr ⟨r, hr, rfl, (Sum.inl.inj h).symm⟩
  · rw [turn_of_stops hstops hitem] at h
    obtain rfl := Sum.inl.inj h
    exact .inl hstops
  · rw [turn_of_denotes hr hdenotes] at h
    cases h

theorem Turns.unique {n n' : Nat} {c : Cursor α} {result' : Except ReferenceError α}
    (h : Turns part table n c result) (h' : Turns part table n' c result') : result = result' := by
  induction h generalizing n' with
  | last hturn => cases h' with
    | last hturn' => exact Sum.inl.inj (hturn.symm.trans hturn')
    | more hturn' _ => cases hturn.symm.trans hturn'
  | more hturn _ ih => cases h' with
    | last hturn' => cases hturn.symm.trans hturn'
    | more hturn' hrest' =>
      obtain rfl := Sum.inr.inj (hturn.symm.trans hturn')
      exact ih hrest'

/-- All turns but the last one go along the chain, and no reference is met twice on the way. -/
theorem Turns.leads {n : Nat} {c : Cursor α} (h : Turns part table n c result)
    (hnodup : c.seen.Nodup) :
    ∃ rs last, n = rs.length + 1 ∧ Leads part table c.item rs last ∧ (rs.reverse ++ c.seen).Nodup ∧
      turn part table ⟨rs.reverse ++ c.seen, last⟩ = .inl result := by
  induction h with
  | @last c _ hturn => exact ⟨[], c.item, rfl, .here, hnodup, hturn⟩
  | @more n c c' _ hturn _ ih =>
    obtain ⟨seen, item⟩ := c
    obtain ⟨seen', item'⟩ := c'
    obtain ⟨r, rfl, hr, hdenotes, rfl⟩ := turn_eq_inr hturn
    obtain ⟨rs, last, rfl, hleads, hnodup', hlast⟩ := ih (List.nodup_cons.mpr ⟨hr, hnodup⟩)
    refine ⟨r :: rs, last, rfl, .next hdenotes hleads, ?_, ?_⟩
    · simpa using hnodup'
    · simpa using hlast

/-- The loop goes along a chain as long as no reference comes twice. -/
theorem Leads.turns (h : Leads part table item rs last) (hnodup : (rs.reverse ++ seen).Nodup)
    (hlast : turn part table ⟨rs.reverse ++ seen, last⟩ = .inl result) :
    Turns part table (rs.length + 1) ⟨seen, item⟩ result := by
  induction h generalizing seen with
  | here => exact .last hlast
  | @next r rs _ _ hnext _ ih =>
    rw [List.reverse_cons, List.append_assoc, List.singleton_append] at hnodup hlast
    have hr : r ∉ seen := (List.nodup_cons.mp hnodup.of_append_right).1
    exact .more (turn_of_denotes hr hnext) (ih hnodup hlast)

/-- The bound of `follow` is never met, so that it comes to the result of the loop. -/
theorem Traces.turns (h : Traces part table seen item result) :
    ∃ n, Turns part table n ⟨seen, item⟩ result := by
  induction h with
  | value => exact ⟨1, .last rfl⟩
  | cycle hr => exact ⟨1, .last (turn_of_mem hr)⟩
  | unsupported hr herror => exact ⟨1, .last (by simp [turn, hr, herror])⟩
  | dangling hr hc hnone => exact ⟨1, .last (by simp [turn, hr, hc, hnone])⟩
  | step hr hc hnext _ ih =>
    obtain ⟨n, hn⟩ := ih
    exact ⟨n + 1, .more (turn_of_denotes hr (denotes_iff.mpr ⟨_, hc, hnext⟩)) hn⟩

/-! ### What following comes to -/

theorem follow_eq_of_turns {n : Nat} (h : Turns part table n ⟨[], item⟩ result) :
    follow part table item = result := by
  obtain ⟨_, hturns⟩ := (follow_traces part table item).turns
  exact hturns.unique h

theorem follow_eq_of_stops (h : Leads part table item rs last) (hlast : Stops part table last result) :
    follow part table item = result := by
  have hfresh : ∀ r ∈ rs.reverse ++ [], last ≠ .ref r := by
    rintro r hr rfl
    obtain ⟨next, hnext⟩ := h.denotes_of_mem (by simpa using hr)
    exact hlast.not_denotes hnext
  exact follow_eq_of_turns (h.turns (by simpa using h.nodup hlast) (turn_of_stops hlast hfresh))

theorem follow_eq_of_repeats (h : Leads part table item rs (.ref r)) (hnodup : rs.Nodup)
    (hr : r ∈ rs) : follow part table item = .error (.cycle r) :=
  follow_eq_of_turns (h.turns (by simpa using hnodup) (turn_of_mem (by simpa using hr)))

/-- The loop goes along the chain from the item to its end. -/
theorem follow_leads (part : Section) (table : List (String × RefOr α)) (item : RefOr α) :
    ∃ rs last, Leads part table item rs last ∧ rs.Nodup ∧
      Turns part table (rs.length + 1) ⟨[], item⟩ (follow part table item) ∧
      (Stops part table last (follow part table item) ∨
        ∃ r ∈ rs, last = .ref r ∧ follow part table item = .error (.cycle r)) := by
  obtain ⟨n, hturns⟩ := (follow_traces part table item).turns
  obtain ⟨rs, last, rfl, hleads, hnodup, hlast⟩ := hturns.leads .nil
  have hend := turn_eq_inl hlast
  simp only [List.append_nil, List.mem_reverse] at hnodup hend
  exact ⟨rs, last, hleads, List.nodup_reverse.mp hnodup, hturns, hend⟩

theorem Leads.subset_metFrom (h : Leads part table item rs last) : rs ⊆ metFrom table item := by
  induction h with
  | here => simp
  | @next r rs next _ hnext _ ih =>
    obtain ⟨c, -, hlookup⟩ := denotes_iff.mp hnext
    refine List.cons_subset.mpr ⟨by simp [metFrom, RefOr.reference?], fun s hs => ?_⟩
    rcases List.mem_append.mp (ih hs) with hs | hs
    · exact mem_metFrom_of_lookup hlookup (Option.mem_toList.mp hs)
    · exact List.mem_append_right _ hs

theorem Leads.length_le (h : Leads part table item rs last) (hnodup : rs.Nodup) :
    rs.length ≤ table.length + 1 :=
  (hnodup.subperm h.subset_metFrom).length_le.trans (length_metFrom_le table item)

theorem Stops.not_cycle (h : Stops part table last (.error (.cycle r))) : False := by
  cases h

theorem follow_eq_iff_stops (hresult : ∀ r, result ≠ .error (.cycle r)) :
    follow part table item = result ↔
      ∃ rs last, Leads part table item rs last ∧ Stops part table last result := by
  constructor
  · rintro rfl
    obtain ⟨rs, last, hleads, -, -, hstops | ⟨r, -, -, hcycle⟩⟩ := follow_leads part table item
    · exact ⟨rs, last, hleads, hstops⟩
    · exact absurd hcycle (hresult r)
  · rintro ⟨rs, last, hleads, hstops⟩
    exact follow_eq_of_stops hleads hstops

theorem follow_eq_cycle_iff :
    follow part table item = .error (.cycle r) ↔
      ∃ rs, Leads part table item rs (.ref r) ∧ rs.Nodup ∧ r ∈ rs := by
  constructor
  · intro h
    obtain ⟨rs, last, hleads, hnodup, -, hstops | ⟨s, hs, rfl, hcycle⟩⟩ :=
      follow_leads part table item
    · rw [h] at hstops
      exact hstops.not_cycle.elim
    · rw [h] at hcycle
      obtain rfl : r = s := by simpa using hcycle
      exact ⟨rs, hleads, hnodup, hs⟩
  · rintro ⟨rs, hleads, hnodup, hr⟩
    exact follow_eq_of_repeats hleads hnodup hr

/-- Following comes to an end after at most two turns more than the table has entries. It gives the value
that the chain leads to, or names the first reference on the chain that cannot be followed, and says
whether that one does not name the section or has no entry. If the chain leads to neither, it names the
first reference that comes a second time. -/
theorem follow_exact (part : Section) (table : List (String × RefOr α)) (item : RefOr α) :
    (∃ turns ≤ table.length + 2, Turns part table turns ⟨[], item⟩ (follow part table item)) ∧
      (∀ a, follow part table item = .ok a ↔ ∃ rs, Leads part table item rs (.inline a)) ∧
      (∀ r s, follow part table item = .error (.unsupported r s) ↔
        s = part ∧ ∃ rs, Leads part table item rs (.ref r) ∧ ∀ token, ¬ Splits part r token) ∧
      (∀ r, follow part table item = .error (.dangling r) ↔
        ∃ rs token, Leads part table item rs (.ref r) ∧ Splits part r token ∧
          table.lookup (String.ofList (unescape token)) = none) ∧
      (∀ r, follow part table item = .error (.cycle r) ↔
        ∃ rs, Leads part table item rs (.ref r) ∧ rs.Nodup ∧ r ∈ rs) ∧
      ((∃ r, follow part table item = .error (.cycle r)) ↔
        ∀ rs last result, Leads part table item rs last → ¬ Stops part table last result) := by
  obtain ⟨rs, last, hleads, hnodup, hturns, hend⟩ := follow_leads part table item
  have hlength := hleads.length_le hnodup
  refine ⟨⟨rs.length + 1, by omega, hturns⟩, fun a => ?_, fun r s => ?_, fun r => ?_,
    fun r => follow_eq_cycle_iff, ?_⟩
  · rw [follow_eq_iff_stops (by simp)]
    constructor
    · rintro ⟨rs, last, hleads, hstops⟩
      cases hstops
      exact ⟨rs, hleads⟩
    · rintro ⟨rs, hleads⟩
      exact ⟨rs, _, hleads, .value⟩
  · rw [follow_eq_iff_stops (by simp)]
    constructor
    · rintro ⟨rs, last, hleads, hstops⟩
      cases hstops with
      | unsupported hnot => exact ⟨rfl, rs, hleads, hnot⟩
    · rintro ⟨rfl, rs, hleads, hnot⟩
      exact ⟨rs, _, hleads, .unsupported hnot⟩
  · rw [follow_eq_iff_stops (by simp)]
    constructor
    · rintro ⟨rs, last, hleads, hstops⟩
      cases hstops with
      | dangling hsplits hnone => exact ⟨rs, _, hleads, hsplits, hnone⟩
    · rintro ⟨rs, token, hleads, hsplits, hnone⟩
      exact ⟨rs, _, hleads, .dangling hsplits hnone⟩
  · constructor
    · rintro ⟨r, hcycle⟩ rs last result hleads hstops
      rw [follow_eq_of_stops hleads hstops] at hcycle
      subst hcycle
      exact hstops.not_cycle
    · intro hgoes
      obtain hstops | ⟨r, -, -, hcycle⟩ := hend
      · exact absurd hstops (hgoes rs last _ hleads)
      · exact ⟨r, hcycle⟩

/-- Two spellings of one component, and the second one comes twice: no fewer turns would do. -/
example :
    follow .parameters [("a~", (.ref "#/components/parameters/a~0" : RefOr Unit))]
      (.ref "#/components/parameters/a~") = .error (.cycle "#/components/parameters/a~0") := by
  decide

end ApiClient.Reference

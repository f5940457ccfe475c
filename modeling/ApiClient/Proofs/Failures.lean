import ApiClient.Proofs.Occurrences

/-! The errors of failed resolutions. Each names a reference that stands in the description, and says of
it what is so. -/

namespace ApiClient

/-- The reference is the path of the section and one more token. -/
def Reference.Splits (part : Section) (r : String) (token : List Char) : Prop :=
  r.toList = "#/components/".toList ++ part.text.toList ++ '/' :: token ∧ token ≠ [] ∧ '/' ∉ token

/-- One reference of a section denotes an entry that consists only of the other. -/
def Components.LeadsTo (c : Components) (part : Section) (r s : String) : Prop :=
  ∃ token, Reference.Splits part r token ∧
    c.entry? (String.ofList (Reference.unescape token)) part = some (some s)

/-- What the error says is so, of a reference that stands in the description in a place that requires
the section. -/
inductive ReferenceError.Truthful (d : Document) : ReferenceError → Prop
  | dangling {part : Section} {r : String} {token : List Char} :
    (part, r) ∈ d.references → Reference.Splits part r token →
      d.components.entry? (String.ofList (Reference.unescape token)) part = none →
      Truthful d (.dangling r)
  | unsupported {part : Section} {r : String} :
    (part, r) ∈ d.references → (∀ token, ¬ Reference.Splits part r token) →
      Truthful d (.unsupported r part)
  | cycle {part : Section} {r : String} :
    (part, r) ∈ d.references → Relation.TransGen (d.components.LeadsTo part) r r →
      Truthful d (.cycle r)

/-! ### From tables to descriptions -/

namespace Reference

variable {d : Document} {part : Section} {r s name : String} {e : ReferenceError}

theorem component_eq_ok_iff_splits :
    component part r = .ok name ↔ ∃ token, Splits part r token ∧ name = String.ofList (unescape token) := by
  rw [component_eq_ok_iff]
  constructor
  · rintro ⟨token, hr, htoken, hflat, hname⟩
    exact ⟨token, ⟨hr, htoken, hflat⟩, hname⟩
  · rintro ⟨token, ⟨hr, htoken, hflat⟩, hname⟩
    exact ⟨token, hr, htoken, hflat, hname⟩

theorem Faulty.truthful {α : Type} {table : List (String × RefOr α)} (h : Faulty part table r e)
    (hentry : ∀ name, d.components.entry? name part = (table.lookup name).map RefOr.reference?)
    (hr : (part, r) ∈ d.references) : e.Truthful d := by
  cases h with
  | dangling hc hnone =>
    obtain ⟨token, hsplits, rfl⟩ := component_eq_ok_iff_splits.mp hc
    exact .dangling hr hsplits (by rw [hentry, hnone, Option.map_none])
  | unsupported hnot =>
    refine .unsupported hr fun token hsplits => ?_
    exact hnot _ (component_eq_ok_iff_splits.mpr ⟨token, hsplits, rfl⟩)
  | cycle hloop =>
    refine .cycle hr (Relation.TransGen.mono ?_ _ _ hloop)
    rintro a b ⟨c, hc, hb⟩
    obtain ⟨token, hsplits, rfl⟩ := component_eq_ok_iff_splits.mp hc
    exact ⟨token, hsplits, by rw [hentry, hb]; rfl⟩

end Reference

/-- The cause of a failure inside of the schemas is a fault of one of the references that are met. -/
theorem ReferenceError.Caused.faulty {schemas : List (String × RefOr Schema)} {Met : String → Prop}
    {e : ReferenceError} (h : e.Caused schemas Met) :
    ∃ r, Met r ∧ Reference.Faulty .schemas schemas r e := by
  cases h with
  | missing hr hmissing => cases hmissing with
    | unsupported hnot => exact ⟨_, hr, .unsupported hnot⟩
    | dangling hc hnone => exact ⟨_, hr, .dangling hc hnone⟩
  | cycle hr hloop =>
    refine ⟨_, hr, .cycle (Relation.TransGen.mono ?_ _ _ hloop)⟩
    exact fun a b => Reference.next?_eq_some_iff.mp

namespace Document

open Reference Resolver

variable {d : Document} {e : ReferenceError}

theorem resolve_eq_error (h : d.resolve = .error e) :
    ∃ q, Resolver.endpoints d { registry := .empty } = (.error e, q) := by
  rw [resolve, endpoints_apply] at h
  rcases hrun : Resolver.endpoints d { registry := .empty } with ⟨e' | eps, q⟩
  · rw [hrun] at h
    obtain rfl := Except.error.inj h
    exact ⟨q, rfl⟩
  · rw [hrun] at h
    cases h

/-- The error of what has been computed from a resolution is the one of the resolution. -/
theorem resolve_of_map_error {α : Type} {f : Resolution → α} (h : d.resolve.map f = .error e) :
    d.resolve = .error e := by
  cases hd : d.resolve with
  | error e' =>
    rw [hd] at h
    exact congrArg _ (Except.error.inj h)
  | ok R =>
    rw [hd] at h
    cases h

/-- An operation that cannot be read has a reference with a fault. -/
theorem truthful_of_refuses {site : Site} (hsite : site ∈ d.sites)
    (h : site.Refuses d.components e) : e.Truthful d := by
  obtain ⟨r, hr, hfaulty⟩ | ⟨r, hr, hfaulty⟩ | ⟨r, hr, hfaulty⟩ := h.faulty hsite
  · exact hfaulty.truthful (fun _ => rfl) hr
  · exact hfaulty.truthful (fun _ => rfl) hr
  · exact hfaulty.truthful (fun _ => rfl) hr

/-- All that a description meets when its types are resolved stands in it, whatever has gone before. -/
theorem truthful_of_error (h : d.resolve = .error e) : e.Truthful d := by
  let start : Pass := { registry := .empty }
  have hstart : start.Sound d.components.schemas (fun _ => True) .empty :=
    .start Registry.Ordered.empty
  let Met (r : String) : Prop := (Section.schemas, r) ∈ d.references
  have hcaused (e : ReferenceError) (h : e.Caused d.components.schemas Met) : e.Truthful d := by
    obtain ⟨r, hr, hfaulty⟩ := h.faulty
    exact hfaulty.truthful (fun _ => rfl) hr
  have hnamed (site : Site) (hsite : site ∈ d.sites) (a : Ask) (ha : site.Asks d.components a)
      (r : String) (hr : r ∈ a.outline.refs) :
      Outline.Named (start.Completes d.components.schemas (fun _ => True) .empty)
        (fun e _ => e.Truthful d) (reference d.components.schemas) r := by
    refine (reference_caused_named d.components.schemas .empty (p := start) rfl
      fun s hs => ?_).weaken fun e _ => hcaused e
    exact ha.reaches_mem_references hsite (hs.of_ref hr)
  have hruns := endpoints_runs (d := d) (E := fun e _ => e.Truthful d)
    (fun site hsite e he _ _ => truthful_of_refuses hsite he)
    fun site hsite a ha => a.resolve_runs Pass.completes_enumStable d.components.schemas
      (hnamed site hsite a ha)
  obtain ⟨q, hrun⟩ := resolve_eq_error h
  exact hruns.error (.refl hstart) hrun

/-- The error of a failed resolution names a reference that stands in the description. If it is
dangling, it splits into the section required there and a token, under which the section has no entry;
if it is unsupported, it does not split so; if it is one of a cycle, the entries that consist only of a
reference lead back to it. A description without references is always resolved. -/
theorem resolve_errors_truthful (d : Document) :
    (∀ e, d.resolve = .error e → e.Truthful d) ∧
      (d.references = [] → ∃ R, d.resolve = .ok R) := by
  refine ⟨fun e => truthful_of_error, fun hnone => ?_⟩
  cases hd : d.resolve with
  | ok R => exact ⟨R, rfl⟩
  | error e => cases truthful_of_error hd with
    | dangling hr | unsupported hr | cycle hr => simp [hnone] at hr

end Document

/-- One operation that has an answer, among components that are nothing but references. -/
def lostDocument (answer : RefOr Body) : Document where
  paths := [("/notes", {
    operation? := fun m => if m = .get then some { responses := [("200", answer)] } else none })]
  components := {
    schemas := [
      ("Note", .ref "#/components/schemas/Entry"), ("Entry", .ref "#/components/schemas/Note")]
    responses := [("Notes", .ref "#/components/responses/all~1notes")] }

def loopedAnswer : RefOr Body :=
  .inline ⟨[("application/json", some (.ref "#/components/schemas/Note"))]⟩

theorem resolve_errors_truthful_lost :
    ((lostDocument (.ref "#/components/responses/Notes")).resolve =
        .error (.dangling "#/components/responses/all~1notes") ∧
      (ReferenceError.dangling "#/components/responses/all~1notes").Truthful
        (lostDocument (.ref "#/components/responses/Notes"))) ∧
    ((lostDocument (.ref "#/components/schemas/Note")).resolve =
        .error (.unsupported "#/components/schemas/Note" .responses) ∧
      (ReferenceError.unsupported "#/components/schemas/Note" .responses).Truthful
        (lostDocument (.ref "#/components/schemas/Note"))) ∧
    ((lostDocument loopedAnswer).resolve = .error (.cycle "#/components/schemas/Note") ∧
      (ReferenceError.cycle "#/components/schemas/Note").Truthful (lostDocument loopedAnswer)) ∧
    ∃ R, Document.resolve {} = .ok R := by
  have hdangling : (lostDocument (.ref "#/components/responses/Notes")).resolve =
      .error (.dangling "#/components/responses/all~1notes") :=
    Document.resolve_of_map_error (f := fun _ => ()) (by decide +kernel)
  have hunsupported : (lostDocument (.ref "#/components/schemas/Note")).resolve =
      .error (.unsupported "#/components/schemas/Note" .responses) :=
    Document.resolve_of_map_error (f := fun _ => ()) (by decide +kernel)
  have hcycle : (lostDocument loopedAnswer).resolve = .error (.cycle "#/components/schemas/Note") :=
    Document.resolve_of_map_error (f := fun _ => ()) (by decide +kernel)
  exact ⟨⟨hdangling, (Document.resolve_errors_truthful _).1 _ hdangling⟩,
    ⟨hunsupported, (Document.resolve_errors_truthful _).1 _ hunsupported⟩,
    ⟨hcycle, (Document.resolve_errors_truthful _).1 _ hcycle⟩,
    (Document.resolve_errors_truthful _).2 rfl⟩

end ApiClient

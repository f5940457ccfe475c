import ApiClient.Proofs.Literals

/-! JSON text with one entry a line. Between the tokens there are blanks only, so that it is read like the
compact text, and different values have different texts. -/

namespace ApiClient.TypeScript

open Json (prettyAt prettyItems prettyFields)

/-! ### Blanks -/

theorem cuts_blanks {text : String} (h : ∀ c ∈ text.toList, Text.isBlank c = true) : Cuts text [] := by
  intro rest
  generalize text.toList = cs at h
  induction cs with
  | nil => rfl
  | cons c cs ih =>
    rw [List.forall_mem_cons] at h
    have hstep : Scanner.between.step c = ([], .between) := by simp [Scanner.step, Scanner.start, h.1]
    simpa [Scanner.tokens, hstep] using ih h.2

theorem cuts_indent (level : Nat) : Cuts (Json.indent level) [] := by
  refine cuts_blanks fun c hc => ?_
  rw [Json.indent, String.toList_ofList, List.mem_cons, List.mem_replicate] at hc
  rcases hc with rfl | ⟨-, rfl⟩ <;> rfl

theorem breaks_indent (level : Nat) (rest : List Char) : Breaks ((Json.indent level).toList ++ rest) := by
  rw [Json.indent, String.toList_ofList]
  exact breaks_cons rfl _

/-! ### Values -/

mutual

/-- A data value is read back from its text at any level. -/
theorem writes_prettyAt : (v : Json) → (level : Nat) → Writes (prettyAt level v) (.of v)
  | .null, _ => writes_text .null
  | .bool b, _ => writes_text (.bool b)
  | .int n, _ => writes_text (.int n)
  | .float x, _ => writes_text (.float x)
  | .str s, _ => writes_text (.str s)
  | .arr [], _ => writes_text (.arr [])
  | .obj [], _ => writes_text (.obj [])
  | .arr (v :: vs), level => by
    obtain ⟨ts, htexts, hts⟩ := writes_prettyItems (v :: vs) (level + 1)
    have hopen : Cuts "[" [.mark '['] := fun _ => rfl
    have hclose : Cuts "]" [.mark ']'] := fun _ => rfl
    have htext := (htexts.enclosed hopen (cuts_indent level) (breaks_indent level)).append hclose
    refine ⟨_, htext.lexes, fun rest => ?_⟩
    simpa [Literal.of] using Takes.list (hts rest)
  | .obj (f :: fs), level => by
    obtain ⟨ts, htexts, hts⟩ := writes_prettyFields (f :: fs) (level + 1)
    have hopen : Cuts "\x7b" [.mark '{'] := fun _ => rfl
    have hclose : Cuts "\x7d" [.mark '}'] := fun _ => rfl
    have htext := (htexts.enclosed hopen (cuts_indent level) (breaks_indent level)).append hclose
    refine ⟨_, htext.lexes, fun rest => ?_⟩
    simpa [Literal.of] using Takes.record (hts rest)

theorem writes_prettyItems : (vs : List Json) → (level : Nat) →
    ∃ ts, Lexes (prettyItems level vs) ts ∧
      ∀ rest, TakesItems (ts ++ .mark ']' :: rest) (Literal.ofItems vs) rest
  | [], _ => ⟨[], fun _ _ => rfl, fun _ => .close⟩
  | [v], level => by
    obtain ⟨ts, htext, hts⟩ := writes_prettyAt v level
    exact ⟨_, (cuts_indent level).append_lexes htext, fun rest => .last (hts _)⟩
  | v :: w :: vs, level => by
    obtain ⟨ts, htext, hts⟩ := writes_prettyAt v level
    obtain ⟨us, htexts, hus⟩ := writes_prettyItems (w :: vs) level
    have hcomma : Cuts "," [.mark ','] := fun _ => rfl
    have hitem := (cuts_indent level).append_lexes htext
    refine ⟨_, (hitem.append_cuts hcomma fun _ => breaks_cons rfl _).append_lexes htexts,
      fun rest => ?_⟩
    have hitems : TakesItems (ts ++ .mark ',' :: (us ++ .mark ']' :: rest))
        (Literal.ofItems (v :: w :: vs)) rest := .more (hts _) (hus rest)
    simpa using hitems

theorem writes_prettyFields : (fs : List (String × Json)) → (level : Nat) →
    ∃ ts, Lexes (prettyFields level fs) ts ∧
      ∀ rest, TakesMembers (ts ++ .mark '}' :: rest) (Literal.ofFields fs) rest
  | [], _ => ⟨[], fun _ _ => rfl, fun _ => .close⟩
  | [(k, v)], level => by
    obtain ⟨ts, htext, hts⟩ := writes_prettyAt v level
    have hcolon : Cuts ": " [.mark ':'] := fun _ => rfl
    have hkey := ((cuts_indent level).append (cuts_quoted k)).append hcolon
    exact ⟨_, hkey.append_lexes htext, fun rest => .last (hts _)⟩
  | (k, v) :: f :: fs, level => by
    obtain ⟨ts, htext, hts⟩ := writes_prettyAt v level
    obtain ⟨us, htexts, hus⟩ := writes_prettyFields (f :: fs) level
    have hcolon : Cuts ": " [.mark ':'] := fun _ => rfl
    have hcomma : Cuts "," [.mark ','] := fun _ => rfl
    have hkey := ((cuts_indent level).append (cuts_quoted k)).append hcolon
    refine ⟨_, ((hkey.append_lexes htext).append_cuts hcomma
      fun _ => breaks_cons rfl _).append_lexes htexts, fun rest => ?_⟩
    have hmembers : TakesMembers (.literal k :: .mark ':' :: (ts ++ .mark ',' :: (us ++ .mark '}' :: rest)))
        (Literal.ofFields ((k, v) :: f :: fs)) rest := .more (hts _) (hus rest)
    simpa using hmembers

end

/-- Values with one text are one value. -/
theorem pretty_inj {v w : Json} (hv : v.Normal) (hw : w.Normal) : v.pretty = w.pretty ↔ v = w := by
  refine ⟨fun h => of_injective v w hv hw ?_, congrArg Json.pretty⟩
  obtain ⟨ts, hvtext, hts⟩ := writes_prettyAt v 0
  obtain ⟨us, hwtext, hus⟩ := writes_prettyAt w 0
  have htexts : prettyAt 0 v = prettyAt 0 w := h
  obtain rfl : ts = us := by rw [← hvtext.tokens_eq, ← hwtext.tokens_eq, htexts]
  exact ((hts []).unique (hus [])).1

end ApiClient.TypeScript

import ApiClient.Naming
import Mathlib

/-! The characters of names. Changing the case of a character above ASCII leads to characters above ASCII
or to letters, so that a name put together from the words of a text has nothing of the punctuation of
ASCII, and a name in capital case does not begin with a small letter of ASCII. -/

namespace ApiClient

namespace Text

/-! ### Changing case -/

/-- The characters of the run are shifted to characters above ASCII, or its only one to a letter. -/
def Shift.Lands (letter : Char → Bool) (s : Shift) : Prop :=
  128 ≤ s.run.first + s.offset ∧
      (s.run.last + s.offset < 0xD800 ∨
        0xDFFF < s.run.first + s.offset ∧ s.run.last + s.offset < 0x110000) ∨
    s.run.first = s.run.last ∧ letter (Char.ofNat (s.run.first + s.offset).toNat) = true

instance (letter : Char → Bool) (s : Shift) : Decidable (s.Lands letter) :=
  inferInstanceAs (Decidable (_ ∨ _))

theorem upperShifts_land : ∀ s ∈ upperShifts, s.Lands Char.isUpper := by decide +kernel

theorem lowerShifts_land : ∀ s ∈ lowerShifts, s.Lands Char.isLower := by decide +kernel

theorem upperSpecial_land :
    ∀ e ∈ upperSpecial, ∀ n ∈ e.2, 128 ≤ (Char.ofNat n).toNat ∨ (Char.ofNat n).isUpper = true := by
  decide +kernel

theorem shifted_cases {letter : Char → Bool} {shifts : List Shift}
    (h : ∀ s ∈ shifts, s.Lands letter) (c : Char) :
    shifted shifts c = c ∨ 128 ≤ (shifted shifts c).toNat ∨ letter (shifted shifts c) = true := by
  rw [shifted]
  split
  · rename_i s hfind
    have hhas := List.find?_some hfind
    simp only [Run.has, Bool.and_eq_true, decide_eq_true_eq] at hhas
    obtain ⟨⟨hfirst, hlast⟩, -⟩ := hhas
    rcases h s (List.mem_of_find?_eq_some hfind) with ⟨hlow, hvalid⟩ | ⟨hone, hletter⟩
    · refine .inr (.inl ?_)
      have hchar : ((c.toNat : Int) + s.offset).toNat.isValidChar := by
        rw [Nat.isValidChar]
        omega
      rw [Char.toNat_ofNat, if_pos hchar]
      omega
    · have honly : s.run.first = c.toNat := by omega
      rw [honly] at hletter
      exact .inr (.inr hletter)
  · exact .inl rfl

variable {c x : Char} {cs : List Char}

theorem upper_ne_nil (c : Char) : upper c ≠ [] := by
  have hspecial : ∀ e ∈ upperSpecial, e.2 ≠ [] := by decide +kernel
  rw [upper]
  split_ifs
  · exact List.cons_ne_nil _ _
  · split
    · rename_i ns hlookup
      obtain ⟨before, after, hmem, -⟩ := List.lookup_eq_some_iff.mp hlookup
      have hne : ns ≠ [] := hspecial (c.toNat, ns) (by rw [hmem]; simp)
      simpa using hne
    · exact List.cons_ne_nil _ _

theorem upper_cases (h : x ∈ upper c) :
    x = c.toUpper ∨ 128 ≤ x.toNat ∨ x.isUpper = true := by
  rw [upper] at h
  split_ifs at h with hc
  · exact .inl (List.mem_singleton.mp h)
  · refine .inr ?_
    split at h
    · rename_i ns hlookup
      obtain ⟨n, hn, rfl⟩ := List.mem_map.mp h
      obtain ⟨before, after, hspecial, -⟩ := List.lookup_eq_some_iff.mp hlookup
      refine upperSpecial_land (c.toNat, ns) ?_ n hn
      rw [hspecial]
      exact List.mem_append_right _ List.mem_cons_self
    · obtain rfl := List.mem_singleton.mp h
      rcases shifted_cases upperShifts_land c with hsame | hland
      · rw [hsame]
        exact .inl (not_lt.mp hc)
      · exact hland

theorem lower_cases (h : x ∈ lower c) :
    x = c.toLower ∨ 128 ≤ x.toNat ∨ x.isLower = true := by
  rw [lower] at h
  split_ifs at h with hc hdotted
  · exact .inl (List.mem_singleton.mp h)
  · refine .inr ?_
    simp only [List.mem_cons, List.not_mem_nil, or_false] at h
    rcases h with rfl | rfl
    · exact .inr rfl
    · exact .inl (by decide)
  · refine .inr ?_
    obtain rfl := List.mem_singleton.mp h
    rcases shifted_cases lowerShifts_land c with hsame | hland
    · rw [hsame]
      exact .inl (not_lt.mp hc)
    · exact hland

theorem not_isLower_of_le (h : 128 ≤ c.toNat) : c.isLower = false := by
  rw [Bool.eq_false_iff]
  intro hlower
  simp only [Char.isLower, Bool.and_eq_true, decide_eq_true_eq, UInt32.le_iff_toNat_le] at hlower
  exact absurd (hlower.2.trans (by decide : 'z'.toNat ≤ 127)) (not_le.mpr h)

/-- No capital is a small letter of ASCII. -/
theorem not_isLower_of_mem_upper (h : x ∈ upper c) : x.isLower = false := by
  rcases upper_cases h with rfl | hx | hx
  · exact Char.isLower_toUpper_eq_false c
  · exact not_isLower_of_le hx
  · exact Bool.eq_false_iff.mpr (Char.not_isLower_of_isUpper hx)

/-! ### Words -/

/-- Of ASCII only letters and digits stand in words. -/
def InWord (c : Char) : Prop := c.toNat < 128 → c.isAlphanum = true

theorem inWord_of_isAlphanumeric (h : isAlphanumeric c = true) : InWord c := fun hc => by
  rwa [isAlphanumeric_of_lt hc] at h

theorem inWord_of_isAlpha (h : c.isAlpha = true) : InWord c := fun _ => by
  rw [Char.isAlphanum, h, Bool.true_or]

theorem inWord_of_le (h : 128 ≤ c.toNat) : InWord c := fun hc => absurd hc (not_lt.mpr h)

theorem InWord.upper (hc : InWord c) (h : x ∈ Text.upper c) : InWord x := by
  rcases upper_cases h with rfl | hle | hletter
  · by_cases hsmall : c.isLower = true
    · exact inWord_of_isAlpha (by simp [Char.isAlpha, hsmall])
    · rwa [Char.toUpper_eq_of_not_isLower hsmall]
  · exact inWord_of_le hle
  · exact inWord_of_isAlpha (by simp [Char.isAlpha, hletter])

theorem InWord.lower (hc : InWord c) (h : x ∈ Text.lower c) : InWord x := by
  rcases lower_cases h with rfl | hle | hletter
  · by_cases hlarge : c.isUpper = true
    · exact inWord_of_isAlpha (by simp [Char.isAlpha, hlarge])
    · rwa [Char.toLower_eq_of_not_isUpper hlarge]
  · exact inWord_of_le hle
  · exact inWord_of_isAlpha (by simp [Char.isAlpha, hletter])

theorem not_sep_of_mem_pieces {sep : Char → Bool} {piece : List Char}
    (h : piece ∈ pieces sep cs) (hc : c ∈ piece) : sep c = false := by
  induction cs generalizing piece with
  | nil =>
    obtain rfl := List.mem_singleton.mp h
    cases hc
  | cons a cs ih =>
    rw [pieces] at h
    split at h
    · rcases List.mem_cons.mp h with rfl | h
      · cases hc
      · exact ih h hc
    · rename_i ha
      split at h
      · obtain rfl := List.mem_singleton.mp h
        obtain rfl := List.mem_singleton.mp hc
        exact Bool.eq_false_iff.mpr ha
      · rename_i p ps hpieces
        rcases List.mem_cons.mp h with rfl | h
        · rcases List.mem_cons.mp hc with rfl | hc
          · exact Bool.eq_false_iff.mpr ha
          · exact ih (hpieces ▸ List.mem_cons_self) hc
        · exact ih (hpieces ▸ List.mem_cons_of_mem _ h) hc

/-- The words of a piece are made of its characters. -/
theorem mem_of_mem_wordsFrom {before : LetterCase} {word w : List Char}
    (h : w ∈ wordsFrom before word cs) (hc : c ∈ w) : c ∈ word ∨ c ∈ cs := by
  fun_induction wordsFrom before word cs with
  | case1 => cases h
  | case2 before word hword =>
    obtain rfl := List.mem_singleton.mp h
    exact .inl (List.mem_reverse.mp hc)
  | case3 before word a =>
    obtain rfl := List.mem_singleton.mp h
    simpa [or_comm] using hc
  | case4 before word a next rest now hends ih =>
    rcases List.mem_cons.mp h with rfl | h
    · simp only [List.mem_reverse, List.mem_cons] at hc ⊢
      tauto
    · have hmem := ih h
      simp only [List.mem_cons, List.not_mem_nil, false_or] at hmem ⊢
      tauto
  | case5 before word a next rest now hends hseries ih =>
    rcases List.mem_cons.mp h with rfl | h
    · exact .inl (List.mem_reverse.mp hc)
    · have hmem := ih h
      simp only [List.mem_cons, List.not_mem_nil, or_false] at hmem ⊢
      tauto
  | case6 before word a next rest now hends hseries ih =>
    have hmem := ih h
    simp only [List.mem_cons] at hmem ⊢
    tauto

theorem inWord_of_mem_words {w : List Char} (h : w ∈ words cs) (hc : c ∈ w) : InWord c := by
  obtain ⟨piece, hpiece, hw⟩ := List.mem_flatMap.mp h
  have hmem := (mem_of_mem_wordsFrom hw hc).resolve_left List.not_mem_nil
  have hsep := not_sep_of_mem_pieces hpiece hmem
  exact inWord_of_isAlphanumeric (by simpa using hsep)

theorem inWord_of_mem_lowerWord {w : List Char} (h : ∀ a ∈ w, InWord a) (hc : c ∈ lowerWord w) :
    InWord c := by
  fun_induction lowerWord w with
  | case1 => cases hc
  | case2 =>
    obtain rfl := List.mem_singleton.mp hc
    exact inWord_of_le (by decide)
  | case3 a _ => exact (h a List.mem_cons_self).lower hc
  | case4 a w _ ih =>
    rcases List.mem_append.mp hc with hc | hc
    · exact (h a List.mem_cons_self).lower hc
    · exact ih (fun b hb => h b (List.mem_cons_of_mem _ hb)) hc

theorem inWord_of_mem_capitalWord {w : List Char} (h : ∀ a ∈ w, InWord a)
    (hc : c ∈ capitalWord w) : InWord c := by
  cases w with
  | nil => cases hc
  | cons a w =>
    rcases List.mem_append.mp hc with hc | hc
    · exact (h a List.mem_cons_self).upper hc
    · exact inWord_of_mem_lowerWord (fun b hb => h b (List.mem_cons_of_mem _ hb)) hc

theorem inWord_of_mem_lowerCamel (hc : c ∈ lowerCamel cs) : InWord c := by
  have hwords (w : List Char) (hw : w ∈ words cs) (a : Char) (ha : a ∈ w) := inWord_of_mem_words hw ha
  rw [lowerCamel] at hc
  split at hc
  · cases hc
  · rename_i w ws hcs
    rw [hcs] at hwords
    rcases List.mem_append.mp hc with hc | hc
    · exact inWord_of_mem_lowerWord (hwords w List.mem_cons_self) hc
    · obtain ⟨v, hv, hc⟩ := List.mem_flatMap.mp hc
      exact inWord_of_mem_capitalWord (hwords v (List.mem_cons_of_mem _ hv)) hc

end Text

/-- An argument has no characters of ASCII but letters and digits. -/
theorem inWord_of_mem_argumentName {name : String} {c : Char} (h : c ∈ (argumentName name).toList) :
    Text.InWord c := by
  rw [argumentName, String.toList_ofList] at h
  exact Text.inWord_of_mem_lowerCamel h

end ApiClient

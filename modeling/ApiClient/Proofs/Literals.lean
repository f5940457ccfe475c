import ApiClient.Proofs.NumberTexts
import ApiClient.Proofs.Tokens

/-! Literals of the module text. A literal is read off the tokens from the left, in one way only, and a data
value is read back from its text. -/

namespace ApiClient.TypeScript

/-- A literal as it is written. Numbers, truth values and null are words. -/
inductive Literal where
  | word (w : String)
  | text (s : String)
  | list (items : List Literal)
  | record (members : List (String × Literal))

mutual

/-- The tokens begin with the literal, and go on with the others. A comma may stand behind the last item of
a list and the last member of a record. -/
inductive Takes : List Token → Literal → List Token → Prop
  | word {w : String} {rest : List Token} : Takes (.word w :: rest) (.word w) rest
  | text {s : String} {rest : List Token} : Takes (.literal s :: rest) (.text s) rest
  | list {ts rest : List Token} {ls : List Literal} :
    TakesItems ts ls rest → Takes (.mark '[' :: ts) (.list ls) rest
  | record {ts rest : List Token} {ms : List (String × Literal)} :
    TakesMembers ts ms rest → Takes (.mark '{' :: ts) (.record ms) rest

inductive TakesItems : List Token → List Literal → List Token → Prop
  | close {rest : List Token} : TakesItems (.mark ']' :: rest) [] rest
  | last {ts rest : List Token} {l : Literal} :
    Takes ts l (.mark ']' :: rest) → TakesItems ts [l] rest
  | more {ts us rest : List Token} {l : Literal} {ls : List Literal} :
    Takes ts l (.mark ',' :: us) → TakesItems us ls rest → TakesItems ts (l :: ls) rest

inductive TakesMembers : List Token → List (String × Literal) → List Token → Prop
  | close {rest : List Token} : TakesMembers (.mark '}' :: rest) [] rest
  | last {key : String} {ts rest : List Token} {l : Literal} :
    Takes ts l (.mark '}' :: rest) →
      TakesMembers (.literal key :: .mark ':' :: ts) [(key, l)] rest
  | more {key : String} {ts us rest : List Token} {l : Literal} {ms : List (String × Literal)} :
    Takes ts l (.mark ',' :: us) → TakesMembers us ms rest →
      TakesMembers (.literal key :: .mark ':' :: ts) ((key, l) :: ms) rest

end

mutual

theorem Takes.unique {ts us vs : List Token} {l m : Literal} :
    Takes ts l us → Takes ts m vs → l = m ∧ us = vs
  | .word, .word => ⟨rfl, rfl⟩
  | .text, .text => ⟨rfl, rfl⟩
  | .list h, .list h' => by
    obtain ⟨rfl, rfl⟩ := h.unique h'
    exact ⟨rfl, rfl⟩
  | .record h, .record h' => by
    obtain ⟨rfl, rfl⟩ := h.unique h'
    exact ⟨rfl, rfl⟩

theorem TakesItems.unique {ts us vs : List Token} {ls ms : List Literal} :
    TakesItems ts ls us → TakesItems ts ms vs → ls = ms ∧ us = vs
  | .close, .close => ⟨rfl, rfl⟩
  | .last h, .last h' => by
    obtain ⟨rfl, hrest⟩ := h.unique h'
    exact ⟨rfl, List.tail_eq_of_cons_eq hrest⟩
  | .last h, .more h' _ => by
    obtain ⟨-, hrest⟩ := h.unique h'
    simp at hrest
  | .more h _, .last h' => by
    obtain ⟨-, hrest⟩ := h.unique h'
    simp at hrest
  | .more h hs, .more h' hs' => by
    obtain ⟨rfl, hrest⟩ := h.unique h'
    obtain rfl := List.tail_eq_of_cons_eq hrest
    obtain ⟨rfl, rfl⟩ := hs.unique hs'
    exact ⟨rfl, rfl⟩

theorem TakesMembers.unique {ts us vs : List Token} {ms ns : List (String × Literal)} :
    TakesMembers ts ms us → TakesMembers ts ns vs → ms = ns ∧ us = vs
  | .close, .close => ⟨rfl, rfl⟩
  | .last h, .last h' => by
    obtain ⟨rfl, hrest⟩ := h.unique h'
    exact ⟨rfl, List.tail_eq_of_cons_eq hrest⟩
  | .last h, .more h' _ => by
    obtain ⟨-, hrest⟩ := h.unique h'
    simp at hrest
  | .more h _, .last h' => by
    obtain ⟨-, hrest⟩ := h.unique h'
    simp at hrest
  | .more h hs, .more h' hs' => by
    obtain ⟨rfl, hrest⟩ := h.unique h'
    obtain rfl := List.tail_eq_of_cons_eq hrest
    obtain ⟨rfl, rfl⟩ := hs.unique hs'
    exact ⟨rfl, rfl⟩

end

/-! ### Data values -/

mutual

/-- The literal that a data value is. -/
def Literal.of : Json → Literal
  | .null => .word "null"
  | .bool b => .word (toString b)
  | .int n => .word (toString n)
  | .float x => .word (Json.floatText x)
  | .str s => .text s
  | .arr vs => .list (Literal.ofItems vs)
  | .obj fs => .record (Literal.ofFields fs)

def Literal.ofItems : List Json → List Literal
  | [] => []
  | v :: vs => Literal.of v :: Literal.ofItems vs

def Literal.ofFields : List (String × Json) → List (String × Literal)
  | [] => []
  | (k, v) :: fs => (k, Literal.of v) :: Literal.ofFields fs

end

mutual

/-- The literal without any blanks. -/
def Literal.source : Literal → String
  | .word w => w
  | .text s => Json.quoted s
  | .list ls => "[" ++ Literal.sourceItems ls ++ "]"
  | .record ms => "\x7b" ++ Literal.sourceMembers ms ++ "\x7d"

def Literal.sourceItems : List Literal → String
  | [] => ""
  | [l] => l.source
  | l :: ls => l.source ++ "," ++ Literal.sourceItems ls

def Literal.sourceMembers : List (String × Literal) → String
  | [] => ""
  | [(k, l)] => Json.quoted k ++ ":" ++ l.source
  | (k, l) :: ms => Json.quoted k ++ ":" ++ l.source ++ "," ++ Literal.sourceMembers ms

end

mutual

theorem Literal.source_of : (v : Json) → (Literal.of v).source = v.text
  | .null => rfl
  | .bool true => rfl
  | .bool false => rfl
  | .int _ => rfl
  | .float _ => rfl
  | .str _ => rfl
  | .arr vs => by rw [Literal.of, Literal.source, Literal.sourceItems_of vs, Json.text]
  | .obj fs => by rw [Literal.of, Literal.source, Literal.sourceMembers_of fs, Json.text]

theorem Literal.sourceItems_of : (vs : List Json) →
    Literal.sourceItems (Literal.ofItems vs) = Json.textItems vs
  | [] => rfl
  | [v] => Literal.source_of v
  | v :: w :: vs => by
    show (Literal.of v).source ++ "," ++ Literal.sourceItems (Literal.ofItems (w :: vs)) =
      v.text ++ "," ++ Json.textItems (w :: vs)
    rw [Literal.source_of v, Literal.sourceItems_of (w :: vs)]

theorem Literal.sourceMembers_of : (fs : List (String × Json)) →
    Literal.sourceMembers (Literal.ofFields fs) = Json.textFields fs
  | [] => rfl
  | [(k, v)] => by
    rw [Literal.ofFields, Literal.ofFields, Literal.sourceMembers, Literal.source_of v, Json.textFields]
  | (k, v) :: f :: fs => by
    show Json.quoted k ++ ":" ++ (Literal.of v).source ++ "," ++
      Literal.sourceMembers (Literal.ofFields (f :: fs)) =
        Json.quoted k ++ ":" ++ v.text ++ "," ++ Json.textFields (f :: fs)
    rw [Literal.source_of v, Literal.sourceMembers_of (f :: fs)]

end

/-! ### Numbers are words -/

theorem WordText.append {s t : String} (hs : WordText s) (ht : WordText t) : WordText (s ++ t) := by
  intro c hc
  rw [String.toList_append, List.mem_append] at hc
  exact hc.elim (hs c) (ht c)

theorem WordText.ofList_of_subset {s : String} (hs : WordText s) {cs : List Char}
    (h : cs ⊆ s.toList) : WordText (String.ofList cs) := by
  intro c hc
  rw [String.toList_ofList] at hc
  exact hs c (h hc)

/-- All that stands in numbers beside digits, and in the other words of data. -/
theorem wordText_of_chars {text : String} (h : text.toList ⊆ "+-.0aeflnrstu".toList) :
    WordText text := by
  have hall : WordText "+-.0aeflnrstu" := by
    simp [WordText, isWordChar, isMark, isQuote, Text.isBlank]
  exact fun c hc => hall c (h hc)

theorem isWordChar_of_isDigit {c : Char} (h : c.isDigit = true) : isWordChar c = true := by
  simp only [Char.isDigit, Bool.and_eq_true, decide_eq_true_eq] at h
  have hlow : 48 ≤ c.toNat := h.1
  have hhigh : c.toNat ≤ 57 := h.2
  rw [← Char.ofNat_toNat c]
  generalize c.toNat = n at hlow hhigh
  interval_cases n <;> rfl

theorem wordText_nat (n : Nat) : WordText (toString n) := by
  intro c hc
  rw [Nat.toString_eq_ofList_toDigits, String.toList_ofList] at hc
  exact isWordChar_of_isDigit (Nat.isDigit_of_mem_toDigits (by decide) (by decide) hc)

theorem wordText_int (n : Int) : WordText (toString n) := by
  intro c hc
  rw [Decimal.toList_int, List.mem_append, Decimal.minus] at hc
  rcases hc with hc | hc
  · split_ifs at hc <;> simp_all [isWordChar, isMark, isQuote, Text.isBlank]
  · exact isWordChar_of_isDigit (Decimal.digits_toDigits _ c hc)

theorem WordText.mantissa {s : String} (hs : WordText s) :
    WordText (match s.toList with
      | [] => ""
      | [c] => String.ofList [c]
      | c :: cs => String.ofList (c :: '.' :: cs)) := by
  have hpoint : isWordChar '.' = true := rfl
  rw [WordText] at hs
  split
  · exact wordText_of_chars (by simp)
  · rename_i c hc
    simpa [WordText, hc] using hs
  · rename_i c cs _ hcs
    simpa [WordText, hcs, hpoint] using hs

theorem wordText_floatText (x : Binary64) : WordText (Json.floatText x) := by
  have hsign : WordText (if x.negative then "-" else "") := by
    split_ifs <;> exact wordText_of_chars (by simp)
  have hzeros (n : Nat) : WordText (String.ofList (List.replicate n '0')) :=
    wordText_of_chars fun c hc => by
      rw [String.toList_ofList] at hc
      simp [List.eq_of_mem_replicate hc]
  have hdigits := wordText_nat (Decimal.shortest x).1
  simp only [Json.floatText]
  generalize (if x.negative then "-" else "") = sign at hsign ⊢
  generalize toString (Decimal.shortest x).1 = ds at hdigits ⊢
  split_ifs
  · exact hsign.append (wordText_of_chars (by simp))
  · exact ((hsign.append hdigits).append (hzeros _)).append (wordText_of_chars (by simp))
  · have hbefore (n : Nat) := hdigits.ofList_of_subset (List.take_subset n _)
    have hafter (n : Nat) := hdigits.ofList_of_subset (List.drop_subset n _)
    exact ((hsign.append (hbefore _)).append (wordText_of_chars (by simp))).append (hafter _)
  · exact ((hsign.append (wordText_of_chars (by simp))).append (hzeros _)).append hdigits
  all_goals
    exact (((hsign.append hdigits.mantissa).append (wordText_of_chars (by simp))).append
      (wordText_of_chars (by simp))).append (wordText_nat _)

theorem floatText_ne_empty (x : Binary64) : Json.floatText x ≠ "" := by
  simp only [Json.floatText]
  split_ifs <;> simp

theorem int_ne_empty (n : Int) : toString n ≠ "" := by
  rw [ne_eq, ← String.toList_eq_nil_iff, Decimal.toList_int, List.append_eq_nil_iff, not_and]
  exact fun _ => Nat.toDigits_ne_nil

/-! ### Texts of data values -/

/-- The text is the literal, where it stands before a break. -/
def Writes (text : String) (l : Literal) : Prop :=
  ∃ ts, Lexes text ts ∧ ∀ rest, Takes (ts ++ rest) l rest

theorem Writes.word {w : String} (hne : w ≠ "") (hw : WordText w) : Writes w (.word w) :=
  ⟨_, lexes_word hne hw, fun _ => .word⟩

mutual

/-- A data value is read back from its text. -/
theorem writes_text : (v : Json) → Writes v.text (.of v)
  | .null => .word (by decide) (wordText_of_chars (by decide))
  | .bool true => .word (by decide) (wordText_of_chars (by decide))
  | .bool false => .word (by decide) (wordText_of_chars (by decide))
  | .int n => .word (int_ne_empty n) (wordText_int n)
  | .float x => .word (floatText_ne_empty x) (wordText_floatText x)
  | .str s => ⟨_, (cuts_quoted s).lexes, fun _ => .text⟩
  | .arr vs => by
    obtain ⟨ts, htexts, hts⟩ := writes_textItems vs
    have hopen : Cuts "[" [.mark '['] := fun _ => rfl
    have hclose : Cuts "]" [.mark ']'] := fun _ => rfl
    refine ⟨_, (htexts.enclosed hopen hclose fun _ => breaks_cons rfl _).lexes, fun rest => ?_⟩
    simpa [Literal.of] using Takes.list (hts rest)
  | .obj fs => by
    obtain ⟨ts, htexts, hts⟩ := writes_textFields fs
    have hopen : Cuts "\x7b" [.mark '{'] := fun _ => rfl
    have hclose : Cuts "\x7d" [.mark '}'] := fun _ => rfl
    refine ⟨_, (htexts.enclosed hopen hclose fun _ => breaks_cons rfl _).lexes, fun rest => ?_⟩
    simpa [Literal.of] using Takes.record (hts rest)

theorem writes_textItems : (vs : List Json) → ∃ ts, Lexes (Json.textItems vs) ts ∧
    ∀ rest, TakesItems (ts ++ .mark ']' :: rest) (Literal.ofItems vs) rest
  | [] => ⟨[], fun _ _ => rfl, fun _ => .close⟩
  | [v] => by
    obtain ⟨ts, htext, hts⟩ := writes_text v
    exact ⟨ts, htext, fun rest => .last (hts _)⟩
  | v :: w :: vs => by
    obtain ⟨ts, htext, hts⟩ := writes_text v
    obtain ⟨us, htexts, hus⟩ := writes_textItems (w :: vs)
    have hcomma : Cuts "," [.mark ','] := fun _ => rfl
    refine ⟨_, (htext.append_cuts hcomma fun _ => breaks_cons rfl _).append_lexes htexts,
      fun rest => ?_⟩
    have hitems : TakesItems (ts ++ .mark ',' :: (us ++ .mark ']' :: rest))
        (Literal.ofItems (v :: w :: vs)) rest := .more (hts _) (hus rest)
    simpa using hitems

theorem writes_textFields : (fs : List (String × Json)) → ∃ ts, Lexes (Json.textFields fs) ts ∧
    ∀ rest, TakesMembers (ts ++ .mark '}' :: rest) (Literal.ofFields fs) rest
  | [] => ⟨[], fun _ _ => rfl, fun _ => .close⟩
  | [(k, v)] => by
    obtain ⟨ts, htext, hts⟩ := writes_text v
    have hcolon : Cuts ":" [.mark ':'] := fun _ => rfl
    refine ⟨_, ((cuts_quoted k).append hcolon).append_lexes htext, fun rest => ?_⟩
    exact .last (hts _)
  | (k, v) :: f :: fs => by
    obtain ⟨ts, htext, hts⟩ := writes_text v
    obtain ⟨us, htexts, hus⟩ := writes_textFields (f :: fs)
    have hcolon : Cuts ":" [.mark ':'] := fun _ => rfl
    have hcomma : Cuts "," [.mark ','] := fun _ => rfl
    have hmember := ((cuts_quoted k).append hcolon).append_lexes htext
    refine ⟨_, (hmember.append_cuts hcomma fun _ => breaks_cons rfl _).append_lexes htexts,
      fun rest => ?_⟩
    have hmembers : TakesMembers (.literal k :: .mark ':' :: (ts ++ .mark ',' :: (us ++ .mark '}' :: rest)))
        (Literal.ofFields ((k, v) :: f :: fs)) rest := .more (hts _) (hus rest)
    simpa using hmembers

end

/-- Data values are one literal exactly if they have one text. -/
theorem literal_of_eq_iff {v w : Json} : Literal.of v = Literal.of w ↔ v.text = w.text := by
  constructor
  · intro h
    rw [← Literal.source_of v, ← Literal.source_of w, h]
  · intro h
    obtain ⟨ts, hv, hts⟩ := writes_text v
    obtain ⟨us, hw, hus⟩ := writes_text w
    obtain rfl : ts = us := by rw [← hv.tokens_eq, ← hw.tokens_eq, h]
    exact ((hts []).unique (hus [])).1

/-! ### Literals of different values -/

/-- The values that are words. -/
theorem word_cases {v : Json} {w : String} (h : Literal.of v = .word w) :
    v = .null ∧ w = "null" ∨ v = .bool true ∧ w = "true" ∨ v = .bool false ∧ w = "false" ∨
      (∃ n, v = .int n ∧ w = toString n) ∨ ∃ x, v = .float x ∧ w = Json.floatText x := by
  cases v with
  | bool b =>
    obtain rfl := Literal.word.inj h
    cases b with
    | true => exact .inr (.inl ⟨rfl, rfl⟩)
    | false => exact .inr (.inr (.inl ⟨rfl, rfl⟩))
  | _ => simp_all [Literal.of]

theorem not_reads_of_name {w : String} (h : w ∈ ["null", "true", "false"]) {b : Bool} {q : ℚ} :
    ¬ Decimal.Reads w.toList b q := by
  rintro ⟨l, hl, -⟩
  simp only [List.mem_cons, List.not_mem_nil, or_false] at h
  rcases h with rfl | rfl | rfl <;> cases hl

theorem word_injective {v u : Json} {w : String} (hv : Literal.of v = .word w)
    (hu : Literal.of u = .word w) (hvn : v.Normal) (hun : u.Normal) : v = u := by
  have hint (n : Int) : toString n ∉ ["null", "true", "false"] :=
    fun hmem => not_reads_of_name hmem (Decimal.reads_int n)
  have hfloat (x : Binary64) : Json.floatText x ∉ ["null", "true", "false"] :=
    fun hmem => not_reads_of_name hmem (Decimal.reads_floatText x)
  have hmark := Decimal.int_ne_floatText
  have hintinj {m n : Int} (h : toString m = toString n) : m = n := Int.repr_injective h
  have hfloatinj {x y : Binary64} (hx : (Json.float x).Normal) (hy : (Json.float y).Normal)
      (h : Json.floatText x = Json.floatText y) : x = y := Decimal.floatText_injective hx hy h
  rcases word_cases hv with ⟨rfl, rfl⟩ | ⟨rfl, rfl⟩ | ⟨rfl, rfl⟩ | ⟨m, rfl, rfl⟩ | ⟨x, rfl, rfl⟩
  all_goals
    rcases word_cases hu with ⟨rfl, h⟩ | ⟨rfl, h⟩ | ⟨rfl, h⟩ | ⟨n, rfl, h⟩ | ⟨y, rfl, h⟩
  all_goals grind

mutual

/-- Different values are different literals. -/
theorem of_injective : (v u : Json) → v.Normal → u.Normal → Literal.of v = Literal.of u → v = u
  | .null, _, hv, hu, h => word_injective rfl h.symm hv hu
  | .bool _, _, hv, hu, h => word_injective rfl h.symm hv hu
  | .int _, _, hv, hu, h => word_injective rfl h.symm hv hu
  | .float _, _, hv, hu, h => word_injective rfl h.symm hv hu
  | .str s, u, _, _, h => by cases u <;> simp_all [Literal.of]
  | .arr vs, u, hv, hu, h => by
    cases u with
    | arr us => rw [allOf_injective vs us hv hu (Literal.list.inj h)]
    | _ => simp [Literal.of] at h
  | .obj fs, u, hv, hu, h => by
    cases u with
    | obj gs => rw [fieldsOf_injective fs gs hv hu (Literal.record.inj h)]
    | _ => simp [Literal.of] at h

theorem allOf_injective : (vs us : List Json) → Json.AllNormal vs → Json.AllNormal us →
    Literal.ofItems vs = Literal.ofItems us → vs = us
  | [], [], _, _, _ => rfl
  | v :: vs, u :: us, hv, hu, h => by
    obtain ⟨hfirst, hrest⟩ := List.cons.inj h
    rw [of_injective v u hv.1 hu.1 hfirst, allOf_injective vs us hv.2 hu.2 hrest]

theorem fieldsOf_injective : (fs gs : List (String × Json)) → Json.FieldsNormal fs →
    Json.FieldsNormal gs → Literal.ofFields fs = Literal.ofFields gs → fs = gs
  | [], [], _, _, _ => rfl
  | (k, v) :: fs, (j, u) :: gs, hv, hu, h => by
    obtain ⟨hfirst, hrest⟩ := List.cons.inj h
    obtain ⟨rfl, hof⟩ := Prod.mk.inj hfirst
    rw [of_injective v u hv.1 hu.1 hof, fieldsOf_injective fs gs hv.2 hu.2 hrest]

end

end ApiClient.TypeScript

import ApiClient.Text.Blank
import ApiClient.Text.Digit
import ApiClient.TypeScript.Types
import Mathlib

/-! The tokens of TypeScript text: words, string literals and marks. A machine reads the text character by
character; names in quotes are read back as they are. -/

namespace ApiClient.TypeScript

/-- A literal is known by its value. -/
inductive Token where
  | word (w : String)
  | literal (value : String)
  | mark (c : Char)
  deriving DecidableEq

def isMark (c : Char) : Bool :=
  ['{', '}', '(', ')', '[', ']', '|', '&', '?', ':', ';', ','].contains c

def isQuote (c : Char) : Bool := c == '\'' || c == '"'

/-- Words are made of all that has no role of its own, so that names and numbers are words. -/
def isWordChar (c : Char) : Bool := !(Text.isBlank c || isMark c || isQuote c)

/-- The character that a backslash before `c` makes of it. -/
def unescaped : Char → Char
  | 'n' => '\n'
  | 'r' => '\r'
  | 't' => '\t'
  | 'b' => Char.ofNat 8
  | 'f' => Char.ofNat 12
  | c => c

/-- Where a machine stands that cuts a text into tokens; what it has read of a token stands last character
first. -/
inductive Scanner where
  | between
  | word (seen : List Char)
  | literal (quote : Char) (seen : List Char)
  | escape (quote : Char) (seen : List Char)
  | code (quote : Char) (seen digits : List Char)

namespace Scanner

/-- The first character behind a token. -/
def start (c : Char) : List Token × Scanner :=
  if Text.isBlank c then ([], between)
  else if isQuote c then ([], literal c [])
  else if isMark c then ([.mark c], between)
  else ([], word [c])

/-- The tokens that a character completes, and the state behind it. -/
def step : Scanner → Char → List Token × Scanner
  | between, c => start c
  | word seen, c =>
    if isWordChar c then ([], word (c :: seen))
    else (.word (String.ofList seen.reverse) :: (start c).1, (start c).2)
  | literal quote seen, c =>
    if c = quote then ([.literal (String.ofList seen.reverse)], between)
    else if c = '\\' then ([], escape quote seen)
    else ([], literal quote (c :: seen))
  | escape quote seen, c =>
    if c = 'u' then ([], code quote seen []) else ([], literal quote (unescaped c :: seen))
  | code quote seen digits, c =>
    if digits.length < 3 then ([], code quote seen (c :: digits))
    else ([], literal quote
      (Char.ofNat ((Text.natural? 16 (c :: digits).reverse).getD 0) :: seen))

/-- The tokens at the end of the text. A quote that is not closed is no literal. -/
def last : Scanner → List Token
  | between => []
  | word seen => [.word (String.ofList seen.reverse)]
  | literal quote _ => [.mark quote]
  | escape quote _ => [.mark quote]
  | code quote _ _ => [.mark quote]

def tokens : Scanner → List Char → List Token
  | s, [] => s.last
  | s, c :: cs => (s.step c).1 ++ (s.step c).2.tokens cs

end Scanner

def tokens (text : String) : List Token := Scanner.between.tokens text.toList

open Scanner

/-- No word goes on with this text. -/
def Breaks (cs : List Char) : Prop := ∀ c ∈ cs.head?, isWordChar c = false

theorem breaks_nil : Breaks [] := fun _ h => nomatch h

theorem breaks_cons {c : Char} (h : isWordChar c = false) (cs : List Char) : Breaks (c :: cs) := by
  rintro _ ⟨⟩
  exact h

/-- The text is cut into these tokens, whatever follows. -/
def Cuts (text : String) (ts : List Token) : Prop :=
  ∀ rest, between.tokens (text.toList ++ rest) = ts ++ between.tokens rest

/-- The text is cut into these tokens, wherever it stands before a break. -/
def Lexes (text : String) (ts : List Token) : Prop :=
  ∀ rest, Breaks rest → between.tokens (text.toList ++ rest) = ts ++ between.tokens rest

section

variable {s t : String} {ts us : List Token}

theorem Cuts.lexes (h : Cuts s ts) : Lexes s ts := fun rest _ => h rest

theorem Cuts.append (hs : Cuts s ts) (ht : Cuts t us) : Cuts (s ++ t) (ts ++ us) := by
  intro rest
  rw [String.toList_append, List.append_assoc, hs, ht, List.append_assoc]

theorem Cuts.append_lexes (hs : Cuts s ts) (ht : Lexes t us) : Lexes (s ++ t) (ts ++ us) := by
  intro rest hrest
  rw [String.toList_append, List.append_assoc, hs, ht rest hrest, List.append_assoc]

theorem Lexes.append_cuts (hs : Lexes s ts) (ht : Cuts t us)
    (hbreak : ∀ rest, Breaks (t.toList ++ rest)) : Cuts (s ++ t) (ts ++ us) := by
  intro rest
  rw [String.toList_append, List.append_assoc, hs _ (hbreak rest), ht, List.append_assoc]

theorem Lexes.enclosed {before after : String} {bs as : List Token} (hs : Lexes s ts)
    (hbefore : Cuts before bs) (hafter : Cuts after as)
    (hbreak : ∀ rest, Breaks (after.toList ++ rest)) : Cuts (before ++ s ++ after) (bs ++ ts ++ as) :=
  (hbefore.append_lexes hs).append_cuts hafter hbreak

theorem lexes_intercalate {mark : String} {ms : List Token} (hmark : Cuts mark ms)
    (hbreak : ∀ rest, Breaks (mark.toList ++ rest)) {texts : List String} {tss : List (List Token)}
    (h : List.Forall₂ Lexes texts tss) : Lexes (mark.intercalate texts) (ms.intercalate tss) := by
  induction h with
  | nil => exact fun _ _ => rfl
  | @cons s ts texts tss hs hrest ih =>
    cases hrest with
    | nil => simpa using hs
    | cons ht hrest =>
      rw [String.intercalate_cons_cons, List.intercalate_cons_cons]
      exact (hs.append_cuts hmark hbreak).append_lexes ih

theorem Lexes.tokens_eq (h : Lexes s ts) : tokens s = ts := by
  simpa [tokens, Scanner.tokens, last] using h [] breaks_nil

end

/-! ### Words -/

/-- All characters of the text may stand in a word. -/
def WordText (text : String) : Prop := ∀ c ∈ text.toList, isWordChar c = true

variable {w rest : List Char}

theorem tokens_in_word (hw : ∀ c ∈ w, isWordChar c = true) (hrest : Breaks rest) (seen : List Char) :
    (word seen).tokens (w ++ rest) =
      .word (String.ofList (seen.reverse ++ w)) :: between.tokens rest := by
  induction w generalizing seen with
  | nil =>
    cases rest with
    | nil => simp [Scanner.tokens, last]
    | cons c rest => simp [Scanner.tokens, step, hrest c rfl]
  | cons c w ih =>
    rw [List.forall_mem_cons] at hw
    simp [Scanner.tokens, step, hw.1, ih hw.2]

theorem start_of_isWordChar {c : Char} (h : isWordChar c = true) : start c = ([], word [c]) := by
  simp only [isWordChar, Bool.not_eq_true', Bool.or_eq_false_iff] at h
  simp [start, h]

theorem lexes_word {w : String} (hne : w ≠ "") (hw : WordText w) : Lexes w [.word w] := by
  intro rest hrest
  obtain ⟨c, cs, hcs⟩ := List.exists_cons_of_ne_nil (mt String.toList_eq_nil_iff.mp hne)
  rw [WordText, hcs, List.forall_mem_cons] at hw
  have hword : String.ofList (c :: cs) = w := by rw [← hcs, String.ofList_toList]
  simp [hcs, Scanner.tokens, step, start_of_isWordChar hw.1, tokens_in_word hw.2 hrest, hword]

/-! ### Literals -/

/-- A text in quotes is read back, whatever is in it, if all that is written for a character reads as the
character. -/
theorem cuts_literal {quote : Char} (hquote : isQuote quote = true) {write : Char → List Char}
    (hwrite : ∀ c seen rest, (literal quote seen).tokens (write c ++ rest) =
      (literal quote (c :: seen)).tokens rest) (s : String) :
    Cuts (String.ofList (quote :: s.toList.flatMap write ++ [quote])) [.literal s] := by
  intro rest
  have hread (cs seen : List Char) :
      (literal quote seen).tokens (cs.flatMap write ++ quote :: rest) =
        .literal (String.ofList (seen.reverse ++ cs)) :: between.tokens rest := by
    induction cs generalizing seen with
    | nil => simp [Scanner.tokens, step]
    | cons c cs ih => simp [hwrite, ih]
  have hopen : between.step quote = ([], literal quote []) := by
    simp only [isQuote, Bool.or_eq_true, beq_iff_eq] at hquote
    rcases hquote with rfl | rfl <;> rfl
  simp [Scanner.tokens, hopen, hread]

theorem cuts_propertyKey (name : String) : Cuts (propertyKey name) [.literal name] := by
  refine cuts_literal rfl (fun c seen rest => ?_) name
  by_cases hc : c = '\\' ∨ c = '\''
  · have hkeep : (escape '\'' seen).step c = ([], literal '\'' (c :: seen)) := by
      rcases hc with rfl | rfl <;> rfl
    have hescape : (literal '\'' seen).step '\\' = ([], escape '\'' seen) := rfl
    simp [Scanner.tokens, hc, hescape, hkeep]
  · have hkeep : (literal '\'' seen).step c = ([], literal '\'' (c :: seen)) := by
      rw [not_or] at hc
      simp [step, hc]
    simp [Scanner.tokens, hc, hkeep]

/-- The code of a control character is read as the character. -/
theorem natural?_hexChar : ∀ n < 32,
    Text.natural? 16 ['0', '0', Json.hexChar (n / 16), Json.hexChar (n % 16)] = some n := by
  decide

theorem cuts_quoted (s : String) : Cuts (Json.quoted s) [.literal s] := by
  refine cuts_literal rfl (fun c seen rest => ?_) s
  have hcode (n : Nat) (h : c.toNat = n) : c = Char.ofNat n := by rw [← h, Char.ofNat_toNat]
  rw [Json.escaped]
  split_ifs with hquote hbackslash hn hr ht hb hf hcontrol
  · simp [Scanner.tokens, step, unescaped, hquote]
  · simp [Scanner.tokens, step, unescaped, hbackslash]
  · simp [Scanner.tokens, step, unescaped, hn]
  · simp [Scanner.tokens, step, unescaped, hr]
  · simp [Scanner.tokens, step, unescaped, ht]
  · simp [Scanner.tokens, step, unescaped, hcode 8 hb]
  · simp [Scanner.tokens, step, unescaped, hcode 12 hf]
  · simp [Scanner.tokens, step, natural?_hexChar _ hcontrol, Char.ofNat_toNat]
  · simp [Scanner.tokens, step, hquote, hbackslash]

end ApiClient.TypeScript

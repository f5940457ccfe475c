import ApiClient.Proofs.Phrases

/-! Types are read back from their texts. The text of a type is one phrase of the grammar, and the phrase
tells the type, so that different types have different texts. -/

namespace ApiClient

open TypeScript

/-- The words that stand for something else than a named type. -/
def TypeScript.reserved : List String :=
  ["string", "number", "boolean", "null", "any", "File"] ++ operators

/-- A word that can be the name of a type. All identifiers are of this kind. -/
structure TypeScript.IsName (n : String) : Prop where
  nonempty : n ≠ ""
  chars : WordText n
  free : n ∉ reserved

/-- Names are words, and nothing is combined of less than two types. -/
inductive TypeExpr.Printable : TypeExpr → Prop
  | primitive {p : Primitive} : Printable (.primitive p)
  | unknown : Printable .unknown
  | named {n : String} : IsName n → Printable (.named n)
  | array {t : TypeExpr} : t.Printable → Printable (.array t)
  | map {t : TypeExpr} : t.Printable → Printable (.map t)
  | object {fs : Fields} : (∀ f ∈ fs, f.2.Printable) → Printable (.object fs)
  | union {ts : List TypeExpr} : 2 ≤ ts.length → (∀ t ∈ ts, t.Printable) → Printable (.union ts)
  | intersection {ts : List TypeExpr} :
    2 ≤ ts.length → (∀ t ∈ ts, t.Printable) → Printable (.intersection ts)

namespace TypeScript

/-! ### The types of phrases -/

def wordType (w : String) : TypeExpr :=
  if w = "any" then .unknown
  else if w = "string" then .primitive .string
  else if w = "number" then .primitive .number
  else if w = "boolean" then .primitive .boolean
  else if w = "null" then .primitive .null
  else if w = "File" then .primitive .file
  else .named w

mutual

/-- The type that a phrase is written for. The keys of a constant, and its values, are an enum. -/
def Phrase.type? : Phrase → Option TypeExpr
  | .word w => some (wordType w)
  | .keys (.query n) => some (.named n)
  | .index (.query n) (.keys (.query m)) => if m = n then some (.named n) else none
  | .array p => p.type?.map .array
  | .map p => p.type?.map .map
  | .object ms => (fieldTypes? ms).map .object
  | .union ps => (types? ps).map .union
  | .intersection ps => (types? ps).map .intersection
  | _ => none

def types? : List Phrase → Option (List TypeExpr)
  | [] => some []
  | p :: ps => do return (← p.type?) :: (← types? ps)

def fieldTypes? : List (FieldKey × Phrase) → Option Fields
  | [] => some []
  | (k, p) :: ms => do return (k, ← p.type?) :: (← fieldTypes? ms)

end

/-- How a name is mentioned. -/
def namedPhrase (g : Registry) (name : String) : Phrase :=
  match enumValues? g name with
  | some values =>
    if values.all Json.isStr then .keys (.query name)
    else .index (.query name) (.keys (.query name))
  | none => .word name

mutual

def phrase (g : Registry) : TypeExpr → Phrase
  | .primitive p => .word (primitiveText p)
  | .object fs => .object (fieldPhrases g fs)
  | .named n => namedPhrase g n
  | .array t => .array (phrase g t)
  | .map t => .map (phrase g t)
  | .union ts => .union (phrases g ts)
  | .intersection ts => .intersection (phrases g ts)
  | .unknown => .word "any"

def phrases (g : Registry) : List TypeExpr → List Phrase
  | [] => []
  | t :: ts => phrase g t :: phrases g ts

def fieldPhrases (g : Registry) : Fields → List (FieldKey × Phrase)
  | [] => []
  | (k, t) :: fs => (k, phrase g t) :: fieldPhrases g fs

end

variable {g : Registry}

theorem wordType_of_isName {n : String} (h : IsName n) : wordType n = .named n := by
  have hfree := h.free
  simp only [reserved, List.cons_append, List.mem_cons, not_or] at hfree
  simp [wordType, hfree]

theorem type?_namedPhrase {n : String} (h : IsName n) :
    (namedPhrase g n).type? = some (.named n) := by
  rw [namedPhrase]
  split
  · split_ifs <;> simp [Phrase.type?]
  · simp [Phrase.type?, wordType_of_isName h]

theorem types?_phrases {ts : List TypeExpr} (h : ∀ t ∈ ts, (phrase g t).type? = some t) :
    types? (phrases g ts) = some ts := by
  induction ts with
  | nil => rfl
  | cons t ts ih =>
    rw [List.forall_mem_cons] at h
    simp [phrases, types?, h.1, ih h.2]

theorem fieldTypes?_fieldPhrases {fs : Fields} (h : ∀ f ∈ fs, (phrase g f.2).type? = some f.2) :
    fieldTypes? (fieldPhrases g fs) = some fs := by
  induction fs with
  | nil => rfl
  | cons f fs ih =>
    rw [List.forall_mem_cons] at h
    simp [fieldPhrases, fieldTypes?, h.1, ih h.2]

theorem type?_phrase {t : TypeExpr} (h : t.Printable) : (phrase g t).type? = some t := by
  induction h with
  | @primitive p => cases p <;> rfl
  | unknown => rfl
  | named hn => exact type?_namedPhrase hn
  | array _ ih => simp [phrase, Phrase.type?, ih]
  | map _ ih => simp [phrase, Phrase.type?, ih]
  | object _ ih => simp [phrase, Phrase.type?, fieldTypes?_fieldPhrases ih]
  | union _ _ ih => simp [phrase, Phrase.type?, types?_phrases ih]
  | intersection _ _ ih => simp [phrase, Phrase.type?, types?_phrases ih]

/-! ### Texts of phrases -/

/-- The text is a phrase of the level. -/
def Spells (l : Level) (text : String) (p : Phrase) : Prop :=
  ∃ ts, Derives l ts p ∧ Lexes text ts

namespace Spells

variable {s : String} {p : Phrase}

theorem reads (h : Spells .union s p) : Reads s p := by
  obtain ⟨ts, hts, hs⟩ := h
  rwa [Reads, hs.tokens_eq]

theorem loosen {l : Level} (h : Spells l s p) : Spells .union s p := by
  obtain ⟨ts, hts, hs⟩ := h
  cases l with
  | operand => exact ⟨ts, .intersection (.operator (.operand hts)), hs⟩
  | operator => exact ⟨ts, .intersection (.operator hts), hs⟩
  | intersection => exact ⟨ts, .intersection hts, hs⟩
  | union => exact ⟨ts, hts, hs⟩

theorem word {w : String} (hne : w ≠ "") (hw : WordText w) (hfree : w ∉ operators) :
    Spells .operand w (.word w) :=
  ⟨_, .word hfree, lexes_word hne hw⟩

theorem parens (h : Spells .union s p) : Spells .operand ("(" ++ s ++ ")") p := by
  obtain ⟨ts, hts, hs⟩ := h
  have hopen : Cuts "(" [.mark '('] := fun _ => rfl
  have hclose : Cuts ")" [.mark ')'] := fun _ => rfl
  exact ⟨_, .parens hts, (hs.enclosed hopen hclose fun _ => breaks_cons rfl _).lexes⟩

theorem array (h : Spells .operand s p) : Spells .operand (s ++ "[]") (.array p) := by
  obtain ⟨ts, hts, hs⟩ := h
  have hbrackets : Cuts "[]" [.mark '[', .mark ']'] := fun _ => rfl
  exact ⟨_, .array hts, (hs.append_cuts hbrackets fun _ => breaks_cons rfl _).lexes⟩

theorem map (h : Spells .union s p) :
    Spells .operand ("\x7b [key: string]: " ++ s ++ " \x7d") (.map p) := by
  obtain ⟨ts, hts, hs⟩ := h
  have hopen : Cuts "\x7b [key: string]: " [.mark '{', .mark '[', .word "key", .mark ':',
    .word "string", .mark ']', .mark ':'] := fun _ => rfl
  have hclose : Cuts " \x7d" [.mark '}'] := fun _ => rfl
  exact ⟨_, .map hts, (hs.enclosed hopen hclose fun _ => breaks_cons rfl _).lexes⟩

/-- A mention of an enum. -/
theorem named {n : String} (hn : IsName n) :
    Spells .operator ("keyof typeof " ++ n) (.keys (.query n)) ∧
      Spells .operand ("(typeof " ++ n ++ ")[keyof typeof " ++ n ++ "]")
        (.index (.query n) (.keys (.query n))) := by
  have hfree : n ∉ operators := fun h => hn.free (List.mem_append_right _ h)
  have hquery : Derives .operand [.word "typeof", .word n] (.query n) := .query hfree
  have hkeys : Derives .operator [.word "keyof", .word "typeof", .word n] (.keys (.query n)) :=
    .keys (.operand hquery)
  have hname : Lexes n [.word n] := lexes_word hn.nonempty hn.chars
  have hkeyof : Cuts "keyof typeof " [.word "keyof", .word "typeof"] := fun _ => rfl
  have hopen : Cuts "(typeof " [.mark '(', .word "typeof"] := fun _ => rfl
  have hindex : Cuts ")[keyof typeof " [.mark ')', .mark '[', .word "keyof", .word "typeof"] :=
    fun _ => rfl
  have hclose : Cuts "]" [.mark ']'] := fun _ => rfl
  refine ⟨⟨_, hkeys, hkeyof.append_lexes hname⟩, ?_⟩
  have hfirst := hname.enclosed hopen hindex fun _ => breaks_cons rfl _
  have hsecond := (hfirst.append_lexes hname).append_cuts hclose fun _ => breaks_cons rfl _
  exact ⟨_, .index (.parens (.intersection (.operator (.operand hquery))))
    (.intersection (.operator hkeys)), hsecond.lexes⟩

end Spells

theorem parts_intercalate {tss : List (List Token)} {ps : List Phrase}
    (h : List.Forall₂ (Derives .operator) tss ps) (hne : ps ≠ []) :
    Parts ([Token.mark '&'].intercalate tss) ps := by
  induction h with
  | nil => exact absurd rfl hne
  | cons hp hrest ih =>
    cases hrest with
    | nil => simpa using Parts.one hp
    | cons hq hrest =>
      rw [List.intercalate_cons_cons, List.append_assoc]
      exact .more hp (ih (List.cons_ne_nil _ _))

theorem alternatives_intercalate {tss : List (List Token)} {ps : List Phrase}
    (h : List.Forall₂ (Derives .intersection) tss ps) (hne : ps ≠ []) :
    Alternatives ([Token.mark '|'].intercalate tss) ps := by
  induction h with
  | nil => exact absurd rfl hne
  | cons hp hrest ih =>
    cases hrest with
    | nil => simpa using Alternatives.one hp
    | cons hq hrest =>
      rw [List.intercalate_cons_cons, List.append_assoc]
      exact .more hp (ih (List.cons_ne_nil _ _))

/-- What the text of a type is, where parentheses are put around it if they have to be. -/
def SpellsType (g : Registry) (t : TypeExpr) : Prop :=
  Spells (if needsParens g t then .union else .operand) (typeText g t) (phrase g t)

theorem SpellsType.element {t : TypeExpr} (h : SpellsType g t) :
    Spells .operand (parenthesised (needsParens g t) (typeText g t)) (phrase g t) := by
  rw [SpellsType] at h
  cases hparens : needsParens g t with
  | true =>
    rw [hparens] at h
    exact h.parens
  | false =>
    rw [hparens] at h
    exact h

theorem memberTexts_spell {ts : List TypeExpr} (h : ∀ t ∈ ts, SpellsType g t) :
    ∃ tss, List.Forall₂ Lexes (memberTexts g ts) tss ∧
      List.Forall₂ (Derives .operand) tss (phrases g ts) := by
  induction ts with
  | nil => exact ⟨[], .nil, .nil⟩
  | cons t ts ih =>
    rw [List.forall_mem_cons] at h
    obtain ⟨us, hus, ht⟩ := h.1.element
    obtain ⟨tss, htexts, hts⟩ := ih h.2
    exact ⟨us :: tss, .cons ht htexts, .cons hus hts⟩

theorem cuts_propertyText {type : String} {ts : List Token} (h : Lexes type ts) (k : FieldKey) :
    Cuts (propertyText k.name k.optional type)
      (.literal k.name :: optionalTokens k.optional ++ .mark ':' :: ts ++ [.mark ';']) := by
  have hmark : Cuts (optionalMark k.optional) (optionalTokens k.optional) := by
    cases k.optional <;> exact fun _ => rfl
  have hcolon : Cuts ": " [.mark ':'] := fun _ => rfl
  have hend : Cuts ";" [.mark ';'] := fun _ => rfl
  have hkey := ((cuts_propertyKey k.name).append hmark).append hcolon
  have hproperty := (hkey.append_lexes h).append_cuts hend fun _ => breaks_cons rfl _
  simpa [propertyText] using hproperty

theorem fieldTexts_spell {fs : Fields} (h : ∀ f ∈ fs, SpellsType g f.2) :
    ∃ ts, Cuts (String.join ((fieldTexts g fs).map (· ++ " "))) ts ∧
      Members ts (fieldPhrases g fs) := by
  induction fs with
  | nil => exact ⟨[], fun _ => rfl, .nil⟩
  | cons f fs ih =>
    obtain ⟨k, t⟩ := f
    rw [List.forall_mem_cons] at h
    obtain ⟨us, hus, ht⟩ := Spells.loosen h.1
    obtain ⟨ts, htexts, hts⟩ := ih h.2
    have hblank : Cuts " " [] := fun _ => rfl
    refine ⟨_, ?_, @Members.cons k _ _ _ _ hus hts⟩
    simpa [fieldTexts] using ((cuts_propertyText ht k).append hblank).append htexts

theorem inlineObject_spells {fs : Fields} (h : ∀ f ∈ fs, SpellsType g f.2) :
    Spells .operand (inlineObject (fieldTexts g fs)) (.object (fieldPhrases g fs)) := by
  cases fs with
  | nil =>
    have hbraces : Cuts "\x7b\x7d" [.mark '{', .mark '}'] := fun _ => rfl
    exact ⟨_, .object .nil, hbraces.lexes⟩
  | cons f fs =>
    obtain ⟨ts, htexts, hts⟩ := fieldTexts_spell h
    have hopen : Cuts "\x7b " [.mark '{'] := fun _ => rfl
    have hclose : Cuts "\x7d" [.mark '}'] := fun _ => rfl
    exact ⟨_, .object hts, ((hopen.append htexts).append hclose).lexes⟩

/-- The types that have no name are words. -/
theorem keyword_spells {w : String} (h : w ∈ reserved) (hfree : w ∉ operators) :
    Spells .operand w (.word w) := by
  have hne : w ≠ "" := by
    rintro rfl
    exact absurd h (by decide)
  have hchars : ∀ w ∈ reserved, WordText w := by
    simp [reserved, operators, WordText, isWordChar, isMark, isQuote, Text.isBlank]
  exact .word hne (hchars w h) hfree

theorem primitiveText_spells (p : Primitive) :
    Spells .operand (primitiveText p) (.word (primitiveText p)) := by
  cases p <;> exact keyword_spells (by decide) (by decide)

theorem namedText_spells {n : String} (hn : IsName n) :
    Spells (if needsParens g (.named n) then .union else .operand) (namedText g n)
      (namedPhrase g n) := by
  obtain ⟨hkeys, hindex⟩ := Spells.named hn
  have hfree : n ∉ operators := fun h => hn.free (List.mem_append_right _ h)
  cases henum : enumValues? g n with
  | none =>
    simp only [needsParens, namedText, namedPhrase, henum]
    exact .word hn.nonempty hn.chars hfree
  | some values =>
    cases hall : values.all Json.isStr with
    | true =>
      simp only [needsParens, namedText, namedPhrase, henum, hall]
      exact hkeys.loosen
    | false =>
      simp only [needsParens, namedText, namedPhrase, henum, hall]
      exact hindex

theorem length_phrases (ts : List TypeExpr) : (phrases g ts).length = ts.length := by
  induction ts with
  | nil => rfl
  | cons t ts ih => rw [phrases, List.length_cons, List.length_cons, ih]

/-- The text of a type is the phrase that the type is written as. -/
theorem typeText_spells {t : TypeExpr} (h : t.Printable) : SpellsType g t := by
  induction h with
  | primitive => exact primitiveText_spells _
  | unknown =>
    have hany : Spells .operand "any" (.word "any") := keyword_spells (by decide) (by decide)
    exact hany
  | named hn => exact namedText_spells hn
  | array _ ih => exact ih.element.array
  | map _ ih => exact Spells.map (Spells.loosen ih)
  | object _ ih => exact inlineObject_spells ih
  | @union ts hlength _ ih =>
    obtain ⟨tss, htexts, htss⟩ := memberTexts_spell ih
    have hmark : Cuts " | " [.mark '|'] := fun _ => rfl
    rw [← length_phrases (g := g)] at hlength
    have hne : phrases g ts ≠ [] := List.ne_nil_of_length_pos (by omega)
    have hparts : List.Forall₂ (Derives .intersection) tss (phrases g ts) :=
      htss.imp fun _ _ h => .operator (.operand h)
    exact ⟨_, .alternatives (alternatives_intercalate hparts hne) hlength,
      lexes_intercalate hmark (fun _ => breaks_cons rfl _) htexts⟩
  | @intersection ts hlength _ ih =>
    obtain ⟨tss, htexts, htss⟩ := memberTexts_spell ih
    have hmark : Cuts " & " [.mark '&'] := fun _ => rfl
    rw [← length_phrases (g := g)] at hlength
    have hne : phrases g ts ≠ [] := List.ne_nil_of_length_pos (by omega)
    have hparts : List.Forall₂ (Derives .operator) tss (phrases g ts) :=
      htss.imp fun _ _ h => .operand h
    exact ⟨_, .intersection (.parts (parts_intercalate hparts hne) hlength),
      lexes_intercalate hmark (fun _ => breaks_cons rfl _) htexts⟩

/-- The text of a type has one reading, and the reading tells the type. Types with one text are equal. -/
theorem typeText_unambiguous {t : TypeExpr} (h : t.Printable) :
    (∃ p : Phrase, p.type? = some t ∧ ∀ q, Reads (typeText g t) q ↔ q = p) ∧
      ∀ u : TypeExpr, u.Printable → typeText g u = typeText g t → u = t := by
  have hreads {u : TypeExpr} (hu : u.Printable) : Reads (typeText g u) (phrase g u) :=
    (typeText_spells hu).loosen.reads
  refine ⟨⟨phrase g t, type?_phrase h, fun q => ⟨fun hq => hq.unique (hreads h), ?_⟩⟩, ?_⟩
  · rintro rfl
    exact hreads h
  · intro u hu htext
    have hu' := hreads hu
    rw [htext] at hu'
    have hphrase : phrase g u = phrase g t := hu'.unique (hreads h)
    have htype : some u = some t := by rw [← type?_phrase hu, hphrase, type?_phrase h]
    exact Option.some.inj htype

/-- Two enums, one of which has other values than strings. -/
def enumRegistry : Registry where
  entries := [("Level", .enum [.str "off", .int 2]), ("Status", .enum [.str "on", .str "off"])]

/-- Lists of a status or of an object whose field's name needs an escape. -/
def nestedType : TypeExpr :=
  .array (.union [.named "Status",
    .object [(⟨"it's | \x7b", true⟩, .intersection [.named "Level", .map .unknown])]])

theorem nestedType_printable : nestedType.Printable := by
  have hchars : WordText "Status" ∧ WordText "Level" := by
    simp [WordText, isWordChar, isMark, isQuote, Text.isBlank]
  have hstatus : IsName "Status" := ⟨by decide, hchars.1, by decide⟩
  have hlevel : IsName "Level" := ⟨by decide, hchars.2, by decide⟩
  have hparts : (TypeExpr.intersection [.named "Level", .map .unknown]).Printable :=
    .intersection (by decide) (by simp [TypeExpr.Printable.named hlevel,
      TypeExpr.Printable.map .unknown])
  refine .array (.union (by decide) ?_)
  simp [TypeExpr.Printable.named hstatus, TypeExpr.Printable.object, hparts]

theorem typeText_unambiguous_nested :
    typeText enumRegistry nestedType =
        "((keyof typeof Status) | \x7b 'it\\'s | \x7b'?: " ++
          "(typeof Level)[keyof typeof Level] & \x7b [key: string]: any \x7d; \x7d)[]" ∧
      (∃ p : Phrase, p.type? = some nestedType ∧
        ∀ q, Reads (typeText enumRegistry nestedType) q ↔ q = p) ∧
      ∀ u : TypeExpr, u.Printable →
        typeText enumRegistry u = typeText enumRegistry nestedType → u = nestedType :=
  ⟨by decide +kernel, typeText_unambiguous nestedType_printable⟩

end TypeScript

end ApiClient

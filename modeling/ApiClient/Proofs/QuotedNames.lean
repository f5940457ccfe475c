import ApiClient.Proofs.Fidelity
import ApiClient.Proofs.RequestBodies
import ApiClient.Proofs.Tokens
import ApiClient.Proofs.TypeNames

/-! Names in single quotes. What is written for a name is a string literal with the name as its value if the
name has no line break, and no literal at all if it has one. -/

namespace ApiClient.TypeScript

/-! ### String literals -/

/-- The code units of a code point. -/
def unitsOf (n : Nat) : List Nat :=
  if n < 0x10000 then [n] else [0xD800 + (n - 0x10000) / 0x400, 0xDC00 + (n - 0x10000) % 0x400]

/-- Texts are sequences of code units, as the values of string literals are. -/
def units (s : String) : List Nat := s.toList.flatMap fun c => unitsOf c.toNat

/-- The characters that end a line. -/
def lineEnds : List Char := ['\n', '\r', '\u2028', '\u2029']

/-- The character that a backslash makes of one that does not begin a longer escape. -/
def escapedChar (c : Char) : Char := if c = 'v' then Char.ofNat 11 else unescaped c

/-- What stands behind a backslash, the code units that it is read as, and what is left of the text. -/
inductive Escape : List Char → List Nat → List Char → Prop
  | char {c : Char} {cs : List Char} :
    c.isDigit = false → c ≠ 'x' → c ≠ 'u' → c ∉ lineEnds →
    Escape (c :: cs) (unitsOf (escapedChar c).toNat) cs
  | zero {cs : List Char} : (∀ d ∈ cs.head?, d.isDigit = false) → Escape ('0' :: cs) [0] cs
  | byte {a b : Char} {n : Nat} {cs : List Char} :
    Text.natural? 16 [a, b] = some n → Escape ('x' :: a :: b :: cs) [n] cs
  | unit {a b c d : Char} {n : Nat} {cs : List Char} :
    Text.natural? 16 [a, b, c, d] = some n → Escape ('u' :: a :: b :: c :: d :: cs) [n] cs
  | point {digits : List Char} {n : Nat} {cs : List Char} :
    Text.natural? 16 digits = some n → n ≤ 0x10FFFF →
    Escape ('u' :: '{' :: digits ++ '}' :: cs) (unitsOf n) cs
  | lineEnd {c : Char} {cs : List Char} :
    c ∈ lineEnds → (c = '\r' → '\n' ∉ cs.head?) → Escape (c :: cs) [] cs
  | lineBreak {cs : List Char} : Escape ('\r' :: '\n' :: cs) [] cs

/-- The text up to the closing quote, the code units that it is read as, and what is left of the text. -/
inductive Inside : List Char → List Nat → List Char → Prop
  | close (rest : List Char) : Inside ('\'' :: rest) [] rest
  | char {c : Char} {cs rest : List Char} {us : List Nat} :
    c ≠ '\'' → c ≠ '\\' → c ≠ '\n' → c ≠ '\r' → Inside cs us rest →
    Inside (c :: cs) (unitsOf c.toNat ++ us) rest
  | escape {cs cs' rest : List Char} {vs us : List Nat} :
    Escape cs vs cs' → Inside cs' us rest → Inside ('\\' :: cs) (vs ++ us) rest

/-- The text begins with a string literal in single quotes of this value, and this is left of it. -/
inductive Quoted : List Char → List Nat → List Char → Prop
  | mk {cs rest : List Char} {us : List Nat} : Inside cs us rest → Quoted ('\'' :: cs) us rest

theorem Quoted.quote_mem {text rest : List Char} {us : List Nat} (h : Quoted text us rest) :
    '\'' ∈ text := by
  cases h
  exact List.mem_cons_self

/-! ### Code units -/

theorem unitsOf_append_inj {c d : Char} {us vs : List Nat}
    (h : unitsOf c.toNat ++ us = unitsOf d.toNat ++ vs) : c = d ∧ us = vs := by
  have hvalid (c : Char) : c.toNat < 0xD800 ∨ 0xDFFF < c.toNat ∧ c.toNat < 0x110000 := c.valid
  have hc := hvalid c
  have hd := hvalid d
  suffices hn : c.toNat = d.toNat ∧ us = vs from ⟨Char.toNat_inj.mp hn.1, hn.2⟩
  unfold unitsOf at h
  -- No character has a code point among those of the halves of the larger ones.
  split_ifs at h
  · simpa using h
  · simp only [List.cons_append, List.nil_append, List.cons.injEq] at h
    omega
  · simp only [List.cons_append, List.nil_append, List.cons.injEq] at h
    omega
  · simp only [List.cons_append, List.nil_append, List.cons.injEq] at h
    refine ⟨?_, h.2.2⟩
    omega

theorem units_injective {s t : String} (h : units s = units t) : s = t := by
  have hlist (cs ds : List Char)
      (h : cs.flatMap (fun c => unitsOf c.toNat) = ds.flatMap fun c => unitsOf c.toNat) : cs = ds := by
    have hne (n : Nat) : unitsOf n ≠ [] := by
      unfold unitsOf
      split_ifs <;> simp
    induction cs generalizing ds with
    | nil =>
      cases ds with
      | nil => rfl
      | cons d ds => simp [hne] at h
    | cons c cs ih =>
      cases ds with
      | nil => simp [hne] at h
      | cons d ds =>
        rw [List.flatMap_cons, List.flatMap_cons] at h
        obtain ⟨rfl, htail⟩ := unitsOf_append_inj h
        rw [ih ds htail]
  exact String.toList_injective (hlist _ _ h)

/-! ### Names -/

/-- There is no line break in the text. -/
def OneLine (s : String) : Prop := '\n' ∉ s.toList ∧ '\r' ∉ s.toList

section

variable {c : Char} {cs rest rest' : List Char} {us : List Nat}

theorem inside_close_iff : Inside ('\'' :: cs) us rest ↔ us = [] ∧ rest = cs := by
  constructor
  · intro h
    cases h with
    | close => exact ⟨rfl, rfl⟩
    | char hquote => exact absurd rfl hquote
  · rintro ⟨rfl, rfl⟩
    exact .close _

theorem inside_char_iff (hquote : c ≠ '\'') (hbackslash : c ≠ '\\') :
    Inside (c :: cs) us rest ↔
      (c ≠ '\n' ∧ c ≠ '\r') ∧ ∃ vs, us = unitsOf c.toNat ++ vs ∧ Inside cs vs rest := by
  constructor
  · intro h
    cases h with
    | close => exact absurd rfl hquote
    | char _ _ hn hr h => exact ⟨⟨hn, hr⟩, _, rfl, h⟩
    | escape => exact absurd rfl hbackslash
  · rintro ⟨⟨hn, hr⟩, vs, rfl, h⟩
    exact .char hquote hbackslash hn hr h

/-- A backslash makes quotes and backslashes parts of the name. -/
theorem inside_escape_iff (hc : c = '\\' ∨ c = '\'') :
    Inside ('\\' :: c :: cs) us rest ↔ ∃ vs, us = unitsOf c.toNat ++ vs ∧ Inside cs vs rest := by
  have hescape {vs : List Nat} {ds : List Char} :
      Escape (c :: cs) vs ds ↔ vs = unitsOf c.toNat ∧ ds = cs := by
    constructor
    · intro h
      rcases hc with rfl | rfl
      all_goals
        cases h with
        | char => exact ⟨rfl, rfl⟩
        | lineEnd hmem => exact absurd hmem (by decide)
    · rintro ⟨rfl, rfl⟩
      rcases hc with rfl | rfl
      all_goals exact .char (by decide) (by decide) (by decide) (by decide)
  constructor
  · intro h
    cases h with
    | char _ hbackslash => exact absurd rfl hbackslash
    | escape he h =>
      obtain ⟨rfl, rfl⟩ := hescape.mp he
      exact ⟨_, rfl, h⟩
  · rintro ⟨vs, rfl, h⟩
    exact .escape (hescape.mpr ⟨rfl, rfl⟩) h

theorem inside_written_iff :
    Inside (cs.flatMap (fun c => if c = '\\' ∨ c = '\'' then ['\\', c] else [c]) ++ '\'' :: rest)
        us rest' ↔
      ('\n' ∉ cs ∧ '\r' ∉ cs) ∧ us = cs.flatMap (fun c => unitsOf c.toNat) ∧ rest' = rest := by
  induction cs generalizing us with
  | nil => simp [inside_close_iff]
  | cons c cs ih =>
    by_cases hc : c = '\\' ∨ c = '\''
    · have hn : '\n' ≠ c ∧ '\r' ≠ c := by rcases hc with rfl | rfl <;> decide
      simp only [List.flatMap_cons, if_pos hc, List.cons_append, List.nil_append, inside_escape_iff hc, ih,
        List.mem_cons, not_or]
      constructor
      · rintro ⟨vs, rfl, hline, rfl, rfl⟩
        exact ⟨⟨⟨hn.1, hline.1⟩, hn.2, hline.2⟩, rfl, rfl⟩
      · rintro ⟨⟨⟨-, hn⟩, -, hr⟩, rfl, rfl⟩
        exact ⟨_, rfl, ⟨hn, hr⟩, rfl, rfl⟩
    · have hkeep := not_or.mp hc
      simp only [List.flatMap_cons, if_neg hc, List.cons_append, List.nil_append,
        inside_char_iff hkeep.2 hkeep.1, ih, List.mem_cons, not_or]
      constructor
      · rintro ⟨⟨hn, hr⟩, vs, rfl, hline, rfl, rfl⟩
        exact ⟨⟨⟨hn.symm, hline.1⟩, hr.symm, hline.2⟩, rfl, rfl⟩
      · rintro ⟨⟨⟨hnc, hn⟩, hrc, hr⟩, rfl, rfl⟩
        exact ⟨⟨Ne.symm hnc, Ne.symm hrc⟩, _, rfl, ⟨hn, hr⟩, rfl, rfl⟩

/-- The quoted name is read as the name and as nothing else, unless the name has a line break. -/
theorem quoted_propertyKey_iff {name : String} :
    Quoted ((propertyKey name).toList ++ rest) us rest' ↔
      OneLine name ∧ us = units name ∧ rest' = rest := by
  rw [propertyKey, String.toList_ofList, List.cons_append, List.cons_append, List.append_assoc, OneLine,
    units, ← inside_written_iff]
  exact ⟨fun | .mk h => h, .mk⟩

end

theorem not_quoted_propertyKey {name : String} (h : '\n' ∈ name.toList) (rest : List Char) :
    ¬ ∃ us rest', Quoted ((propertyKey name).toList ++ rest) us rest' :=
  fun ⟨_, _, hquoted⟩ => (quoted_propertyKey_iff.mp hquoted).1.1 h

/-! ### Members and entries -/

/-- The text is this member of an object type: a literal for its name, the mark of optional ones, and its
type between a colon and a semicolon. -/
def IsMember (text name : String) (optional : Bool) (type : String) : Prop :=
  Quoted text.toList (units name) (optionalMark optional ++ ": " ++ type ++ ";").toList

theorem memberEnd_inj {optional optional' : Bool} {type type' : String}
    (h : optionalMark optional ++ ": " ++ type ++ ";" = optionalMark optional' ++ ": " ++ type' ++ ";") :
    optional = optional' ∧ type = type' := by
  have hlist := congrArg String.toList h
  cases optional <;> cases optional' <;> simp [optionalMark] at hlist
  all_goals exact ⟨rfl, String.toList_injective hlist⟩

theorem toList_propertyText (name : String) (optional : Bool) (type : String) :
    (propertyText name optional type).toList =
      (propertyKey name).toList ++ (optionalMark optional ++ ": " ++ type ++ ";").toList := by
  simp [propertyText]

theorem isMember_propertyText_iff {name name' type type' : String} {optional optional' : Bool} :
    IsMember (propertyText name optional type) name' optional' type' ↔
      OneLine name ∧ name' = name ∧ optional' = optional ∧ type' = type := by
  rw [IsMember, toList_propertyText, quoted_propertyKey_iff]
  refine and_congr_right fun _ => ⟨fun ⟨hname, hrest⟩ => ?_, ?_⟩
  · exact ⟨units_injective hname, memberEnd_inj (String.toList_injective hrest)⟩
  · rintro ⟨rfl, rfl, rfl⟩
    exact ⟨rfl, rfl⟩

/-- The entry of an object gives it this property: an identifier stands for the property and for its value,
and a literal stands before a colon and the value. -/
inductive Gives (Identifier : String → Prop) (entry : String) : String → String → Prop
  | shorthand : Identifier entry → Gives Identifier entry entry entry
  | keyed {name value : String} :
    Quoted entry.toList (units name) (": " ++ value).toList → Gives Identifier entry name value

theorem quote_not_mem_argumentName (name : String) : '\'' ∉ (argumentName name).toList :=
  fun hmem => absurd (inWord_of_mem_argumentName hmem (by decide)) (by decide)

theorem gives_queryText_iff {Identifier : String → Prop}
    (hquote : ∀ s, Identifier s → '\'' ∉ s.toList) {raw name value : String} :
    Gives Identifier (queryText raw) name value ↔
      (if argumentName raw = raw then Identifier raw else OneLine raw) ∧
        name = raw ∧ value = argumentName raw := by
  rw [queryText]
  split_ifs with hraw
  · constructor
    · rintro (hidentifier | hkeyed)
      · exact ⟨hidentifier, rfl, hraw.symm⟩
      · have hmem := hkeyed.quote_mem
        rw [← hraw] at hmem
        exact absurd hmem (quote_not_mem_argumentName raw)
    · rintro ⟨hidentifier, rfl, rfl⟩
      rw [hraw]
      exact .shorthand hidentifier
  · have htext : (propertyKey raw ++ ": " ++ argumentName raw).toList =
        (propertyKey raw).toList ++ (": " ++ argumentName raw).toList := by simp
    constructor
    · rintro (hidentifier | hkeyed)
      · refine absurd ?_ (hquote _ hidentifier)
        simp [propertyKey]
      · rw [htext, quoted_propertyKey_iff] at hkeyed
        obtain ⟨hline, hname, hvalue⟩ := hkeyed
        exact ⟨hline, units_injective hname, String.toList_injective (by simpa using hvalue)⟩
    · rintro ⟨hline, rfl, rfl⟩
      refine .keyed ?_
      rw [htext, quoted_propertyKey_iff]
      exact ⟨hline, rfl, rfl⟩

theorem linesOf_params (op : Endpoint) :
    linesOf "params" op = if given op.queryParams = [] then []
      else ["params: \x7b " ++ ", ".intercalate ((given op.queryParams).map queryText) ++ " \x7d"] := by
  rw [linesOf, requestEntries]
  cases bodySource? op <;> split_ifs <;> simp_all [List.isPrefixOf]

/-- The members of an object type, in the order of its fields. -/
theorem fieldTexts_members (g : Registry) (fields : Fields) :
    List.Forall₂ (fun f member => ∀ name optional type, IsMember member name optional type ↔
      OneLine f.1.name ∧ name = f.1.name ∧ optional = f.1.optional ∧ type = typeText g f.2)
      fields (fieldTexts g fields) := by
  induction fields with
  | nil => exact .nil
  | cons f fields ih =>
    rw [fieldTexts]
    exact .cons (fun _ _ _ => isMember_propertyText_iff) ih

/-- A quoted name, whatever follows it, is a string literal with the name as its value if the name has no
line break; otherwise no literal stands there. The value is that of no other text. So the members of inline
objects and of interfaces give the names of the fields, with what belongs to them, and so do the entries for
the query of a request, where a name that is its own argument is not quoted and has to be an identifier. -/
theorem quoted_names_faithful (g : Registry) (op : Endpoint) :
    (∀ name rest us rest', Quoted ((propertyKey name).toList ++ rest) us rest' ↔
      OneLine name ∧ us = units name ∧ rest' = rest) ∧
    (∀ s t, units s = units t → s = t) ∧
    (∀ n (fields : Fields),
      typeText g (.object fields) = inlineObject (fieldTexts g fields) ∧
      definitionText g n (.object fields) = "export interface " ++ n ++ " \x7b\n" ++
        String.join ((fieldTexts g fields).map fun m => "  " ++ m ++ "\n") ++ "\x7d" ∧
      List.Forall₂ (fun f member => ∀ name optional type, IsMember member name optional type ↔
        OneLine f.1.name ∧ name = f.1.name ∧ optional = f.1.optional ∧ type = typeText g f.2)
        fields (fieldTexts g fields)) ∧
    ∀ Identifier : String → Prop, (∀ s, Identifier s → '\'' ∉ s.toList) →
      linesOf "params" op = (if given op.queryParams = [] then []
        else ["params: \x7b " ++ ", ".intercalate ((given op.queryParams).map queryText) ++ " \x7d"]) ∧
      ∀ raw ∈ given op.queryParams, ∀ name value, Gives Identifier (queryText raw) name value ↔
        (if argumentName raw = raw then Identifier raw else OneLine raw) ∧
          name = raw ∧ value = argumentName raw := by
  refine ⟨fun name rest us rest' => quoted_propertyKey_iff, fun s t => units_injective,
    fun n fields => ⟨rfl, rfl, fieldTexts_members g fields⟩,
    fun Identifier hquote => ⟨linesOf_params op, fun raw _ name value => gives_queryText_iff hquote⟩⟩

/-- Names with quotes and backslashes, and a query with and without quotes. -/
theorem quoted_names_faithful_odd :
    let op : Endpoint := ⟨"/notes", .get, "listNotes", [], ["page", "it's"], [], [], [], .unknown⟩
    Quoted "'it\\'s \\\\'?: any;".toList (units "it's \\") "?: any;".toList ∧
      IsMember "'a\\\\b'?: number;" "a\\b" true "number" ∧
      linesOf "params" op = ["params: \x7b page, 'it\\'s': itS \x7d"] ∧
      Gives IsIdentifier "page" "page" "page" ∧ Gives IsIdentifier "'it\\'s': itS" "it's" "itS" := by
  intro op
  have hidentifier (s : String) (h : IsIdentifier s) : '\'' ∉ s.toList := fun hmem => by
    simpa using h.chars _ hmem
  have hletters : "page".toList.all Char.isAlphanum = true := by decide
  have hpage : IsIdentifier "page" :=
    ⟨fun c hc => .inl (List.all_eq_true.mp hletters c hc), 'p', rfl, by decide⟩
  have hmember : fieldTexts .empty [(⟨"a\\b", true⟩, .primitive .number)] = ["'a\\\\b'?: number;"] := by
    decide +kernel
  have hnames : argumentName "page" = "page" ∧ argumentName "it's" = "itS" := by decide +kernel
  have hline : OneLine "it's" ∧ OneLine "it's \\" ∧ OneLine "a\\b" := by
    simp only [OneLine]
    decide
  obtain ⟨hquoted, -, hmembers, hqueries⟩ := quoted_names_faithful .empty op
  obtain ⟨-, -, hfields⟩ := hmembers "Odd" [(⟨"a\\b", true⟩, .primitive .number)]
  rw [hmember, List.forall₂_cons] at hfields
  obtain ⟨hparams, hentries⟩ := hqueries IsIdentifier hidentifier
  have hpage' := (hentries "page" (by decide) "page" "page").mpr
    ⟨by rwa [if_pos hnames.1], rfl, hnames.1.symm⟩
  have hits := (hentries "it's" (by decide) "it's" "itS").mpr
    ⟨by rw [hnames.2, if_neg (by decide)]; exact hline.1, rfl, hnames.2.symm⟩
  have hquery : queryText "page" = "page" ∧ queryText "it's" = "'it\\'s': itS" := by decide +kernel
  rw [hquery.1] at hpage'
  rw [hquery.2] at hits
  exact ⟨(hquoted "it's \\" "?: any;".toList _ _).mpr ⟨hline.2.1, rfl, rfl⟩,
    (hfields.1 _ _ _).mpr ⟨hline.2.2, rfl, rfl, rfl⟩, hparams.trans (by decide +kernel), hpage', hits⟩

end ApiClient.TypeScript

namespace ApiClient

/-- A query parameter and a property whose names go over two lines. -/
def brokenDocument : Document where
  paths := [("/notes", {
    operation? := fun m => if m = .get then some {
      operationId := some "listNotes"
      parameters := [.inline { name := "page\nsize", location := "query" }]
      responses := [("200", .inline ⟨[("application/json", some (.inline {
        properties := [("line\nbreak", .inline { type := some (.single "string") })] }))]⟩)] }
      else none })]

open TypeScript

/-- Neither of the names is written as a literal, though the value of an enum would be. -/
theorem brokenDocument_names :
    ∃ R op fields, brokenDocument.resolve = .ok R ∧ op ∈ R.operations ∧
      op.responseType = .object fields ∧ fields.map (·.1.name) = ["line\nbreak"] ∧
      (∀ member ∈ fieldTexts R.definitions fields, ¬ ∃ us rest, Quoted member.toList us rest) ∧
      op.queryParams = ["page\nsize"] ∧ argumentName "page\nsize" ≠ "page\nsize" ∧
      (¬ ∃ us rest, Quoted (queryText "page\nsize").toList us rest) ∧
      enumKey (.str "line\nbreak") = "\"line\\nbreak\"" := by
  have hrun : brokenDocument.resolve.toOption.map (fun R => R.operations.map fun op =>
      (op.answerKeys, op.queryParams)) = some [([⟨"line\nbreak", true⟩], ["page\nsize"])] := by
    decide +kernel
  obtain ⟨R, hR, hread⟩ := Document.resolve_of_map hrun
  obtain ⟨op, hop, hread⟩ := List.mem_map.mp (hread ▸ List.mem_singleton_self _)
  obtain ⟨hkeys, hquery⟩ := Prod.mk.inj hread
  rw [Endpoint.answerKeys] at hkeys
  split at hkeys
  · rename_i fields hfields
    obtain ⟨f, rfl, hkey⟩ := List.map_eq_singleton_iff.mp hkeys
    have hname : f.1.name = "line\nbreak" := congrArg FieldKey.name hkey
    have hquery' : queryText "page\nsize" = propertyKey "page\nsize" ++ ": pageSize" := by decide +kernel
    refine ⟨R, op, [f], hR, hop, hfields, congrArg (fun n => [n]) hname, ?_, hquery, by decide +kernel, ?_,
      by decide +kernel⟩
    · rw [fieldTexts, fieldTexts, List.forall_mem_singleton, toList_propertyText, hname]
      exact not_quoted_propertyKey (by decide) _
    · rw [hquery', String.toList_append]
      exact not_quoted_propertyKey (by decide) _
  · cases hkeys

end ApiClient

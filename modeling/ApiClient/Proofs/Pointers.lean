import ApiClient.Proofs.Failures

/-! How a component is addressed. In the token of a reference a tilde and a slash are escaped, and reading
the token undoes it, so that there is one reference to every component of a section. -/

namespace ApiClient

namespace Text

variable {a b c x : Char} {rest : List Char}

theorem replacePair_cons (h : x = a → rest.head? ≠ some b) :
    replacePair a b c (x :: rest) = x :: replacePair a b c rest := by
  cases rest with
  | nil => simp [replacePair]
  | cons y rest =>
    rw [replacePair, if_neg]
    rintro ⟨hx, hy⟩
    exact h hx (by simp [hy])

@[simp] theorem replacePair_pair : replacePair a b c (a :: b :: rest) = c :: replacePair a b c rest := by
  simp [replacePair]

end Text

namespace Reference

/-! ### Escaping -/

def escapeChar (c : Char) : List Char :=
  if c = '~' then ['~', '0'] else if c = '/' then ['~', '1'] else [c]

/-- A tilde becomes `~0` and a slash `~1`. -/
def escape (name : List Char) : List Char := name.flatMap escapeChar

/-- The reference to a component. -/
def pointer (part name : String) : String :=
  String.ofList ("#/components/".toList ++ part.toList ++ '/' :: escape name.toList)

/-- A token has no slash, and every tilde in it stands before a zero or a one. -/
def IsToken (cs : List Char) : Prop :=
  '/' ∉ cs ∧ ∀ before after, cs = before ++ '~' :: after →
    after.head? = some '0' ∨ after.head? = some '1'

/-- A token, read from the left. -/
inductive Token : List Char → Prop
  | nil : Token []
  | tilde {rest : List Char} : Token rest → Token ('~' :: '0' :: rest)
  | slash {rest : List Char} : Token rest → Token ('~' :: '1' :: rest)
  | char {c : Char} {rest : List Char} : c ≠ '~' → c ≠ '/' → Token rest → Token (c :: rest)

variable {c : Char} {rest token : List Char}

@[simp] theorem escape_nil : escape [] = [] := rfl

@[simp] theorem escape_tilde : escape ('~' :: rest) = '~' :: '0' :: escape rest := rfl

@[simp] theorem escape_slash : escape ('/' :: rest) = '~' :: '1' :: escape rest := rfl

theorem escape_cons (htilde : c ≠ '~') (hslash : c ≠ '/') : escape (c :: rest) = c :: escape rest := by
  simp [escape, escapeChar, htilde, hslash]

@[simp] theorem unescape_nil : unescape [] = [] := rfl

@[simp] theorem unescape_tilde : unescape ('~' :: '0' :: rest) = '~' :: unescape rest := by
  rw [unescape, Text.replacePair_cons (by simp), Text.replacePair_cons (x := '0') (by simp),
    Text.replacePair_pair, unescape]

@[simp] theorem unescape_slash : unescape ('~' :: '1' :: rest) = '/' :: unescape rest := by
  rw [unescape, Text.replacePair_pair, Text.replacePair_cons (by simp), unescape]

theorem unescape_cons (h : c ≠ '~') : unescape (c :: rest) = c :: unescape rest := by
  rw [unescape, Text.replacePair_cons (absurd · h), Text.replacePair_cons (absurd · h), unescape]

theorem escaped_cases (c : Char) : c = '~' ∨ c = '/' ∨ c ≠ '~' ∧ c ≠ '/' := by
  tauto

/-- The slash that the first replacement makes is not read again by the second one. -/
theorem unescape_escape (name : List Char) : unescape (escape name) = name := by
  induction name with
  | nil => rfl
  | cons c name ih =>
    obtain rfl | rfl | ⟨htilde, hslash⟩ := escaped_cases c
    · simp [ih]
    · simp [ih]
    · rw [escape_cons htilde hslash, unescape_cons htilde, ih]

theorem token_escape (name : List Char) : Token (escape name) := by
  induction name with
  | nil => exact .nil
  | cons c name ih =>
    obtain rfl | rfl | ⟨htilde, hslash⟩ := escaped_cases c
    · exact .tilde ih
    · exact .slash ih
    · rw [escape_cons htilde hslash]
      exact .char htilde hslash ih

theorem Token.escape_unescape (h : Token token) : escape (unescape token) = token := by
  induction h with
  | nil => rfl
  | tilde _ ih => simp [ih]
  | slash _ ih => simp [ih]
  | char htilde hslash _ ih => rw [unescape_cons htilde, escape_cons htilde hslash, ih]

theorem Token.flat (h : Token token) : '/' ∉ token := by
  induction h with
  | nil => simp
  | tilde _ ih => simpa using ih
  | slash _ ih => simpa using ih
  | char _ hslash _ ih => simpa using ⟨Ne.symm hslash, ih⟩

theorem IsToken.drop (front : List Char) (h : IsToken (front ++ rest)) : IsToken rest := by
  refine ⟨fun hmem => h.1 (List.mem_append_right _ hmem), fun before after heq => ?_⟩
  exact h.2 (front ++ before) after (by simp [heq])

theorem token_of_isToken : {cs : List Char} → IsToken cs → Token cs
  | [], _ => .nil
  | [c], h => by
    refine .char ?_ (fun hc => h.1 (by simp [hc])) .nil
    rintro rfl
    simpa using h.2 [] [] rfl
  | c :: d :: rest, h => by
    by_cases htilde : c = '~'
    · subst htilde
      have hrest := token_of_isToken (IsToken.drop ['~', d] h)
      obtain hd | hd := h.2 [] (d :: rest) rfl <;> obtain rfl := Option.some.inj hd
      · exact .tilde hrest
      · exact .slash hrest
    · exact .char htilde (fun hc => h.1 (by simp [hc])) (token_of_isToken (IsToken.drop [c] h))

theorem Token.isToken (h : Token token) : IsToken token := by
  refine ⟨h.flat, ?_⟩
  induction h with
  | nil => simp
  | tilde _ ih | slash _ ih =>
    rintro (_ | ⟨x, _ | ⟨y, before⟩⟩) after heq
    · simp only [List.nil_append, List.cons.injEq, true_and] at heq
      simp [← heq]
    · simp at heq
    · simp only [List.cons_append, List.cons.injEq] at heq
      exact ih before after heq.2.2
  | char htilde _ _ ih =>
    rintro (_ | ⟨x, before⟩) after heq
    · simp [htilde] at heq
    · simp only [List.cons_append, List.cons.injEq] at heq
      exact ih before after heq.2

/-! ### Addresses -/

variable {part : Section} {name r : String} {e : ReferenceError}

theorem toList_pointer (part name : String) :
    (pointer part name).toList = componentsPath ++ part.toList ++ '/' :: escape name.toList :=
  String.toList_ofList

theorem escape_ne_nil (h : name ≠ "") : escape name.toList ≠ [] := by
  intro hescape
  have hname := unescape_escape name.toList
  rw [hescape, unescape_nil] at hname
  exact h (String.toList_inj.mp hname.symm)

theorem split?_pointer_iff (part name : String) :
    split? (pointer part name) = some (part, name) ↔ part ≠ "" ∧ '/' ∉ part.toList ∧ name ≠ "" := by
  have hchars : split? (pointer part name) = some (part, name) ↔
      splitChars (pointer part name).toList = some (part.toList, name.toList) := by
    rw [split?, Option.map_eq_some_iff]
    constructor
    · rintro ⟨⟨x, y⟩, hsplit, heq⟩
      obtain ⟨rfl, rfl⟩ := Prod.mk.inj heq
      simpa using hsplit
    · intro hsplit
      exact ⟨_, hsplit, by simp⟩
  rw [hchars, splitChars_eq_some_iff, toList_pointer]
  constructor
  · rintro ⟨token, htoken, hpart, hflat, hne, -, -⟩
    obtain rfl : escape name.toList = token := by simpa using htoken
    refine ⟨by simpa using hpart, hflat, ?_⟩
    rintro rfl
    exact hne rfl
  · rintro ⟨hpart, hflat, hname⟩
    exact ⟨_, rfl, by simpa using hpart, hflat, escape_ne_nil hname, (token_escape _).flat,
      (unescape_escape _).symm⟩

theorem pointer_injective (part : String) : Function.Injective (pointer part) := by
  intro name name' h
  have hchars := congrArg String.toList h
  simp only [toList_pointer, List.append_cancel_left_eq, List.cons.injEq, true_and] at hchars
  have hname := congrArg unescape hchars
  rw [unescape_escape, unescape_escape] at hname
  exact String.toList_inj.mp hname

theorem component_pointer (part : Section) (h : name ≠ "") :
    component part (pointer part.text name) = .ok name := by
  rw [component_eq_ok_iff]
  exact ⟨escape name.toList, toList_pointer part.text name, escape_ne_nil h, (token_escape _).flat,
    by rw [unescape_escape, String.ofList_toList]⟩

theorem component_eq_ok_iff_split? : component part r = .ok name ↔ split? r = some (part.text, name) := by
  rw [component]
  cases split? r with
  | none => simp
  | some found =>
    obtain ⟨found, c⟩ := found
    by_cases hfound : found = part.text <;> simp [hfound]

end Reference

theorem Section.text_injective : Function.Injective Section.text := by
  intro s t h
  cases s <;> cases t <;> first | rfl | exact absurd h (by decide)

/-- The error says that the reference has no entry, or that it does not name the section. -/
def ReferenceError.Blames (part : Section) (r : String) (e : ReferenceError) : Prop :=
  e = .dangling r ∨ e = .unsupported r part

open Reference

variable {part : Section} {name : String} {e : ReferenceError}

theorem Reference.follow_faulty {α : Type} {table : List (String × RefOr α)} {item : RefOr α}
    (h : follow part table item = .error e) : ∃ r, Faulty part table r e := by
  have hall : ∃ r, True ∧ Faulty part table r e :=
    follow_error h (fun _ _ _ _ => trivial) fun _ _ => trivial
  simpa using hall

theorem Reference.Faulty.not_blames {α : Type} {table : List (String × RefOr α)} {r : String}
    (h : Faulty part table r e) (hname : name ≠ "") (hentry : table.lookup name ≠ none) :
    ¬ e.Blames part (pointer part.text name) := by
  have hok := component_pointer part hname
  rintro (rfl | rfl)
  · cases h with
    | dangling hc hnone =>
      obtain rfl := Except.ok.inj (hok.symm.trans hc)
      exact hentry hnone
  · cases h with
    | unsupported hnot => exact hnot name hok

theorem ReferenceError.Truthful.not_blames {d : Document} (h : e.Truthful d) (hname : name ≠ "")
    (hentry : d.components.entry? name part ≠ none) : ¬ e.Blames part (pointer part.text name) := by
  have hok := component_pointer part hname
  rintro (rfl | rfl)
  · cases h with
    | @dangling part' _ token _ hsplits hnone =>
      -- the entry may be missing in another section, but the reference names only one
      have hok' := component_eq_ok_iff_splits.mpr ⟨token, hsplits, rfl⟩
      rw [component_eq_ok_iff_split?] at hok hok'
      obtain ⟨hpart, rfl⟩ := Prod.mk.inj (Option.some.inj (hok.symm.trans hok'))
      obtain rfl := Section.text_injective hpart
      exact hentry hnone
  · cases h with
    | unsupported _ hnot =>
      obtain ⟨token, hsplits, -⟩ := component_eq_ok_iff_splits.mp hok
      exact hnot token hsplits

/-- Every component has a reference, which splits into its section and its name, and is the reference of no
other component of the section. As long as the component is there, no failure says of this reference that
it dangles or that it does not name its section. And every token is the escaped form of what it is read
as. -/
theorem Reference.pointers_address :
    (∀ part name : String, split? (pointer part name) = some (part, name) ↔
      part ≠ "" ∧ '/' ∉ part.toList ∧ name ≠ "") ∧
    (∀ part, Function.Injective (pointer part)) ∧
    (∀ (part : Section) (name : String), name ≠ "" →
      component part (pointer part.text name) = .ok name ∧
      (∀ (α : Type) (table : List (String × RefOr α)) (item : RefOr α) (e : ReferenceError),
        table.lookup name ≠ none → follow part table item = .error e →
          ¬ e.Blames part (pointer part.text name)) ∧
      ∀ (d : Document) (e : ReferenceError), d.components.entry? name part ≠ none →
        d.resolve = .error e → ¬ e.Blames part (pointer part.text name)) ∧
    ∀ token, IsToken token → escape (unescape token) = token := by
  refine ⟨split?_pointer_iff, pointer_injective, fun part name hname =>
    ⟨component_pointer part hname, fun α table item e hentry h => ?_, fun d e hentry h => ?_⟩,
    fun token htoken => (token_of_isToken htoken).escape_unescape⟩
  · obtain ⟨r, hfaulty⟩ := follow_faulty h
    exact hfaulty.not_blames hname hentry
  · exact (Document.truthful_of_error h).not_blames hname hentry

/-- A component whose name has to be escaped, and an answer that refers to it. -/
def oddDocument : Document where
  paths := [("/notes", {
    operation? := fun m => if m = .get then some {
      responses := [("200", .ref (pointer "responses" "a/b~01"))] } else none })]
  components := { responses := [("a/b~01", .inline {})] }

theorem Reference.pointers_address_odd :
    pointer "responses" "a/b~01" = "#/components/responses/a~1b~001" ∧
    split? (pointer "responses" "a/b~01") = some ("responses", "a/b~01") ∧
    (∀ e, oddDocument.resolve = .error e → ¬ e.Blames .responses (pointer "responses" "a/b~01")) ∧
    IsToken "a~1b~001".toList ∧ escape (unescape "a~1b~001".toList) = "a~1b~001".toList := by
  have htoken : IsToken "a~1b~001".toList := (token_escape "a/b~01".toList).isToken
  exact ⟨by decide, (pointers_address.1 _ _).mpr (by decide),
    fun e => (pointers_address.2.2.1 .responses "a/b~01" (by decide)).2.2 oddDocument e (by decide),
    htoken, pointers_address.2.2.2 _ htoken⟩

end ApiClient

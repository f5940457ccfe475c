import ApiClient.Proofs.Tokens

/-! The grammar of types. Brackets behind a type bind tightest, then `keyof`, then `&`, then `|`. A machine
with a stack of open brackets follows every derivation, so that no text is read in two ways. -/

namespace ApiClient.TypeScript

/-- A type as it is written, without its parentheses. -/
inductive Phrase where
  | word (w : String)
  | query (name : String)
  | keys (p : Phrase)
  | array (items : Phrase)
  | index (p key : Phrase)
  | object (members : List (FieldKey × Phrase))
  | map (values : Phrase)
  | union (alternatives : List Phrase)
  | intersection (parts : List Phrase)

/-- What may stand in a place of a type, from the tightest kind to the loosest. -/
inductive Level where
  | operand | operator | intersection | union

/-- The words that make types of others. -/
def operators : List String := ["keyof", "typeof"]

def optionalTokens (optional : Bool) : List Token := if optional then [.mark '?'] else []

mutual

inductive Derives : Level → List Token → Phrase → Prop
  | word {w : String} : w ∉ operators → Derives .operand [.word w] (.word w)
  | query {name : String} :
    name ∉ operators → Derives .operand [.word "typeof", .word name] (.query name)
  | parens {ts : List Token} {p : Phrase} :
    Derives .union ts p → Derives .operand (.mark '(' :: ts ++ [.mark ')']) p
  | array {ts : List Token} {p : Phrase} :
    Derives .operand ts p → Derives .operand (ts ++ [.mark '[', .mark ']']) (.array p)
  | index {ts us : List Token} {p key : Phrase} :
    Derives .operand ts p → Derives .union us key →
      Derives .operand (ts ++ .mark '[' :: us ++ [.mark ']']) (.index p key)
  | object {ts : List Token} {ms : List (FieldKey × Phrase)} :
    Members ts ms → Derives .operand (.mark '{' :: ts ++ [.mark '}']) (.object ms)
  | map {key : String} {ts : List Token} {p : Phrase} :
    Derives .union ts p →
      Derives .operand ([.mark '{', .mark '[', .word key, .mark ':', .word "string", .mark ']',
        .mark ':'] ++ ts ++ [.mark '}']) (.map p)
  | operand {ts : List Token} {p : Phrase} : Derives .operand ts p → Derives .operator ts p
  | keys {ts : List Token} {p : Phrase} :
    Derives .operator ts p → Derives .operator (.word "keyof" :: ts) (.keys p)
  | operator {ts : List Token} {p : Phrase} :
    Derives .operator ts p → Derives .intersection ts p
  | parts {ts : List Token} {ps : List Phrase} :
    Parts ts ps → 2 ≤ ps.length → Derives .intersection ts (.intersection ps)
  | intersection {ts : List Token} {p : Phrase} :
    Derives .intersection ts p → Derives .union ts p
  | alternatives {ts : List Token} {ps : List Phrase} :
    Alternatives ts ps → 2 ≤ ps.length → Derives .union ts (.union ps)

inductive Parts : List Token → List Phrase → Prop
  | one {ts : List Token} {p : Phrase} : Derives .operator ts p → Parts ts [p]
  | more {ts us : List Token} {p : Phrase} {ps : List Phrase} :
    Derives .operator ts p → Parts us ps → Parts (ts ++ .mark '&' :: us) (p :: ps)

inductive Alternatives : List Token → List Phrase → Prop
  | one {ts : List Token} {p : Phrase} : Derives .intersection ts p → Alternatives ts [p]
  | more {ts us : List Token} {p : Phrase} {ps : List Phrase} :
    Derives .intersection ts p → Alternatives us ps → Alternatives (ts ++ .mark '|' :: us) (p :: ps)

inductive Members : List Token → List (FieldKey × Phrase) → Prop
  | nil : Members [] []
  | cons {key : FieldKey} {ts us : List Token} {p : Phrase} {ms : List (FieldKey × Phrase)} :
    Derives .union ts p → Members us ms →
      Members (.literal key.name :: optionalTokens key.optional ++ .mark ':' :: ts ++
        .mark ';' :: us) ((key, p) :: ms)

end

/-- A text that is a type. -/
def Reads (text : String) (p : Phrase) : Prop := Derives .union (tokens text) p

/-! ### The machine -/

/-- One phrase stands for itself. -/
def Phrase.joined (combine : List Phrase → Phrase) : List Phrase → Phrase
  | [p] => p
  | ps => combine ps

theorem Phrase.joined_of_two_le {combine : List Phrase → Phrase} {ps : List Phrase}
    (h : 2 ≤ ps.length) : joined combine ps = combine ps := by
  match ps, h with
  | _ :: _ :: _, _ => rfl

/-- A type of which a part has been read: its finished alternatives, the finished parts of the next one,
and an operand with the `keyof`s before it. -/
structure Pending where
  alternatives : List Phrase := []
  parts : List Phrase := []
  keyofs : Nat := 0
  operand : Option Phrase := none

namespace Pending

def part? (f : Pending) : Option Phrase := f.operand.map (Phrase.keys^[f.keyofs])

def alternative? (f : Pending) : Option Phrase :=
  f.part?.map fun p => .joined .intersection (f.parts ++ [p])

def phrase? (f : Pending) : Option Phrase :=
  f.alternative?.map fun p => .joined .union (f.alternatives ++ [p])

/-- Behind an ampersand. -/
def nextPart (f : Pending) : Pending :=
  { f with parts := f.parts ++ f.part?.toList, keyofs := 0, operand := none }

/-- Behind a bar. -/
def nextAlternative (f : Pending) : Pending :=
  { alternatives := f.alternatives ++ f.alternative?.toList }

end Pending

/-- What a bracket was opened for. -/
inductive Opening where
  | parens
  | index (p : Phrase)
  | map
  | member (seen : List (FieldKey × Phrase)) (key : FieldKey)

/-- What comes next: more of a type, the name of a query, a member of an object or what follows its name,
or the rest of the head of a map, which is closed or not. -/
inductive Control where
  | type (f : Pending)
  | query (f : Pending)
  | members (f : Pending) (seen : List (FieldKey × Phrase))
  | key (f : Pending) (seen : List (FieldKey × Phrase)) (key : FieldKey)
  | head (f : Pending) (closed : Bool)

/-- The open brackets, each with what was read before it. -/
abbrev Machine := List (Opening × Pending) × Control

namespace Machine

/-- The operand of a type is complete. -/
def put (stack : List (Opening × Pending)) (f : Pending) (p : Phrase) : Machine :=
  (stack, .type { f with operand := some p })

/-- A closing bracket, with the type that stands before it. -/
def close : List (Opening × Pending) → Option Phrase → Machine
  | (.parens, f) :: stack, some p => put stack f p
  | (.index p, f) :: stack, some key => put stack f (.index p key)
  | (.index p, f) :: stack, none => put stack f (.array p)
  | (.map, f) :: stack, some p => put stack f (.map p)
  | (.member seen key, f) :: stack, some p => (stack, .members f (seen ++ [(key, p)]))
  | stack, _ => (stack, .type {})

/-- One token. What happens where no type goes on with the token does not matter. -/
def step : Machine → Token → Machine
  | (stack, .type f), .word w =>
    if w = "keyof" then (stack, .type { f with keyofs := f.keyofs + 1 })
    else if w = "typeof" then (stack, .query f)
    else put stack f (.word w)
  | (stack, .query f), .word name => put stack f (.query name)
  | (stack, .type f), .mark c =>
    if c = '(' then ((.parens, f) :: stack, .type {})
    else if c = '[' then
      match f.operand with
      | some p => ((.index p, f) :: stack, .type {})
      | none => (stack, .type f)
    else if c = '{' then (stack, .members f [])
    else if c = '&' then (stack, .type f.nextPart)
    else if c = '|' then (stack, .type f.nextAlternative)
    else close stack f.phrase?
  | (stack, .members f seen), .mark c =>
    if c = '[' then (stack, .head f false) else put stack f (.object seen)
  | (stack, .members f seen), .literal name => (stack, .key f seen ⟨name, false⟩)
  | (stack, .key f seen key), .mark c =>
    if c = '?' then (stack, .key f seen { key with optional := true })
    else ((.member seen key, f) :: stack, .type {})
  | (stack, .head f closed), .mark c =>
    if c = ']' then (stack, .head f true)
    else if closed then ((.map, f) :: stack, .type {})
    else (stack, .head f closed)
  | s, _ => s

/-- How the machine comes through a phrase of each level. -/
def Follows : Level → List Token → Phrase → Prop
  | .operand, ts, p => ∀ stack (f : Pending), f.operand = none →
    ts.foldl step (stack, .type f) = put stack f p
  | .operator, ts, p => ∀ stack (f : Pending), f.operand = none →
    ∃ z : Pending, ts.foldl step (stack, .type f) = (stack, .type z) ∧
      z.alternatives = f.alternatives ∧ z.parts = f.parts ∧ z.part? = some (Phrase.keys^[f.keyofs] p)
  | .intersection, ts, p => ∀ stack alternatives,
    ∃ z : Pending, ts.foldl step (stack, .type { alternatives }) = (stack, .type z) ∧
      z.alternatives = alternatives ∧ z.alternative? = some p
  | .union, ts, p => ∀ stack,
    ∃ z : Pending, ts.foldl step (stack, .type {}) = (stack, .type z) ∧ z.phrase? = some p

def FollowsParts (ts : List Token) (ps : List Phrase) : Prop := ∀ stack alternatives parts,
  ∃ (z : Pending) (p : Phrase),
    ts.foldl step (stack, .type { alternatives, parts }) = (stack, .type z) ∧
      z.alternatives = alternatives ∧ z.part? = some p ∧ z.parts ++ [p] = parts ++ ps

def FollowsAlternatives (ts : List Token) (ps : List Phrase) : Prop := ∀ stack alternatives,
  ∃ (z : Pending) (p : Phrase), ts.foldl step (stack, .type { alternatives }) = (stack, .type z) ∧
    z.alternative? = some p ∧ z.alternatives ++ [p] = alternatives ++ ps

def FollowsMembers (ts : List Token) (ms : List (FieldKey × Phrase)) : Prop := ∀ stack f seen,
  ts.foldl step (stack, .members f seen) = (stack, .members f (seen ++ ms))

mutual

theorem follows {l : Level} {ts : List Token} {p : Phrase} : Derives l ts p → Follows l ts p
  | .word hw => fun stack f hf => by
    simp only [operators, List.mem_cons, List.not_mem_nil, or_false, not_or] at hw
    simp [step, hw]
  | .query hname => fun stack f hf => by simp [step]
  | .parens h => fun stack f hf => by
    obtain ⟨z, hz, hp⟩ := follows h ((.parens, f) :: stack)
    simp [List.foldl_append, step, hz, hp, close]
  | .array h => fun stack f hf => by
    simp [List.foldl_append, follows h stack f hf, step, put, close, Pending.phrase?,
      Pending.alternative?, Pending.part?]
  | @Derives.index _ _ p _ h hkey => fun stack f hf => by
    obtain ⟨z, hz, hp⟩ := follows hkey ((.index p, { f with operand := some p }) :: stack)
    simp [List.foldl_append, follows h stack f hf, step, put, close, hz, hp]
  | .object h => fun stack f hf => by
    simp [List.foldl_append, step, followsMembers h stack f []]
  | .map h => fun stack f hf => by
    obtain ⟨z, hz, hp⟩ := follows h ((.map, f) :: stack)
    simp [List.foldl_append, step, hz, hp, close]
  | .operand h => fun stack f hf =>
    ⟨_, follows h stack f hf, rfl, rfl, rfl⟩
  | .keys h => fun stack f hf => by
    obtain ⟨z, hz, halternatives, hparts, hp⟩ := follows h stack { f with keyofs := f.keyofs + 1 } hf
    exact ⟨z, by simpa [step] using hz, halternatives, hparts, hp⟩
  | .operator h => fun stack alternatives => by
    obtain ⟨z, hz, halternatives, hparts, hp⟩ := follows h stack { alternatives } rfl
    exact ⟨z, hz, halternatives, by simp [Pending.alternative?, hp, hparts, Phrase.joined]⟩
  | .parts h hlength => fun stack alternatives => by
    obtain ⟨z, p, hz, halternatives, hp, rfl⟩ := followsParts h stack alternatives []
    exact ⟨z, hz, halternatives, by rw [Pending.alternative?, hp, Option.map_some,
      Phrase.joined_of_two_le hlength]⟩
  | .intersection h => fun stack => by
    obtain ⟨z, hz, halternatives, hp⟩ := follows h stack []
    exact ⟨z, hz, by simp [Pending.phrase?, hp, halternatives, Phrase.joined]⟩
  | .alternatives h hlength => fun stack => by
    obtain ⟨z, p, hz, hp, rfl⟩ := followsAlternatives h stack []
    exact ⟨z, hz, by rw [Pending.phrase?, hp, Option.map_some, Phrase.joined_of_two_le hlength]⟩

theorem followsParts {ts : List Token} {ps : List Phrase} : Parts ts ps → FollowsParts ts ps
  | .one h => fun stack alternatives parts => by
    obtain ⟨z, hz, halternatives, hparts, hp⟩ := follows h stack { alternatives, parts } rfl
    exact ⟨z, _, hz, halternatives, hp, by simp [hparts]⟩
  | .more h hps => fun stack alternatives parts => by
    obtain ⟨y, hy, rfl, rfl, hp⟩ := follows h stack { alternatives, parts } rfl
    obtain ⟨z, q, hz, halternatives, hq, hparts⟩ := followsParts hps stack y.alternatives
      (y.parts ++ y.part?.toList)
    exact ⟨z, q, by simp [List.foldl_append, hy, step, Pending.nextPart, hz], halternatives, hq,
      by simp [hparts, hp]⟩

theorem followsAlternatives {ts : List Token} {ps : List Phrase} :
    Alternatives ts ps → FollowsAlternatives ts ps
  | .one h => fun stack alternatives => by
    obtain ⟨z, hz, rfl, hp⟩ := follows h stack alternatives
    exact ⟨z, _, hz, hp, rfl⟩
  | .more h hps => fun stack alternatives => by
    obtain ⟨y, hy, rfl, hp⟩ := follows h stack alternatives
    obtain ⟨z, q, hz, hq, halternatives⟩ := followsAlternatives hps stack
      (y.alternatives ++ y.alternative?.toList)
    exact ⟨z, q, by simp [List.foldl_append, hy, step, Pending.nextAlternative, hz], hq,
      by simp [halternatives, hp]⟩

theorem followsMembers {ts : List Token} {ms : List (FieldKey × Phrase)} :
    Members ts ms → FollowsMembers ts ms
  | .nil => fun stack f seen => by simp
  | @Members.cons key ts us p ms h hms => fun stack f seen => by
    obtain ⟨z, hz, hp⟩ := follows h ((.member seen key, f) :: stack)
    have hkey : (optionalTokens key.optional).foldl step (stack, .key f seen ⟨key.name, false⟩) =
        (stack, .key f seen key) := by
      obtain ⟨name, optional⟩ := key
      cases optional <;> rfl
    simp [List.foldl_append, step, hkey, hz, hp, close, followsMembers hms stack f]

end

end Machine

/-- No tokens are a type in two ways. -/
theorem Derives.unique {ts : List Token} {p q : Phrase} (hp : Derives .union ts p)
    (hq : Derives .union ts q) : p = q := by
  obtain ⟨y, hy, hp⟩ := Machine.follows hp []
  obtain ⟨z, hz, hq⟩ := Machine.follows hq []
  obtain rfl : y = z := by simpa using hy.symm.trans hz
  exact Option.some.inj (hp.symm.trans hq)

end ApiClient.TypeScript

import ApiClient.Decimal.Literal
import ApiClient.Json.Printer
import ApiClient.Proofs.Rounding

/-! The texts of numbers. The text of a number reads as the value of its digits, and so tells the number. -/

namespace ApiClient

namespace Decimal

/-- All characters are digits. -/
def Digits (cs : List Char) : Prop := ∀ c ∈ cs, c.isDigit = true

def Literal.magnitude (l : Literal) : ℚ := l.digits * 10 ^ l.exponent

def minus (negative : Bool) : List Char := if negative then ['-'] else []

theorem digits_toDigits (n : Nat) : Digits (Nat.toDigits 10 n) := fun _ =>
  Nat.isDigit_of_mem_toDigits (by decide) (by decide)

theorem digits_replicate (n : Nat) : Digits (List.replicate n '0') := by
  intro c hc
  rw [List.eq_of_mem_replicate hc]
  rfl

theorem value_eq (cs : List Char) : value cs = Nat.ofDigitChars 10 cs 0 := by
  rw [Nat.ofDigitChars_eq_foldl]
  rfl

theorem value_toDigits (n : Nat) : value (Nat.toDigits 10 n) = n := by
  rw [value_eq, Nat.ofDigitChars_ten_toDigits]

theorem value_append (as bs : List Char) : value (as ++ bs) = value as * 10 ^ bs.length + value bs := by
  rw [value_eq, value_eq, value_eq, Nat.ofDigitChars_append, Nat.ofDigitChars_eq_ofDigitChars_zero]
  ring

theorem value_replicate (n : Nat) : value (List.replicate n '0') = 0 := by
  rw [value_eq, Nat.ofDigitChars_replicate_zero, mul_zero]

/-! ### Literals read from the left -/

variable {whole fraction rest : List Char} {e : Int}

theorem sign_minus (negative : Bool) (h : Digits whole) (hne : whole ≠ []) (rest : List Char) :
    sign (minus negative ++ (whole ++ rest)) = (negative, whole ++ rest) := by
  cases negative with
  | true => rfl
  | false =>
    obtain ⟨c, cs, rfl⟩ := List.exists_cons_of_ne_nil hne
    have hc := h c List.mem_cons_self
    have hminus : c ≠ '-' := by
      rintro rfl
      exact absurd hc (by decide)
    have hplus : c ≠ '+' := by
      rintro rfl
      exact absurd hc (by decide)
    simp [minus, sign, hminus, hplus]

theorem takeWhile_digits (h : Digits whole) (hrest : ∀ c ∈ rest.head?, c.isDigit = false) :
    (whole ++ rest).takeWhile Char.isDigit = whole ∧ (whole ++ rest).dropWhile Char.isDigit = rest := by
  rw [List.takeWhile_append_of_pos h, List.dropWhile_append_of_pos h]
  cases rest with
  | nil => simp
  | cons c rest => simp [hrest c rfl]

/-- What may follow the digits of a number. -/
def Tail (rest : List Char) : Prop := ∀ c ∈ rest.head?, c.isDigit = false ∧ c ≠ '.'

theorem literal?_whole (negative : Bool) (hwhole : Digits whole) (hne : whole ≠ []) (hrest : Tail rest)
    (he : exponent? rest = some e) :
    literal? (minus negative ++ (whole ++ rest)) = some ⟨negative, value whole, e⟩ := by
  obtain ⟨htake, hdrop⟩ := takeWhile_digits hwhole fun c hc => (hrest c hc).1
  rw [literal?, sign_minus negative hwhole hne]
  simp only [htake, hdrop]
  split
  · rename_i cs
    exact absurd rfl (hrest '.' rfl).2
  · simp [hne, he]

theorem literal?_point (negative : Bool) (hwhole : Digits whole) (hne : whole ≠ [])
    (hfraction : Digits fraction) (hrest : Tail rest) (he : exponent? rest = some e) :
    literal? (minus negative ++ (whole ++ '.' :: (fraction ++ rest))) =
      some ⟨negative, value (whole ++ fraction), e - fraction.length⟩ := by
  have hpoint : ∀ c ∈ ('.' :: (fraction ++ rest)).head?, c.isDigit = false := by
    rintro _ ⟨⟩
    rfl
  obtain ⟨htake, hdrop⟩ := takeWhile_digits hwhole hpoint
  obtain ⟨htake', hdrop'⟩ := takeWhile_digits hfraction fun c hc => (hrest c hc).1
  rw [literal?, sign_minus negative hwhole hne]
  simp only [htake, hdrop, htake', hdrop']
  simp [hne, he]

theorem tail_nil : Tail [] := fun _ h => nomatch h

theorem exponent?_nil : exponent? [] = some 0 := rfl

/-- A power of ten as it is written behind digits. -/
theorem exponent?_power (e : Int) :
    Tail ('e' :: (if e < 0 then '-' else '+') :: Nat.toDigits 10 e.natAbs) ∧
      exponent? ('e' :: (if e < 0 then '-' else '+') :: Nat.toDigits 10 e.natAbs) = some e := by
  refine ⟨by rintro _ ⟨⟩; decide, ?_⟩
  have hne : Nat.toDigits 10 e.natAbs ≠ [] := Nat.toDigits_ne_nil
  have hall : (Nat.toDigits 10 e.natAbs).all Char.isDigit = true :=
    List.all_eq_true.mpr (digits_toDigits _)
  split_ifs with hneg
  · simp [exponent?, sign, hne, hall, value_toDigits, abs_of_neg hneg]
  · simp [exponent?, sign, hne, hall, value_toDigits, abs_of_nonneg (not_lt.mp hneg)]

/-- The text is a number with this sign and this magnitude. -/
def Reads (cs : List Char) (negative : Bool) (q : ℚ) : Prop :=
  ∃ l, literal? cs = some l ∧ l.negative = negative ∧ l.magnitude = q

theorem Reads.unique {cs : List Char} {b b' : Bool} {q q' : ℚ} (h : Reads cs b q)
    (h' : Reads cs b' q') : b = b' ∧ q = q' := by
  obtain ⟨l, hl, rfl, rfl⟩ := h
  obtain ⟨l', hl', rfl, rfl⟩ := h'
  obtain rfl : l = l' := Option.some.inj (hl.symm.trans hl')
  exact ⟨rfl, rfl⟩

theorem reads_whole (negative : Bool) (hwhole : Digits whole) (hne : whole ≠ []) (hrest : Tail rest)
    (he : exponent? rest = some e) :
    Reads (minus negative ++ (whole ++ rest)) negative (value whole * 10 ^ e) :=
  ⟨_, literal?_whole negative hwhole hne hrest he, rfl, rfl⟩

theorem reads_point (negative : Bool) (hwhole : Digits whole) (hne : whole ≠ [])
    (hfraction : Digits fraction) (hrest : Tail rest) (he : exponent? rest = some e) :
    Reads (minus negative ++ (whole ++ '.' :: (fraction ++ rest))) negative
      (value (whole ++ fraction) * 10 ^ (e - fraction.length)) :=
  ⟨_, literal?_point negative hwhole hne hfraction hrest he, rfl, rfl⟩

section

variable {ds : List Char} (negative : Bool) (h : Digits ds)
include h

/-- A whole number with one decimal. -/
theorem reads_padded (hne : ds ≠ []) (n : Nat) :
    Reads (minus negative ++ (ds ++ (List.replicate n '0' ++ ['.', '0']))) negative
      (value ds * 10 ^ (n : Int)) := by
  have hwhole : Digits (ds ++ List.replicate n '0') :=
    fun c hc => (List.mem_append.mp hc).elim (h c) (digits_replicate n c)
  have hread := reads_point negative hwhole (by simp [hne]) (digits_replicate 1) tail_nil exponent?_nil
  have hvalue : ((value (ds ++ List.replicate n '0' ++ List.replicate 1 '0') : Nat) *
      10 ^ (0 - ((List.replicate 1 '0').length : Int)) : ℚ) = value ds * 10 ^ (n : Int) := by
    rw [value_append, value_append, value_replicate, value_replicate]
    simp
  rw [hvalue] at hread
  simpa using hread

/-- Digits with a point between them. -/
theorem reads_cut {n : Nat} (hn : n < ds.length) :
    Reads (minus negative ++ (ds.take (n + 1) ++ '.' :: ds.drop (n + 1))) negative
      (value ds * 10 ^ (n + 1 - ds.length : Int)) := by
  have hwhole : Digits (ds.take (n + 1)) := fun c hc => h c (List.mem_of_mem_take hc)
  have hfraction : Digits (ds.drop (n + 1)) := fun c hc => h c (List.mem_of_mem_drop hc)
  have hne : ds.take (n + 1) ≠ [] := by
    rw [← List.length_pos_iff, List.length_take]
    omega
  have hread := reads_point negative hwhole hne hfraction tail_nil exponent?_nil
  have hplaces : 0 - ((ds.drop (n + 1)).length : Int) = n + 1 - ds.length := by
    rw [List.length_drop]
    omega
  rw [hplaces, List.take_append_drop] at hread
  simpa using hread

/-- Digits behind the point and some zeros. -/
theorem reads_small (n : Nat) :
    Reads (minus negative ++ '0' :: '.' :: (List.replicate n '0' ++ ds)) negative
      (value ds * 10 ^ (-(n + ds.length) : Int)) := by
  have hfraction : Digits (List.replicate n '0' ++ ds) :=
    fun c hc => (List.mem_append.mp hc).elim (digits_replicate n c) (h c)
  have hread := reads_point negative (digits_replicate 1) (List.cons_ne_nil '0' []) hfraction tail_nil
    exponent?_nil
  have hvalue : value (List.replicate 1 '0' ++ (List.replicate n '0' ++ ds)) = value ds := by
    rw [value_append, value_append, value_replicate, value_replicate]
    simp
  rw [hvalue] at hread
  simpa using hread

/-- Digits in front of the point, and a power of ten that makes up for the places behind it. -/
theorem reads_mantissa (hne : ds ≠ []) (k : Int) :
    Reads (minus negative ++ ((match ds with
      | [] => []
      | [c] => [c]
      | c :: cs => c :: '.' :: cs) ++
        'e' :: (if k + ds.length - 1 < 0 then '-' else '+') ::
          Nat.toDigits 10 (k + ds.length - 1).natAbs)) negative (value ds * 10 ^ k) := by
  obtain ⟨htail, he⟩ := exponent?_power (k + ds.length - 1)
  match ds, h, hne with
  | [c], h, hne =>
    have hread := reads_whole negative h hne htail he
    simpa using hread
  | c :: b :: cs, h, _ =>
    have hread := reads_point negative (List.forall_mem_singleton.mpr (h c List.mem_cons_self))
      (List.cons_ne_nil c []) (fun x hx => h x (List.mem_cons_of_mem c hx)) htail he
    have hplaces : k + ((c :: b :: cs).length : Int) - 1 - ((b :: cs).length : Int) = k := by
      simp only [List.length_cons]
      omega
    rw [hplaces] at hread
    simpa using hread

end

/-- The text of a number reads as its sign and the value of its digits. -/
theorem reads_floatText (x : Binary64) :
    Reads (Json.floatText x).toList x.negative (if x.isZero then 0 else digitsValue x) := by
  have hsign : (if x.negative then "-" else "").toList = minus x.negative := by
    rw [minus]
    split_ifs <;> rfl
  rw [digitsValue]
  simp only [Json.floatText]
  generalize (if x.negative then "-" else "") = sign at hsign ⊢
  obtain ⟨d, k⟩ := shortest x
  have hdigits := digits_toDigits d
  have hne : Nat.toDigits 10 d ≠ [] := Nat.toDigits_ne_nil
  have hvalue := value_toDigits d
  have htext : toString d = String.ofList (Nat.toDigits 10 d) := Nat.toString_eq_ofList_toDigits
  simp only [htext, String.length_ofList, String.toList_ofList]
  generalize Nat.toDigits 10 d = ds at *
  split_ifs with hzero hplain hk he hneg
  · have hread := reads_padded x.negative (digits_replicate 1) (List.cons_ne_nil '0' []) 0
    rw [value_replicate] at hread
    simpa [hsign] using hread
  · obtain ⟨n, rfl⟩ := Int.eq_ofNat_of_zero_le hk
    have hread := reads_padded x.negative hdigits hne n
    rw [hvalue] at hread
    simpa [hsign] using hread
  · have hread := reads_cut x.negative hdigits (n := (k + ds.length - 1).natAbs) (by omega)
    have hplaces : ((k + ds.length - 1).natAbs + 1 - ds.length : Int) = k := by omega
    rw [hvalue, hplaces] at hread
    simpa [hsign] using hread
  · have hread := reads_small x.negative hdigits ((k + ds.length - 1).natAbs - 1)
    have hplaces : (-(((k + ds.length - 1).natAbs - 1 : Nat) + ds.length) : Int) = k := by omega
    rw [hvalue, hplaces] at hread
    simpa [hsign] using hread
  all_goals
    have hread := reads_mantissa x.negative hdigits hne k
    simp only [hvalue, hneg, if_true, if_false] at hread
    rcases ds with _ | ⟨c, _ | ⟨b, cs⟩⟩
    · exact absurd rfl hne
    · simpa [hsign, Nat.toString_eq_ofList_toDigits] using hread
    · simpa [hsign, Nat.toString_eq_ofList_toDigits] using hread

/-- Numbers in normal form with one text are one number. -/
theorem floatText_injective {x y : Binary64} (hx : x.Normal) (hy : y.Normal)
    (h : Json.floatText x = Json.floatText y) : x = y := by
  have hread := reads_floatText y
  rw [← h] at hread
  obtain ⟨hsign, hvalue⟩ := (reads_floatText x).unique hread
  have hmagnitude : x.exponent = y.exponent ∧ x.significand = y.significand := by
    have hzero {z : Binary64} (hz : z.Normal) (h : z.significand = 0) : z.exponent = -1074 :=
      hz.full.resolve_right (by rw [h]; norm_num)
    simp only [Binary64.isZero, beq_iff_eq] at hvalue
    split_ifs at hvalue with hx0 hy0 hy0
    · rw [hzero hx hx0, hzero hy hy0, hx0, hy0]
      exact ⟨rfl, rfl⟩
    · exact absurd hvalue (digitsValue_pos hy hy0).ne
    · exact absurd hvalue (digitsValue_pos hx hx0).ne'
    · exact eq_of_digitsValue_eq hx hy hx0 hy0 hvalue
  obtain ⟨nx, mx, ex⟩ := x
  obtain ⟨ny, my, ey⟩ := y
  obtain ⟨rfl, rfl⟩ := hmagnitude
  simp only at hsign
  rw [hsign]

theorem exists_mark_floatText (x : Binary64) : ∃ c ∈ (Json.floatText x).toList, c = '.' ∨ c = 'e' := by
  simp only [Json.floatText]
  split_ifs <;> simp [or_and_right, exists_or]

/-! ### Whole numbers -/

theorem toList_int (n : Int) :
    (toString n).toList = minus (decide (n < 0)) ++ Nat.toDigits 10 n.natAbs := by
  cases n with
  | ofNat n =>
    have htext : toString (Int.ofNat n) = toString n := rfl
    have hpos : ¬ Int.ofNat n < 0 := Int.not_ofNat_neg n
    rw [htext, Nat.toString_eq_ofList_toDigits, minus, decide_eq_false hpos]
    simp
  | negSucc n =>
    have htext : toString (Int.negSucc n) = "-" ++ toString (n + 1) := rfl
    have hneg : Int.negSucc n < 0 := Int.negSucc_lt_zero n
    rw [htext, Nat.toString_eq_ofList_toDigits, minus, decide_eq_true hneg]
    simp

theorem reads_int (n : Int) : Reads (toString n).toList (decide (n < 0)) n.natAbs := by
  have hread := reads_whole (decide (n < 0)) (digits_toDigits n.natAbs) Nat.toDigits_ne_nil tail_nil
    exponent?_nil
  rw [value_toDigits] at hread
  simpa only [toList_int, List.append_nil, zpow_zero, mul_one] using hread

theorem int_ne_floatText (n : Int) (x : Binary64) : toString n ≠ Json.floatText x := by
  intro h
  obtain ⟨c, hc, hmark⟩ := exists_mark_floatText x
  rw [← h, toList_int, List.mem_append] at hc
  rcases hc with hc | hc
  · obtain rfl : c = '-' := by
      rw [minus] at hc
      split_ifs at hc <;> simp_all
    exact absurd hmark (by decide)
  · have hdigit := digits_toDigits _ c hc
    rcases hmark with rfl | rfl
    · exact absurd hdigit (by decide)
    · exact absurd hdigit (by decide)

end Decimal

namespace Json

mutual

/-- All numbers in the value are in normal form. -/
def Normal : Json → Prop
  | .float x => x.Normal
  | .arr items => AllNormal items
  | .obj fs => FieldsNormal fs
  | _ => True

def AllNormal : List Json → Prop
  | [] => True
  | v :: vs => v.Normal ∧ AllNormal vs

def FieldsNormal : List (String × Json) → Prop
  | [] => True
  | (_, v) :: fs => v.Normal ∧ FieldsNormal fs

end

end Json

end ApiClient

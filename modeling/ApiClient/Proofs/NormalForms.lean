import ApiClient.Json.Reader
import ApiClient.Proofs.NumberTexts
import ApiClient.Yaml.Core

/-! Numbers are read in normal form: rounding gives the normal form, and the numbers of a text are results
of rounding. -/

namespace ApiClient

namespace Binary64

theorem nearestNat_bounds {num den : Nat} : num / den ≤ nearestNat num den ∧
    nearestNat num den ≤ num / den + 1 := by
  rw [nearestNat]
  split_ifs <;> omega

/-- A fraction lies within a factor of two of the power that the lengths of its parts give. -/
theorem ratio_bounds {num den : Nat} (hnum : num ≠ 0) (hden : den ≠ 0) :
    (2 : ℚ) ^ ((Nat.log2 num : Int) - Nat.log2 den - 1) ≤ num / den ∧
      (num / den : ℚ) < 2 ^ ((Nat.log2 num : Int) - Nat.log2 den + 1) := by
  have hd : (0 : ℚ) < den := by exact_mod_cast Nat.pos_of_ne_zero hden
  have hlow : (2 : ℚ) ^ Nat.log2 num ≤ num := by exact_mod_cast Nat.log2_self_le hnum
  have hhigh : (num : ℚ) < 2 ^ (Nat.log2 num + 1) := by exact_mod_cast Nat.lt_log2_self
  have hlow' : (2 : ℚ) ^ Nat.log2 den ≤ den := by exact_mod_cast Nat.log2_self_le hden
  have hhigh' : (den : ℚ) < 2 ^ (Nat.log2 den + 1) := by exact_mod_cast Nat.lt_log2_self
  constructor
  · rw [le_div_iff₀ hd]
    calc (2 : ℚ) ^ ((Nat.log2 num : Int) - Nat.log2 den - 1) * den
        ≤ 2 ^ ((Nat.log2 num : Int) - Nat.log2 den - 1) * 2 ^ (Nat.log2 den + 1) := by gcongr
      _ = 2 ^ Nat.log2 num := by
        rw [← zpow_natCast, ← zpow_natCast, ← zpow_add₀ two_ne_zero]
        congr 1
        push_cast
        ring
      _ ≤ num := hlow
  · rw [div_lt_iff₀ hd]
    calc (num : ℚ) < 2 ^ (Nat.log2 num + 1) := hhigh
      _ = 2 ^ ((Nat.log2 num : Int) - Nat.log2 den + 1) * 2 ^ Nat.log2 den := by
        rw [← zpow_natCast, ← zpow_natCast, ← zpow_add₀ two_ne_zero]
        congr 1
        push_cast
        ring
      _ ≤ _ := by gcongr

theorem scaledBy_den_pos {den : Nat} (h : 0 < den) (num : Nat) (q : Int) : 0 < (scaledBy num den q).2 := by
  rw [scaledBy]
  split_ifs
  · exact h
  · exact Nat.mul_pos h (Nat.pow_pos (by decide))

/-- The whole part of a scaled fraction against a power of two. -/
theorem le_scaledBy_div_iff (num : Nat) {den : Nat} (h : den ≠ 0) (k : Nat) (q : Int) :
    2 ^ k ≤ (scaledBy num den q).1 / (scaledBy num den q).2 ↔ (2 : ℚ) ^ (k + q) ≤ num / den := by
  have hpos := scaledBy_den_pos (Nat.pos_of_ne_zero h) num q
  have hpos' : (0 : ℚ) < (scaledBy num den q).2 := by exact_mod_cast hpos
  have htwo : (0 : ℚ) < 2 ^ q := by positivity
  rw [Nat.le_div_iff_mul_le hpos, ← Nat.cast_le (α := ℚ), Nat.cast_mul, ← le_div_iff₀ hpos',
    ratio_scaledBy, zpow_neg, ← div_eq_mul_inv, le_div_iff₀ htwo, zpow_add₀ two_ne_zero, zpow_natCast,
    Nat.cast_pow, Nat.cast_ofNat]

/-- The exponent that leaves 53 bits before the point. -/
def binade (num den : Nat) : Int :=
  let low : Int := (Nat.log2 num : Int) - Nat.log2 den - 53
  if 2 ^ 53 ≤ (scaledBy num den low).1 / (scaledBy num den low).2 then low + 1 else low

theorem binade_bounds {num den : Nat} (hnum : num ≠ 0) (hden : den ≠ 0) :
    (2 : ℚ) ^ (52 + binade num den) ≤ num / den ∧ (num / den : ℚ) < 2 ^ (53 + binade num den) := by
  obtain ⟨hge, hlt⟩ := ratio_bounds hnum hden
  have hbound := le_scaledBy_div_iff num hden 53 (Nat.log2 num - Nat.log2 den - 53)
  rw [binade]
  split_ifs with hfull
  · refine ⟨le_of_eq_of_le ?_ (hbound.mp hfull), lt_of_lt_of_eq hlt ?_⟩ <;> congr 1 <;> push_cast <;> ring
  · refine ⟨le_of_eq_of_le ?_ hge, not_le.mp (mt hbound.mpr hfull)⟩
    congr 1
    ring

/-- The exponent and the significand of the rounded fraction, before the significand overflows. -/
def exponentOf (num den : Nat) : Int := max (binade num den) (-1074)

def significandOf (num den : Nat) : Nat :=
  nearestNat (scaledBy num den (exponentOf num den)).1 (scaledBy num den (exponentOf num den)).2

theorem significandOf_bounds {num den : Nat} (hnum : num ≠ 0) (hden : den ≠ 0) :
    significandOf num den ≤ 2 ^ 53 ∧ (exponentOf num den = -1074 ∨ 2 ^ 52 ≤ significandOf num den) := by
  obtain ⟨hge, hlt⟩ := binade_bounds hnum hden
  have hexponent : exponentOf num den = max (binade num den) (-1074) := rfl
  rw [significandOf]
  generalize exponentOf num den = q at hexponent ⊢
  obtain ⟨hfloor, hceil⟩ := @nearestNat_bounds (scaledBy num den q).1 (scaledBy num den q).2
  have hsmall : ¬ 2 ^ 53 ≤ (scaledBy num den q).1 / (scaledBy num den q).2 := by
    rw [le_scaledBy_div_iff num hden, not_le]
    exact hlt.trans_le (zpow_le_zpow_right₀ one_le_two (by push_cast; omega))
  refine ⟨by omega, ?_⟩
  by_cases hleast : q = -1074
  · exact .inl hleast
  · obtain rfl : q = binade num den := by omega
    exact .inr (((le_scaledBy_div_iff num hden 52 _).mpr hge).trans hfloor)

/-- A significand that is rounded up to 54 bits is halved. -/
def carried (m : Nat) (q : Int) : Nat × Int := if m = 2 ^ 53 then (2 ^ 52, q + 1) else (m, q)

theorem ofRatio_cases {negative : Bool} {num den : Nat} {x : Binary64} (hnum : num ≠ 0)
    (h : ofRatio negative num den = some x) :
    significandOf num den = 2 ^ 53 ∧ x = ⟨negative, 2 ^ 52, exponentOf num den + 1⟩ ∨
      significandOf num den ≠ 2 ^ 53 ∧ x = ⟨negative, significandOf num den, exponentOf num den⟩ := by
  have heq : ofRatio negative num den =
      if 971 < (carried (significandOf num den) (exponentOf num den)).2 then none
      else some ⟨negative, (carried (significandOf num den) (exponentOf num den)).1,
        (carried (significandOf num den) (exponentOf num den)).2⟩ := by
    rw [ofRatio, if_neg hnum]
    rfl
  rw [heq, carried] at h
  split_ifs at h with hfull
  · exact .inl ⟨hfull, (Option.some.inj h).symm⟩
  · exact .inr ⟨hfull, (Option.some.inj h).symm⟩

theorem zero_normal (negative : Bool) : (zero negative).Normal :=
  ⟨by norm_num [zero], le_rfl, .inl rfl⟩

/-- Rounding gives numbers in normal form. -/
theorem ofRatio_normal {negative : Bool} {num den : Nat} {x : Binary64} (hden : den ≠ 0)
    (h : ofRatio negative num den = some x) : x.Normal := by
  by_cases hnum : num = 0
  · rw [ofRatio, if_pos hnum] at h
    cases h
    exact zero_normal negative
  · obtain ⟨hsmall, hfull⟩ := significandOf_bounds hnum hden
    have hlowest : -1074 ≤ exponentOf num den := le_max_right _ _
    rcases ofRatio_cases hnum h with ⟨-, rfl⟩ | ⟨hne, rfl⟩
    · exact ⟨by norm_num, by dsimp only; omega, .inr le_rfl⟩
    · exact ⟨by dsimp only; omega, hlowest, hfull⟩

theorem significand_ne_zero {negative : Bool} {num den : Nat} {x : Binary64} (hden : den ≠ 0)
    (hle : den ≤ num) (h : ofRatio negative num den = some x) : x.significand ≠ 0 := by
  have hnum : num ≠ 0 := by omega
  obtain ⟨-, hlt⟩ := binade_bounds hnum hden
  have hone : (1 : ℚ) ≤ num / den := by
    rw [one_le_div (by exact_mod_cast Nat.pos_of_ne_zero hden)]
    exact_mod_cast hle
  have hbinade : 0 < 53 + binade num den := by
    rw [← zpow_lt_zpow_iff_right₀ (one_lt_two : (1 : ℚ) < 2), zpow_zero]
    exact hone.trans_lt hlt
  obtain ⟨-, hfull⟩ := significandOf_bounds hnum hden
  have hexponent : exponentOf num den ≠ -1074 := by
    rw [exponentOf]
    omega
  rcases ofRatio_cases hnum h with ⟨-, rfl⟩ | ⟨-, rfl⟩
  · norm_num
  · have hlarge := hfull.resolve_left hexponent
    dsimp only
    omega

theorem ratio_den_ne_zero (x : Binary64) : x.ratio.2 ≠ 0 :=
  (scaledBy_den_pos one_pos x.significand (-x.exponent)).ne'

theorem ratio_num_ne_zero {x : Binary64} (h : x.significand ≠ 0) : x.ratio.1 ≠ 0 := by
  rw [ratio, scaledBy]
  split_ifs
  · exact mul_ne_zero h (Nat.pow_pos (by decide)).ne'
  · exact h

variable {x y z : Binary64}

theorem times_normal (h : x.times y = some z) : z.Normal :=
  ofRatio_normal (mul_ne_zero x.ratio_den_ne_zero y.ratio_den_ne_zero) h

theorem dividedBy_normal (hy : y.significand ≠ 0) (h : x.dividedBy y = some z) : z.Normal :=
  ofRatio_normal (mul_ne_zero x.ratio_den_ne_zero (ratio_num_ne_zero hy)) h

theorem ofDecimal_normal {negative : Bool} {digits : Nat} {exponent : Int}
    (h : ofDecimal negative digits exponent = some x) : x.Normal := by
  rw [ofDecimal] at h
  split_ifs at h
  · cases h
    exact zero_normal negative
  · cases h
    exact zero_normal negative
  · exact ofRatio_normal (Nat.pow_pos (by decide)).ne' h
  · exact ofRatio_normal one_ne_zero h

end Binary64

namespace Json.Literal

theorem power_ne_zero {n : Nat} {power : Binary64}
    (h : Binary64.ofRatio false (Nat.pow 10 n) 1 = some power) : power.significand ≠ 0 :=
  Binary64.significand_ne_zero one_ne_zero (Nat.pow_pos (by decide)) h

theorem scale_normal {steps : Nat} {x y : Binary64} {e : Int} (hx : x.Normal)
    (h : scale steps x e = some y) : y.Normal := by
  fun_induction scale steps x e with
  | case1 =>
    obtain ⟨power, hpower, hy⟩ := Option.bind_eq_some_iff.mp h
    split_ifs at hy
    · exact Binary64.dividedBy_normal (power_ne_zero hpower) hy
    · exact Binary64.times_normal hy
  | case2 =>
    cases h
    exact hx
  | case3 => cases h
  | case4 =>
    cases h
    exact Binary64.zero_normal _
  | case5 _ _ _ _ _ steps ih =>
    obtain ⟨power, hpower, hy⟩ := Option.bind_eq_some_iff.mp h
    obtain ⟨z, hz, hrest⟩ := Option.bind_eq_some_iff.mp hy
    exact ih z (Binary64.dividedBy_normal (power_ne_zero hpower) hz) hrest

theorem toFloat_normal {l : Literal} {x : Binary64} (h : l.toFloat = some x) : x.Normal := by
  rw [toFloat] at h
  dsimp only at h
  split_ifs at h
  · cases h
    exact Binary64.zero_normal _
  · obtain ⟨y, hy, hx⟩ := Option.bind_eq_some_iff.mp h
    exact scale_normal (Binary64.ofRatio_normal one_ne_zero hy) hx

theorem toNumber_normal {l : Literal} {x : Binary64} (h : l.toNumber = some (.float x)) : x.Normal := by
  have hfloat (h : l.toFloat.map Number.float = some (.float x)) : x.Normal := by
    obtain ⟨y, hy, hyx⟩ := Option.map_eq_some_iff.mp h
    cases hyx
    exact toFloat_normal hy
  rw [toNumber] at h
  split at h
  · split_ifs at h
    · cases h
    · exact hfloat h
    · cases h
    · exact hfloat h
  · exact hfloat h

end Json.Literal

/-! ### Whole texts -/

mutual

/-- The numbers of a tree are in normal form. -/
def Tree.Normal : Tree → Prop
  | .float x => x.Normal
  | .seq items => Tree.AllNormal items
  | .map entries => Tree.EntriesNormal entries
  | _ => True

def Tree.AllNormal : List Tree → Prop
  | [] => True
  | t :: ts => t.Normal ∧ Tree.AllNormal ts

def Tree.EntriesNormal : List (Tree × Tree) → Prop
  | [] => True
  | (_, t) :: es => t.Normal ∧ Tree.EntriesNormal es

end

namespace Tree

theorem allNormal_iff {ts : List Tree} : AllNormal ts ↔ ∀ t ∈ ts, t.Normal := by
  induction ts with
  | nil => simp [AllNormal]
  | cons t ts ih => simp [AllNormal, ih]

theorem entriesNormal_iff {es : List (Tree × Tree)} : EntriesNormal es ↔ ∀ e ∈ es, e.2.Normal := by
  induction es with
  | nil => simp [EntriesNormal]
  | cons e es ih => simp [EntriesNormal, ih]

end Tree

namespace Json.Reader

theorem number?_normal {checked : Bool} {cs rest : List Char} {t : Tree}
    (h : number? checked cs = some (t, rest)) : t.Normal := by
  rw [number?] at h
  obtain ⟨⟨literal, rest'⟩, hread, h⟩ := Option.bind_eq_some_iff.mp h
  dsimp only at h
  split_ifs at h
  · obtain ⟨n, hn, h⟩ := Option.bind_eq_some_iff.mp h
    cases n with
    | float x =>
      cases h
      exact Literal.toNumber_normal hn
    | unsigned n | signed n =>
      cases h
      trivial
  · cases h
    trivial

mutual

/-- Every number that is read is in normal form. -/
theorem value?_normal (care : Care) (steps depth : Nat) (cs : List Char) {t : Tree} {rest : List Char}
    (h : value? care steps depth cs = some (t, rest)) : t.Normal := by
  cases steps with
  | zero => cases h
  | succ steps =>
    rw [value?] at h
    split at h
    · cases h
      trivial
    · cases h
      trivial
    · cases h
      trivial
    · obtain ⟨s, -, h⟩ := Option.bind_eq_some_iff.mp h
      cases h
      trivial
    · split_ifs at h
      split at h
      · cases h
        trivial
      · exact items?_normal care steps _ [] _ (by simp) h
    · split_ifs at h
      split at h
      · cases h
        trivial
      · exact members?_normal care steps _ [] _ (by simp) h
    · exact number?_normal h

theorem items?_normal (care : Care) (steps depth : Nat) (seen : List Tree) (cs : List Char) {t : Tree}
    {rest : List Char} (hseen : ∀ t ∈ seen, t.Normal)
    (h : items? care steps depth seen cs = some (t, rest)) : t.Normal := by
  cases steps with
  | zero => cases h
  | succ steps =>
    rw [items?] at h
    obtain ⟨⟨v, rest'⟩, hv, h⟩ := Option.bind_eq_some_iff.mp h
    have hall : ∀ t ∈ v :: seen, t.Normal :=
      List.forall_mem_cons.mpr ⟨value?_normal _ steps depth cs hv, hseen⟩
    dsimp only at h
    split at h
    · exact items?_normal care steps depth (v :: seen) _ hall h
    · cases h
      exact Tree.allNormal_iff.mpr fun t ht => hall t (List.mem_reverse.mp ht)
    · cases h

theorem members?_normal (care : Care) (steps depth : Nat) (seen : List (Tree × Tree)) (cs : List Char)
    {t : Tree} {rest : List Char} (hseen : ∀ e ∈ seen, e.2.Normal)
    (h : members? care steps depth seen cs = some (t, rest)) : t.Normal := by
  cases steps with
  | zero => cases h
  | succ steps =>
    rw [members?] at h
    obtain ⟨⟨k, afterKey⟩, -, h⟩ := Option.bind_eq_some_iff.mp h
    obtain ⟨⟨v, rest'⟩, hv, h⟩ := Option.bind_eq_some_iff.mp h
    have hall : ∀ e ∈ (.str k, v) :: seen, e.2.Normal :=
      List.forall_mem_cons.mpr ⟨value?_normal _ steps depth afterKey hv, hseen⟩
    dsimp only at h
    split at h
    · exact members?_normal care steps depth ((.str k, v) :: seen) _ hall h
    · cases h
      exact Tree.entriesNormal_iff.mpr fun e he => hall e (List.mem_reverse.mp he)
    · cases h

end

theorem tree?_normal {care : Care} {text : String} {t : Tree} (h : tree? care text = some t) : t.Normal := by
  obtain ⟨⟨v, rest⟩, hv, h⟩ := Option.bind_eq_some_iff.mp h
  dsimp only at h
  split at h
  · cases h
    exact value?_normal care _ _ _ hv
  · cases h

end Json.Reader

namespace Yaml.Core

variable {s : String} {t : Tree}

theorem integerTree?_normal {cs : List Char} (h : integerTree? cs = some (some t)) : t.Normal := by
  rw [integerTree?] at h
  split at h
  · cases h
  · split_ifs at h <;> cases h
    trivial
  · split_ifs at h <;> cases h
    trivial

theorem floatTree?_normal (h : floatTree? s = some t) : t.Normal := by
  rw [floatTree?] at h
  split_ifs at h
  · cases h
    trivial
  · obtain ⟨x, hx, rfl⟩ := Option.map_eq_some_iff.mp h
    obtain ⟨literal, -, hx⟩ := Option.bind_eq_some_iff.mp hx
    exact Binary64.ofDecimal_normal hx

theorem plainTree?_normal (h : plainTree? s = some t) : t.Normal := by
  rw [plainTree?] at h
  split at h
  · cases h
    trivial
  split at h
  · cases h
    trivial
  split at h
  · rename_i hinteger
    exact integerTree?_normal (hinteger.trans (congrArg some h))
  split at h
  · cases h
    trivial
  cases hfloat : floatTree? s with
  | none =>
    rw [hfloat] at h
    cases h
    trivial
  | some u =>
    rw [hfloat] at h
    cases h
    exact floatTree?_normal hfloat

/-- Whatever a scalar is taken for, its number is in normal form. -/
theorem scalarTree?_normal {tag : Option String} {plain : Bool} (h : scalarTree? tag plain s = some t) :
    t.Normal := by
  unfold scalarTree? at h
  split at h
  · split_ifs at h
    · exact plainTree?_normal h
    · cases h
      trivial
  · obtain ⟨b, -, rfl⟩ := Option.map_eq_some_iff.mp h
    trivial
  · exact integerTree?_normal (Option.join_eq_some_iff.mp h)
  · exact floatTree?_normal h
  · split_ifs at h
    cases h
    trivial
  · split_ifs at h
    · exact plainTree?_normal h
    · cases h
      trivial

end Yaml.Core

namespace Json

theorem FieldsNormal.put {k : String} {v : Json} {fs : List (String × Json)} (hv : v.Normal)
    (hfs : FieldsNormal fs) : FieldsNormal (Assoc.put k v fs) := by
  induction fs with
  | nil => exact ⟨hv, trivial⟩
  | cons f fs ih =>
    rw [Assoc.put]
    split
    · exact ⟨hv, hfs.2⟩
    · exact ⟨hfs.1, ih hfs.2⟩

mutual

theorem ofTree?_normal : (t : Tree) → {v : Json} → t.Normal → ofTree? t = some v → v.Normal
  | .float x, v, ht, h => by
    cases h
    exact ht
  | .seq items, v, ht, h => by
    obtain ⟨vs, hvs, rfl⟩ := Option.map_eq_some_iff.mp h
    exact ofTrees?_normal items ht hvs
  | .map entries, v, ht, h => by
    obtain ⟨fs, hfs, rfl⟩ := Option.map_eq_some_iff.mp h
    exact ofEntries?_normal entries [] trivial ht hfs
  | .null, v, _, h | .bool _, v, _, h | .unsigned _, v, _, h | .signed _, v, _, h
  | .nonFinite, v, _, h | .str _, v, _, h => by
    cases h
    trivial

theorem ofTrees?_normal : (ts : List Tree) → {vs : List Json} → Tree.AllNormal ts →
    ofTrees? ts = some vs → AllNormal vs
  | [], vs, _, h => by
    cases h
    trivial
  | t :: ts, vs, hts, h => by
    rw [ofTrees?] at h
    obtain ⟨v, hv, h⟩ := Option.bind_eq_some_iff.mp h
    obtain ⟨us, hus, h⟩ := Option.bind_eq_some_iff.mp h
    cases h
    exact ⟨ofTree?_normal t hts.1 hv, ofTrees?_normal ts hts.2 hus⟩

theorem ofEntries?_normal : (es : List (Tree × Tree)) → (fs : List (String × Json)) →
    {gs : List (String × Json)} → FieldsNormal fs → Tree.EntriesNormal es →
    ofEntries? fs es = some gs → FieldsNormal gs
  | [], _, _, hfs, _, h => by
    obtain rfl := Option.some.inj h
    exact hfs
  | (.str k, t) :: es, fs, _, hfs, hes, h => by
    obtain ⟨v, hv, h⟩ := Option.bind_eq_some_iff.mp h
    exact ofEntries?_normal es (Assoc.put k v fs) (hfs.put (ofTree?_normal t hes.1 hv)) hes.2 h

end

theorem read?_normal {text : String} {v : Json} (h : read? text = some v) : v.Normal := by
  obtain ⟨t, ht, hv⟩ := Option.bind_eq_some_iff.mp h
  exact ofTree?_normal t (Reader.tree?_normal ht) hv

end Json

end ApiClient

import ApiClient.Decimal.Shortest
import Mathlib

/-! The digits of a number tell the number. They lie in the interval of the numbers that are rounded to it,
and the intervals of different numbers have no number in common. -/

namespace ApiClient

/-- The normal form of a number: a significand of 53 bits, or the least exponent. -/
structure Binary64.Normal (x : Binary64) : Prop where
  small : x.significand < 2 ^ 53
  lowest : -1074 ≤ x.exponent
  full : x.exponent = -1074 ∨ 2 ^ 52 ≤ x.significand

theorem Binary64.ratio_scaledBy (num den : Nat) (q : Int) :
    ((scaledBy num den q).1 : ℚ) / (scaledBy num den q).2 = num / den * 2 ^ (-q) := by
  rw [scaledBy]
  split_ifs with hq
  · obtain ⟨n, rfl⟩ : ∃ n : Nat, q = -n := ⟨q.natAbs, by omega⟩
    simp [mul_div_right_comm]
  · obtain ⟨n, rfl⟩ : ∃ n : Nat, q = n := ⟨q.natAbs, by omega⟩
    simp [div_eq_mul_inv, mul_assoc, mul_comm]

namespace Decimal

namespace Interval

/-- The rational number is rounded to the value of the interval. -/
def Contains (i : Interval) (q : ℚ) : Prop :=
  if i.closed then (i.lower / i.den : ℚ) ≤ q ∧ q ≤ i.upper / i.den
  else (i.lower / i.den : ℚ) < q ∧ q < i.upper / i.den

variable {i : Interval} {k : Int}

theorem has_iff (hden : 0 < i.den) {num den : Nat} (h : 0 < den) :
    i.has num den = true ↔ i.Contains (num / den) := by
  have hi : (0 : ℚ) < i.den := by exact_mod_cast hden
  have hd : (0 : ℚ) < den := by exact_mod_cast h
  rw [has, Contains]
  split_ifs
  · rw [Bool.and_eq_true, decide_eq_true_eq, decide_eq_true_eq, div_le_div_iff₀ hi hd,
      div_le_div_iff₀ hd hi]
    norm_cast
  · rw [Bool.and_eq_true, decide_eq_true_eq, decide_eq_true_eq, div_lt_div_iff₀ hi hd,
      div_lt_div_iff₀ hd hi]
    norm_cast

/-- The ends belong to closed intervals only. -/
theorem Contains.bounds {q : ℚ} (h : i.Contains q) :
    (i.lower / i.den : ℚ) ≤ q ∧ q ≤ i.upper / i.den ∧
      (q = i.lower / i.den ∨ q = i.upper / i.den → i.closed = true) := by
  rw [Contains] at h
  split_ifs at h with hclosed
  · exact ⟨h.1, h.2, fun _ => hclosed⟩
  · refine ⟨h.1.le, h.2.le, ?_⟩
    rintro (heq | heq)
    · exact absurd heq h.1.ne'
    · exact absurd heq h.2.ne

/-- A power of ten as a fraction. -/
theorem exists_grid (k : Int) : ∃ p q : Nat, 0 < p ∧ 0 < q ∧ (p / q : ℚ) = 10 ^ k ∧
    (if k < 0 then (1, Nat.pow 10 k.natAbs) else (Nat.pow 10 k.natAbs, 1)) = (p, q) := by
  split_ifs with hk
  · obtain ⟨n, rfl⟩ : ∃ n : Nat, k = -n := ⟨k.natAbs, by omega⟩
    exact ⟨1, 10 ^ n, by norm_num, by positivity, by simp, by simp⟩
  · obtain ⟨n, rfl⟩ : ∃ n : Nat, k = n := ⟨k.natAbs, by omega⟩
    exact ⟨10 ^ n, 1, by positivity, by norm_num, by simp, by simp⟩

theorem contains_of_point? (hden : 0 < i.den) {d : Nat} (h : i.point? k = some d) :
    i.Contains (d * 10 ^ k) := by
  obtain ⟨p, q, hp, hq, hpq, hgrid⟩ := exists_grid k
  have hhas (d : Nat) : i.has (d * p) q = true ↔ i.Contains (d * 10 ^ k) := by
    rw [has_iff hden hq, Nat.cast_mul, mul_div_assoc, hpq]
  simp only [point?, hgrid] at h
  split at h
  · cases h
  · rename_i hlow _
    obtain rfl := Option.some.inj h
    exact (hhas _).mp hlow
  · rename_i _ hhigh
    obtain rfl := Option.some.inj h
    exact (hhas _).mp hhigh
  · rename_i hlow hhigh
    obtain rfl := Option.some.inj h
    rw [Binary64.nearestNat]
    split_ifs
    · exact (hhas _).mp hlow
    · exact (hhas _).mp hhigh
    · exact (hhas _).mp hlow
    · exact (hhas _).mp hhigh

/-- A grid that is finer than the lower half of the interval has a point in it. -/
theorem exists_point (hden : 0 < i.den) (hupper : (i.value / i.den : ℚ) < i.upper / i.den)
    (hlower : (i.lower / i.den : ℚ) + 10 ^ k < i.value / i.den) : ∃ d, i.point? k = some d := by
  obtain ⟨p, q, hp, hq, hpq, hgrid⟩ := exists_grid k
  have hden' : (0 : ℚ) < i.den := by exact_mod_cast hden
  have hq' : (0 : ℚ) < q := by exact_mod_cast hq
  have hpos : 0 < i.den * p := Nat.mul_pos hden hp
  have hscale (n : Nat) : ((n * (i.den * p) : Nat) : ℚ) / (i.den * q) = n * 10 ^ k := by
    rw [← hpq]
    push_cast
    field_simp
  have hvalue : ((i.value * q : Nat) : ℚ) / (i.den * q) = i.value / i.den := by
    push_cast
    field_simp
  -- the point below the value
  obtain ⟨d, hd⟩ : ∃ d, d = i.value * q / (i.den * p) := ⟨_, rfl⟩
  have hbelow : (d * 10 ^ k : ℚ) ≤ i.value / i.den := by
    rw [← hscale, ← hvalue, hd, div_le_div_iff_of_pos_right (by positivity), Nat.cast_le]
    exact Nat.div_mul_le_self _ _
  have habove : (i.value / i.den : ℚ) < (d + 1 : Nat) * 10 ^ k := by
    rw [← hscale, ← hvalue, hd, div_lt_div_iff_of_pos_right (by positivity), Nat.cast_lt]
    exact (Nat.lt_mul_div_succ _ hpos).trans_eq (mul_comm _ _)
  have hcontains : i.Contains (d * 10 ^ k) := by
    have hlow : (i.lower / i.den : ℚ) < d * 10 ^ k := by
      push_cast at habove
      linarith
    have hhigh : (d * 10 ^ k : ℚ) < i.upper / i.den :=
      hbelow.trans_lt hupper
    rw [Contains]
    split_ifs
    · exact ⟨hlow.le, hhigh.le⟩
    · exact ⟨hlow, hhigh⟩
  have hhas : i.has (d * p) q = true := by
    rwa [has_iff hden hq, Nat.cast_mul, mul_div_assoc, hpq]
  simp only [point?, hgrid, ← hd, hhas]
  cases i.has ((d + 1) * p) q
  · exact ⟨_, rfl⟩
  · exact ⟨_, rfl⟩

theorem coarsest_contains (hden : 0 < i.den) {steps : Nat}
    (h : ∃ j < steps, ∃ d, i.point? (k - j) = some d) :
    i.Contains ((i.coarsest steps k).1 * 10 ^ (i.coarsest steps k).2) := by
  induction steps generalizing k with
  | zero => simp at h
  | succ steps ih =>
    rw [coarsest]
    cases hpoint : i.point? k with
    | some d => exact contains_of_point? hden hpoint
    | none =>
      obtain ⟨j, hj, d, hd⟩ := h
      cases j with
      | zero => simp [hpoint] at hd
      | succ j =>
        refine ih ⟨j, by omega, d, ?_⟩
        rwa [Nat.cast_succ, show k - (j + 1 : Int) = k - 1 - j by ring] at hd

/-! ### The numbers that are rounded to a number -/

variable {x y : Binary64} {q : ℚ}

/-- The distance down to the end of the interval, in quarters of a unit of the last place. -/
def below (x : Binary64) : Nat :=
  if x.significand = Nat.pow 2 52 ∧ -1074 < x.exponent then 1 else 2

structure Around (x : Binary64) (i : Interval) : Prop where
  den : 0 < i.den
  lower : (i.lower / i.den : ℚ) = (4 * x.significand - below x : Nat) * 2 ^ (x.exponent - 2)
  value : (i.value / i.den : ℚ) = (4 * x.significand : Nat) * 2 ^ (x.exponent - 2)
  upper : (i.upper / i.den : ℚ) = (4 * x.significand + 2 : Nat) * 2 ^ (x.exponent - 2)
  closed : i.closed = true ↔ x.significand % 2 = 0

theorem around_spec (x : Binary64) : Around x (around x) := by
  have hunit := Binary64.ratio_scaledBy 1 1 (2 - x.exponent)
  have hden : 0 < (Binary64.scaledBy 1 1 (2 - x.exponent)).2 := by
    rw [Binary64.scaledBy]
    split_ifs <;> simp
  rw [neg_sub, Nat.cast_one, div_one, one_mul] at hunit
  have hscale (n : Nat) : ((n * (Binary64.scaledBy 1 1 (2 - x.exponent)).1 : Nat) /
      (Binary64.scaledBy 1 1 (2 - x.exponent)).2 : ℚ) = n * 2 ^ (x.exponent - 2) := by
    rw [Nat.cast_mul, mul_div_assoc, hunit]
  exact ⟨hden, hscale _, hscale _, hscale _, beq_iff_eq⟩

/-- The finest grid that is tried is fine enough. -/
theorem finest_lt (h : x.Normal) : (10 : ℚ) ^ (-330 : Int) < below x * 2 ^ (x.exponent - 2) := by
  have hfinest : (10 : ℚ) ^ (-330 : Int) < 2 ^ (-1075 : Int) := by
    have hpow : (2 : ℚ) ^ 1075 < 10 ^ 330 := calc
      (2 : ℚ) ^ 1075 < 2 ^ (36 * 30) := pow_lt_pow_right₀ (by norm_num) (by norm_num)
      _ = (2 ^ 36) ^ 30 := pow_mul ..
      _ < (10 ^ 11) ^ 30 := by gcongr; norm_num
      _ = 10 ^ 330 := (pow_mul ..).symm
    rw [zpow_neg, zpow_neg]
    exact inv_strictAnti₀ (by positivity) (by exact_mod_cast hpow)
  refine hfinest.trans_le ?_
  have hlowest := h.lowest
  rw [below]
  split_ifs with hpower
  · rw [Nat.cast_one, one_mul]
    exact zpow_le_zpow_right₀ (by norm_num) (by omega)
  · have htwo : ((2 : Nat) : ℚ) * 2 ^ (x.exponent - 2) = 2 ^ (x.exponent - 1) := by
      rw [Nat.cast_ofNat, ← zpow_one_add₀ (by norm_num)]
      congr 1
      ring
    rw [htwo]
    exact zpow_le_zpow_right₀ (by norm_num) (by omega)

theorem below_le (h : x.significand ≠ 0) : below x ≤ 4 * x.significand := by
  rw [below]
  split_ifs <;> omega

/-- The digits of a number lie in its interval. -/
theorem shortest_contains (h : x.Normal) (hzero : x.significand ≠ 0) :
    (around x).Contains ((shortest x).1 * 10 ^ (shortest x).2) := by
  have hspec := around_spec x
  have hpos : (0 : ℚ) < 2 ^ (x.exponent - 2) := by positivity
  refine coarsest_contains hspec.den ⟨639, by norm_num, ?_⟩
  refine exists_point hspec.den ?_ ?_
  · rw [hspec.value, hspec.upper]
    gcongr
    omega
  · have hfinest := finest_lt h
    rw [hspec.value, hspec.lower, Nat.cast_sub (below_le hzero), sub_mul]
    have hk : (309 - (639 : Nat) : Int) = -330 := by norm_num
    rw [hk]
    linarith

/-- The order of numbers in normal form, signs apart. -/
def Precedes (x y : Binary64) : Prop :=
  x.exponent < y.exponent ∨ x.exponent = y.exponent ∧ x.significand < y.significand

/-- The intervals of two numbers have at most an end in common, and then one of the two is odd. -/
theorem gap (hx : x.Normal) (hy : y.Normal) (h : Precedes x y) :
    ((4 * x.significand + 2 : Nat) * 2 ^ (x.exponent - 2) : ℚ) <
        (4 * y.significand - below y : Nat) * 2 ^ (y.exponent - 2) ∨
      ((4 * x.significand + 2 : Nat) * 2 ^ (x.exponent - 2) : ℚ) =
        (4 * y.significand - below y : Nat) * 2 ^ (y.exponent - 2) ∧
      (x.significand % 2 = 1 ∨ y.significand % 2 = 1) := by
  have hpos : (0 : ℚ) < 2 ^ (x.exponent - 2) := by positivity
  rcases h with hlt | ⟨heq, hlt⟩
  · -- the first one has at most `2 ^ 53 - 1` units, the second one at least `2 ^ 52` that are twice as large
    have hfull : 2 ^ 52 ≤ y.significand :=
      hy.full.resolve_left (by have := hx.lowest; omega)
    have hunit : (2 * 2 ^ (x.exponent - 2) : ℚ) ≤ 2 ^ (y.exponent - 2) := by
      rw [← zpow_one_add₀ (by norm_num)]
      exact zpow_le_zpow_right₀ (by norm_num) (by omega)
    have hsmall := hx.small
    have hnat : 4 * x.significand + 2 < (4 * y.significand - below y) * 2 ∨
        4 * x.significand + 2 = (4 * y.significand - below y) * 2 ∧ x.significand % 2 = 1 := by
      have hbelow : below y = 1 ∧ y.significand = 2 ^ 52 ∨
          below y = 2 ∧ y.significand ≠ 2 ^ 52 := by
        rw [below]
        split_ifs with hpower
        · exact .inl ⟨rfl, hpower.1⟩
        · exact .inr ⟨rfl, fun hpow => hpower ⟨hpow, by have := hx.lowest; omega⟩⟩
      omega
    have hscale : ((4 * y.significand - below y : Nat) * 2 * 2 ^ (x.exponent - 2) : ℚ) ≤
        (4 * y.significand - below y : Nat) * 2 ^ (y.exponent - 2) := by
      rw [mul_assoc]
      gcongr
    rcases hnat with hnat | ⟨hnat, hodd⟩
    · refine .inl (lt_of_lt_of_le ?_ hscale)
      gcongr
      exact_mod_cast hnat
    · rw [hnat]
      push_cast [-Nat.cast_sub] at hscale ⊢
      exact hscale.lt_or_eq.imp_right fun heq => ⟨heq, .inl hodd⟩
  · rw [← heq]
    have hnat : 4 * x.significand + 2 < 4 * y.significand - below y ∨
        4 * x.significand + 2 = 4 * y.significand - below y ∧
          (x.significand % 2 = 1 ∨ y.significand % 2 = 1) := by
      have hbelow : below y = 1 ∨ below y = 2 := by
        rw [below]
        split_ifs <;> simp
      omega
    rcases hnat with hnat | ⟨hnat, hodd⟩
    · exact .inl (by gcongr)
    · exact .inr ⟨by rw [hnat], hodd⟩

/-- No number is rounded to two. -/
theorem disjoint_of_precedes (hx : x.Normal) (hy : y.Normal) (h : Precedes x y)
    (hqx : (around x).Contains q) : ¬ (around y).Contains q := by
  intro hqy
  have hxs := around_spec x
  have hys := around_spec y
  obtain ⟨-, hupper, hxclosed⟩ := hqx.bounds
  obtain ⟨hlower, -, hyclosed⟩ := hqy.bounds
  rw [hxs.upper] at hupper hxclosed
  rw [hys.lower] at hlower hyclosed
  rcases gap hx hy h with hgap | ⟨hgap, hodd⟩
  · exact absurd (hlower.trans hupper) hgap.not_ge
  · have hq := le_antisymm hupper (hgap ▸ hlower)
    have hxeven := hxs.closed.mp (hxclosed (.inr hq))
    have hyeven := hys.closed.mp (hyclosed (.inl (hq.trans hgap)))
    omega

theorem precedes_or_eq (x y : Binary64) :
    Precedes x y ∨ Precedes y x ∨ x.exponent = y.exponent ∧ x.significand = y.significand := by
  rw [Precedes, Precedes]
  omega

end Interval

variable {x y : Binary64}

/-- The value of a number's digits. -/
def digitsValue (x : Binary64) : ℚ := (shortest x).1 * 10 ^ (shortest x).2

/-- Numbers with the same digits are equal, signs apart. -/
theorem eq_of_digitsValue_eq (hx : x.Normal) (hy : y.Normal) (hxzero : x.significand ≠ 0)
    (hyzero : y.significand ≠ 0) (h : digitsValue x = digitsValue y) :
    x.exponent = y.exponent ∧ x.significand = y.significand := by
  have hqx : (Interval.around x).Contains (digitsValue x) := Interval.shortest_contains hx hxzero
  have hqy : (Interval.around y).Contains (digitsValue y) := Interval.shortest_contains hy hyzero
  rcases Interval.precedes_or_eq x y with hlt | hlt | heq
  · exact absurd (h ▸ hqy) (Interval.disjoint_of_precedes hx hy hlt hqx)
  · exact absurd (h ▸ hqx) (Interval.disjoint_of_precedes hy hx hlt hqy)
  · exact heq

theorem digitsValue_pos (hx : x.Normal) (hzero : x.significand ≠ 0) : 0 < digitsValue x := by
  have hlower := (Interval.shortest_contains hx hzero).bounds.1
  have hunits : 0 < 4 * x.significand - Interval.below x := by
    rw [Interval.below]
    split_ifs <;> omega
  refine lt_of_lt_of_le ?_ hlower
  rw [(Interval.around_spec x).lower]
  positivity

end Decimal

end ApiClient

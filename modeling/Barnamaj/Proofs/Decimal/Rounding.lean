import Barnamaj.Decimal.Shortest
import Mathlib.Data.Rat.Cast.Order
import Mathlib.Tactic.FieldSimp
import Mathlib.Tactic.Linarith
import Mathlib.Tactic.NormNum
import Mathlib.Tactic.Ring

/-!
# Rounding

A number has only one mantissa and one exponent (`Neighbourhood.Canonical`): the exponent is the
least one, or the mantissa has all of its bits. The unsigned reals that round to it fill an
interval, and the intervals of different numbers do not meet, so that a real rounds to one number
only (`Binary64.RoundsTo.unique`). The value of an unsigned decimal is the number that the decimal
rounds to (`Binary64.roundsTo_ofDecimal`).
-/

namespace Barnamaj.Decimal

/-! ### Powers -/

lemma power_pos {b : ℕ} (hb : 0 < b) (e : ℤ) : 0 < power b e :=
  Nat.pow_pos hb

/-- A power with any exponent is the ratio of two powers. -/
lemma cast_power_eq {b : ℕ} (hb : 0 < b) (e : ℤ) :
    (power b e : ℚ) = (b : ℚ) ^ e * power b (-e) := by
  have hb' : (b : ℚ) ≠ 0 := Nat.cast_ne_zero.mpr hb.ne'
  obtain ⟨n, rfl | rfl⟩ := e.eq_nat_or_neg
  · simp [power]
  · simp [power, hb']

lemma two_zpow_pos (e : ℤ) : (0 : ℚ) < 2 ^ e :=
  zpow_pos (by norm_num) e

/-! ### Division -/

lemma roundDiv_eq_or (num den : ℕ) :
    roundDiv num den = num / den ∨ roundDiv num den = num / den + 1 := by
  simp only [roundDiv]
  split_ifs
  · exact .inl rfl
  · exact .inr rfl
  · omega

/-- What is rounded is at most half of the divisor away. -/
lemma roundDiv_near (num : ℕ) {den : ℕ} (hden : 0 < den) :
    2 * num ≤ 2 * (roundDiv num den * den) + den ∧
      2 * (roundDiv num den * den) ≤ 2 * num + den := by
  have hdiv := Nat.div_add_mod' num den
  have hmod := Nat.mod_lt num hden
  simp only [roundDiv]
  split_ifs with h h'
  · omega
  · rw [Nat.add_mul, Nat.one_mul]
    omega
  · rw [Nat.add_mul]
    rcases Nat.mod_two_eq_zero_or_one (num / den) with hr | hr
    · rw [hr, Nat.zero_mul]
      omega
    · rw [hr, Nat.one_mul]
      omega

/-- What is half of the divisor away is not rounded to an odd number. -/
lemma roundDiv_odd (num : ℕ) {den : ℕ} (hden : 0 < den) (hodd : roundDiv num den % 2 = 1) :
    2 * num < 2 * (roundDiv num den * den) + den ∧
      2 * (roundDiv num den * den) < 2 * num + den := by
  have hdiv := Nat.div_add_mod' num den
  have hmod := Nat.mod_lt num hden
  simp only [roundDiv] at hodd ⊢
  split_ifs at hodd ⊢ with h h'
  · omega
  · rw [Nat.add_mul, Nat.one_mul]
    omega
  · omega

/-! ### Intervals -/

lemma Binary64.mantissaBound_eq : mantissaBound = 2 ^ 53 :=
  rfl

lemma Binary64.mantissaBound_div_two : mantissaBound / 2 = 2 ^ 52 :=
  rfl

namespace Neighbourhood

variable {v v' : Neighbourhood} {x : ℚ}

/-- The only mantissa and exponent of a number, which may still be too large for the format. -/
structure Canonical (v : Neighbourhood) : Prop where
  lt : v.mantissa < Binary64.mantissaBound
  least : Binary64.minExponent ≤ v.exponent
  leading : v.exponent = Binary64.minExponent ∨ Binary64.mantissaBound / 2 ≤ v.mantissa

/-- The mantissa and the exponent of a number of the format that is not negative. -/
structure Normal (v : Neighbourhood) : Prop extends Canonical v where
  greatest : v.exponent ≤ Binary64.maxExponent

/-- A quarter of the last place of a number. -/
def unit (v : Neighbourhood) : ℚ := 2 ^ (v.exponent - 2)

/-- The interval of the decimals that round to a number, with its ends if the mantissa is even. -/
def Contains (v : Neighbourhood) (x : ℚ) : Prop :=
  if v.mantissa % 2 = 0 then v.lower * v.unit ≤ x ∧ x ≤ v.upper * v.unit
  else v.lower * v.unit < x ∧ x < v.upper * v.unit

lemma unit_pos (v : Neighbourhood) : 0 < v.unit :=
  two_zpow_pos _

lemma Contains.lower_le (h : v.Contains x) : v.lower * v.unit ≤ x := by
  rw [Contains] at h
  split at h
  · exact h.1
  · exact h.1.le

lemma Contains.le_upper (h : v.Contains x) : x ≤ v.upper * v.unit := by
  rw [Contains] at h
  split at h
  · exact h.2
  · exact h.2.le

lemma Contains.pos (h : v.Contains x) (hm : v.mantissa ≠ 0) : 0 < x := by
  have hlower : 0 < v.lower := by
    rw [lower]
    split_ifs <;> omega
  exact (mul_pos (Nat.cast_pos.mpr hlower) v.unit_pos).trans_le h.lower_le

/-- The ends belong to an interval only if the mantissa is even. -/
lemma Contains.of_odd (h : v.Contains x) (hodd : v.mantissa % 2 = 1) :
    v.lower * v.unit < x ∧ x < v.upper * v.unit := by
  rwa [Contains, if_neg (by omega)] at h

/-- Where one interval starts at the end of another, the end belongs to one of them only. -/
lemma Contains.not_contains (h : v.Contains x) (hle : v.upper * v.unit ≤ v'.lower * v'.unit)
    (hend : v.upper * v.unit < v'.lower * v'.unit ∨ v.mantissa % 2 = 1 ∨ v'.mantissa % 2 = 1) :
    ¬ v'.Contains x := by
  intro h'
  have hx := h.le_upper
  have hx' := h'.lower_le
  rcases hend with hlt | hodd | hodd
  · linarith
  · linarith [(h.of_odd hodd).2]
  · linarith [(h'.of_odd hodd).1]

/-- The interval of a power of two starts only a quarter below it. -/
lemma lower_eq (h : v.mantissa = Binary64.mantissaBound / 2)
    (he : v.exponent ≠ Binary64.minExponent) : v.lower = 2 ^ 54 - 1 := by
  rw [lower, if_pos ⟨h, he⟩, h, Binary64.mantissaBound_div_two]
  norm_num

lemma le_lower (h : Binary64.mantissaBound / 2 ≤ v.mantissa)
    (he : v.exponent ≠ Binary64.minExponent) : 2 ^ 54 - 1 ≤ v.lower := by
  rcases h.eq_or_lt with h | h
  · exact (lower_eq h.symm he).ge
  · rw [Binary64.mantissaBound_div_two] at h
    rw [lower]
    split_ifs <;> omega

/-- The interval of a number ends below those with a greater exponent. -/
lemma Canonical.lt_lower_of_exponent_lt (hv : v.Canonical) (h : v.Contains x)
    (he : v.exponent < v'.exponent) (hleading : Binary64.mantissaBound / 2 ≤ v'.mantissa) :
    x < v'.lower * v'.unit := by
  have hlt : v.mantissa < 2 ^ 53 := hv.lt
  have hunit : 2 * v.unit ≤ v'.unit := by
    rw [unit, unit, ← zpow_one_add₀ two_ne_zero]
    exact zpow_le_zpow_right₀ (by norm_num) (by omega)
  have hgap : (2 ^ 55 - 2) * v.unit ≤ v'.lower * v'.unit := by
    have hlower : ((2 ^ 54 - 1 : ℕ) : ℚ) ≤ v'.lower := Nat.cast_le.mpr
      (le_lower hleading (hv.least.trans_lt he).ne')
    calc (2 ^ 55 - 2) * v.unit = ((2 ^ 54 - 1 : ℕ) : ℚ) * (2 * v.unit) := by
          push_cast
          ring
      _ ≤ v'.lower * v'.unit :=
          mul_le_mul hlower hunit (mul_nonneg (by norm_num) v.unit_pos.le) (Nat.cast_nonneg _)
  have hupper : ∀ {k : ℕ}, v.upper ≤ k → v.upper * v.unit ≤ k * v.unit := fun hk =>
    mul_le_mul_of_nonneg_right (Nat.cast_le.mpr hk) v.unit_pos.le
  -- the upper end is met only by the largest mantissa, which is odd
  rcases Nat.mod_two_eq_zero_or_one v.mantissa with heven | hodd
  · have hend := hupper (k := 2 ^ 55 - 6) (by rw [upper]; omega)
    push_cast at hend
    linarith [v.unit_pos, h.le_upper]
  · have hend := hupper (k := 2 ^ 55 - 2) (by rw [upper]; omega)
    push_cast at hend
    linarith [(h.of_odd hodd).2]

lemma Canonical.not_contains_of_exponent_lt (hv : v.Canonical) (hv' : v'.Canonical)
    (h : v.Contains x) (he : v.exponent < v'.exponent) : ¬ v'.Contains x := fun h' =>
  have hleading := hv'.leading.resolve_left (hv.least.trans_lt he).ne'
  (hv.lt_lower_of_exponent_lt h he hleading).not_ge h'.lower_le

lemma Contains.not_contains_of_mantissa_lt (h : v.Contains x) (he : v.exponent = v'.exponent)
    (hm : v.mantissa < v'.mantissa) : ¬ v'.Contains x := by
  have hunit : v.unit = v'.unit := by rw [unit, unit, he]
  have hlower : 4 * v'.mantissa - 2 ≤ v'.lower := by
    rw [lower]
    split_ifs <;> omega
  have hle : v.upper ≤ v'.lower := by
    rw [upper]
    omega
  refine h.not_contains ?_ ?_
  · rw [hunit]
    exact mul_le_mul_of_nonneg_right (Nat.cast_le.mpr hle) v'.unit_pos.le
  · -- two mantissas that follow one another are not both even
    by_cases hnext : v'.mantissa = v.mantissa + 1
    · omega
    · refine .inl ?_
      rw [hunit]
      exact mul_lt_mul_of_pos_right (Nat.cast_lt.mpr (by rw [upper]; omega)) v'.unit_pos

/-- The intervals of different numbers do not meet. -/
lemma Canonical.eq_of_contains (hv : v.Canonical) (hv' : v'.Canonical) (h : v.Contains x)
    (h' : v'.Contains x) : v = v' := by
  have hexponent : v.exponent = v'.exponent := le_antisymm
    (not_lt.mp fun he => hv'.not_contains_of_exponent_lt hv h' he h)
    (not_lt.mp fun he => hv.not_contains_of_exponent_lt hv' h he h')
  have hmantissa : v.mantissa = v'.mantissa := le_antisymm
    (not_lt.mp fun hm => h'.not_contains_of_mantissa_lt hexponent.symm hm h)
    (not_lt.mp fun hm => h.not_contains_of_mantissa_lt hexponent hm h')
  cases v
  cases v'
  simp_all

end Neighbourhood

/-! ### Rounding to a number of the format -/

namespace Binary64

/-- The first number above the format. -/
def overflow : Neighbourhood := ⟨mantissaBound / 2, maxExponent + 1⟩

/-- The number that an unsigned real rounds to. -/
inductive RoundsTo (x : ℚ) : Binary64 → Prop where
  | finite {m : ℕ} {e : ℤ} (h : Neighbourhood.Normal ⟨m, e⟩)
      (hx : Neighbourhood.Contains ⟨m, e⟩ x) : RoundsTo x (.finite false m e)
  | infinity (hx : overflow.lower * overflow.unit ≤ x) : RoundsTo x (.infinite false)

/-- A real rounds to one number only. -/
theorem RoundsTo.unique {x : ℚ} {r r' : Binary64} (h : RoundsTo x r) (h' : RoundsTo x r') :
    r = r' := by
  have hbelow : ∀ {v : Neighbourhood}, v.Normal → v.Contains x →
      ¬ overflow.lower * overflow.unit ≤ x := fun hv hx =>
    (hv.lt_lower_of_exponent_lt hx (Int.lt_add_one_of_le hv.greatest) le_rfl).not_ge
  cases h with
  | finite hv hx =>
    cases h' with
    | finite hv' hx' =>
      cases hv.eq_of_contains hv'.toCanonical hx hx'
      rfl
    | infinity hx' => exact absurd hx' (hbelow hv hx)
  | infinity hx =>
    cases h' with
    | finite hv' hx' => exact absurd hx (hbelow hv' hx')
    | infinity hx' => rfl

/-- A number that is not negative is infinite, or has no sign. -/
lemma RoundsTo.eq_infinite_or {x : ℚ} {r : Binary64} (h : RoundsTo x r) :
    r = .infinite false ∨ ∃ m e, r = .finite false m e := by
  cases h with
  | finite _ _ => exact .inr ⟨_, _, rfl⟩
  | infinity _ => exact .inl rfl

/-! ### The value of a decimal -/

lemma scale_snd_pos {num den : ℕ} (hden : 0 < den) (e : ℤ) : 0 < (scale num den e).2 :=
  Nat.mul_pos hden (power_pos (by decide) _)

/-- The scaled ratio is the ratio in last places. -/
lemma ratio_eq_scale {num den : ℕ} (hden : 0 < den) (e : ℤ) :
    (num : ℚ) / den = (scale num den e).1 / (scale num den e).2 * 2 ^ e := by
  have hden' : (den : ℚ) ≠ 0 := Nat.cast_ne_zero.mpr hden.ne'
  have hpow : (power 2 (-e) : ℚ) ≠ 0 := Nat.cast_ne_zero.mpr (power_pos (by decide) _).ne'
  have hcast : (power 2 e : ℚ) = 2 ^ e * power 2 (-e) := cast_power_eq (by decide) e
  rw [scale]
  push_cast
  rw [hcast]
  field_simp

/-- The scaled ratio is compared with a power of two like the ratio itself. -/
lemma scale_lt_iff {num den : ℕ} (hden : 0 < den) (e : ℤ) (k : ℕ) :
    (scale num den e).1 < 2 ^ k * (scale num den e).2 ↔
      (num : ℚ) / den < 2 ^ ((k : ℤ) + e) := by
  have hscaled : (0 : ℚ) < (scale num den e).2 := Nat.cast_pos.mpr (scale_snd_pos hden e)
  rw [ratio_eq_scale hden e, zpow_add₀ two_ne_zero, zpow_natCast,
    mul_lt_mul_iff_left₀ (two_zpow_pos e), div_lt_iff₀ hscaled]
  exact_mod_cast Iff.rfl

/-- The lengths of numerator and denominator tell the ratio up to a factor of two. -/
lemma ratio_bounds {num den : ℕ} (hnum : 0 < num) (hden : 0 < den) :
    (2 : ℚ) ^ ((num.log2 : ℤ) - den.log2 - 1) ≤ (num : ℚ) / den ∧
      (num : ℚ) / den < 2 ^ ((num.log2 : ℤ) - den.log2 + 1) := by
  have hden' : (0 : ℚ) < den := Nat.cast_pos.mpr hden
  have hnum₁ : (2 : ℚ) ^ num.log2 ≤ num := by exact_mod_cast Nat.log2_self_le hnum.ne'
  have hnum₂ : (num : ℚ) < 2 ^ (num.log2 + 1) := by exact_mod_cast Nat.lt_log2_self
  have hden₁ : (2 : ℚ) ^ den.log2 ≤ den := by exact_mod_cast Nat.log2_self_le hden.ne'
  have hden₂ : (den : ℚ) < 2 ^ (den.log2 + 1) := by exact_mod_cast Nat.lt_log2_self
  constructor
  · rw [le_div_iff₀ hden']
    calc (2 : ℚ) ^ ((num.log2 : ℤ) - den.log2 - 1) * den
        ≤ 2 ^ ((num.log2 : ℤ) - den.log2 - 1) * 2 ^ ((den.log2 : ℤ) + 1) := by
          refine mul_le_mul_of_nonneg_left ?_ (two_zpow_pos _).le
          exact_mod_cast hden₂.le
      _ = 2 ^ num.log2 := by
          rw [← zpow_add₀ two_ne_zero, ← zpow_natCast]
          congr 1
          ring
      _ ≤ num := hnum₁
  · rw [div_lt_iff₀ hden']
    calc (num : ℚ) < 2 ^ (num.log2 + 1) := hnum₂
      _ = 2 ^ ((num.log2 : ℤ) - den.log2 + 1) * 2 ^ den.log2 := by
          rw [← zpow_natCast, ← zpow_natCast, ← zpow_add₀ two_ne_zero]
          congr 1
          push_cast
          ring
      _ ≤ 2 ^ ((num.log2 : ℤ) - den.log2 + 1) * den :=
          mul_le_mul_of_nonneg_left hden₁ (two_zpow_pos _).le

/-- The exponent is the guess from the lengths, or one more if the mantissa would be too long. -/
lemma exponentFor_cases (num : ℕ) {den : ℕ} (hden : 0 < den) :
    ∃ low, low = max minExponent ((num.log2 : ℤ) - den.log2 - 53) ∧
      (exponentFor num den = low ∧ (num : ℚ) / den < 2 ^ (53 + low) ∨
        exponentFor num den = low + 1 ∧ (2 : ℚ) ^ (53 + low) ≤ (num : ℚ) / den) := by
  refine ⟨_, rfl, ?_⟩
  rw [exponentFor]
  split
  · next h => exact .inl ⟨rfl, (scale_lt_iff hden _ 53).mp h⟩
  · next h => exact .inr ⟨rfl, not_lt.mp fun hlt => h ((scale_lt_iff hden _ 53).mpr hlt)⟩

/-- The exponent leaves at most 53 bits for the mantissa, and no fewer unless it is the least. -/
lemma exponentFor_spec {num den : ℕ} (hnum : 0 < num) (hden : 0 < den) :
    minExponent ≤ exponentFor num den ∧
      (num : ℚ) / den < 2 ^ (53 + exponentFor num den) ∧
      (exponentFor num den = minExponent ∨ 2 ^ (52 + exponentFor num den) ≤ (num : ℚ) / den) := by
  obtain ⟨hlower, hupper⟩ := ratio_bounds hnum hden
  have hmono : ∀ {i j : ℤ}, i ≤ j → (2 : ℚ) ^ i ≤ 2 ^ j := zpow_le_zpow_right₀ (by norm_num)
  obtain ⟨low, hlow, ⟨he, h⟩ | ⟨he, h⟩⟩ := exponentFor_cases num hden
  · rw [he]
    refine ⟨by omega, h, ?_⟩
    by_cases hleast : low = minExponent
    · exact .inl hleast
    · exact .inr ((hmono (by omega)).trans hlower)
  · rw [he]
    refine ⟨by omega, hupper.trans_le (hmono (by omega)), .inr ?_⟩
    exact (hmono (by omega)).trans h

section Ratio

variable {num den : ℕ} (hden : 0 < den)
include hden

/-- A ratio in quarters of the last place of a number. -/
lemma ratio_eq_mul_unit (v : Neighbourhood) :
    (num : ℚ) / den = (4 * (scale num den v.exponent).1 : ℕ) / (scale num den v.exponent).2 *
      v.unit := by
  rw [ratio_eq_scale hden v.exponent, Neighbourhood.unit, zpow_sub₀ two_ne_zero]
  push_cast
  ring

lemma mul_unit_le_ratio_iff (v : Neighbourhood) (k : ℕ) :
    k * v.unit ≤ (num : ℚ) / den ↔
      k * (scale num den v.exponent).2 ≤ 4 * (scale num den v.exponent).1 := by
  have hscaled : (0 : ℚ) < (scale num den v.exponent).2 :=
    Nat.cast_pos.mpr (scale_snd_pos hden v.exponent)
  rw [ratio_eq_mul_unit hden v, mul_le_mul_iff_left₀ v.unit_pos, le_div_iff₀ hscaled,
    ← Nat.cast_mul, Nat.cast_le]

lemma ratio_le_mul_unit_iff (v : Neighbourhood) (k : ℕ) :
    (num : ℚ) / den ≤ k * v.unit ↔
      4 * (scale num den v.exponent).1 ≤ k * (scale num den v.exponent).2 := by
  have hscaled : (0 : ℚ) < (scale num den v.exponent).2 :=
    Nat.cast_pos.mpr (scale_snd_pos hden v.exponent)
  rw [ratio_eq_mul_unit hden v, mul_le_mul_iff_left₀ v.unit_pos, div_le_iff₀ hscaled,
    ← Nat.cast_mul, Nat.cast_le]

/-- A ratio rounds to the nearest integer of its last places. The interval below a power of two is
shorter, so it has to be known that the ratio does not lie there. -/
lemma contains_of_eq_roundDiv {v : Neighbourhood}
    (hm : v.mantissa = roundDiv (scale num den v.exponent).1 (scale num den v.exponent).2)
    (hpower : v.exponent = minExponent ∨
      mantissaBound / 2 * (scale num den v.exponent).2 ≤ (scale num den v.exponent).1) :
    v.Contains (num / den) := by
  have hb : 0 < (scale num den v.exponent).2 := scale_snd_pos hden v.exponent
  have hnear := roundDiv_near (scale num den v.exponent).1 hb
  have hodd := roundDiv_odd (scale num den v.exponent).1 hb
  rw [← hm] at hnear hodd
  simp only [Neighbourhood.Contains, ← not_le, mul_unit_le_ratio_iff hden,
    ratio_le_mul_unit_iff hden]
  generalize (scale num den v.exponent).1 = a at *
  generalize (scale num den v.exponent).2 = b at *
  have hlower : v.lower * b ≤ 4 * a ∧ (v.mantissa % 2 = 1 → v.lower * b < 4 * a) := by
    rw [Neighbourhood.lower]
    split_ifs with h
    · have hle := hpower.resolve_left h.2
      have heven := h.1.trans mantissaBound_div_two
      rw [← h.1] at hle
      rw [Nat.sub_mul, Nat.mul_assoc]
      omega
    · rw [Nat.sub_mul, Nat.mul_assoc]
      refine ⟨by omega, fun h => ?_⟩
      have hpos : b ≤ v.mantissa * b := Nat.le_mul_of_pos_left b (by omega)
      omega
  have hupper : 4 * a ≤ v.upper * b ∧ (v.mantissa % 2 = 1 → 4 * a < v.upper * b) := by
    rw [Neighbourhood.upper, Nat.add_mul, Nat.mul_assoc]
    omega
  split
  · exact ⟨hlower.1, hupper.1⟩
  · exact ⟨not_le.mpr (hlower.2 (by omega)), not_le.mpr (hupper.2 (by omega))⟩

/-- A ratio that is rounded up to the next power of two rounds to it also in its last places, which
are twice as wide. -/
lemma contains_of_carried {e : ℤ} (he : minExponent ≤ e)
    (hm : roundDiv (scale num den e).1 (scale num den e).2 = mantissaBound) :
    Neighbourhood.Contains ⟨mantissaBound / 2, e + 1⟩ (num / den) := by
  have hb : 0 < (scale num den e).2 := scale_snd_pos hden e
  obtain ⟨hlow, hhigh⟩ := roundDiv_near (scale num den e).1 hb
  have hunit : Neighbourhood.unit ⟨mantissaBound / 2, e + 1⟩ =
      2 * Neighbourhood.unit ⟨mantissaBound, e⟩ := by
    rw [Neighbourhood.unit, Neighbourhood.unit, ← zpow_one_add₀ two_ne_zero]
    congr 1
    ring
  have hlower : Neighbourhood.lower ⟨mantissaBound / 2, e + 1⟩ = 2 ^ 54 - 1 :=
    Neighbourhood.lower_eq rfl (Int.lt_add_one_of_le he).ne'
  have hquarters : ∀ k : ℕ, (k : ℚ) * (2 * Neighbourhood.unit ⟨mantissaBound, e⟩) =
      (2 * k : ℕ) * Neighbourhood.unit ⟨mantissaBound, e⟩ := fun k => by
    push_cast
    ring
  have heven : mantissaBound / 2 % 2 = 0 := by
    rw [mantissaBound_div_two]
    norm_num
  rw [hm, mantissaBound_eq] at hlow hhigh
  rw [Neighbourhood.Contains, if_pos heven, hunit, hquarters, hquarters,
    mul_unit_le_ratio_iff hden, ratio_le_mul_unit_iff hden, hlower, Neighbourhood.upper,
    mantissaBound_div_two]
  dsimp only
  omega

end Ratio

/-- A positive ratio rounds to a number whose exponent may be too large for the format. -/
lemma exists_ofRatio_eq {num den : ℕ} (hnum : 0 < num) (hden : 0 < den) :
    ∃ v : Neighbourhood, v.Canonical ∧ v.Contains (num / den) ∧
      ofRatio false num den = if maxExponent < v.exponent then .infinite false
        else .finite false v.mantissa v.exponent := by
  obtain ⟨hleast, hlt, hleading⟩ := exponentFor_spec hnum hden
  simp only [ofRatio]
  generalize exponentFor num den = e at *
  have hb : 0 < (scale num den e).2 := scale_snd_pos hden e
  have hquotient : (scale num den e).1 / (scale num den e).2 < mantissaBound := by
    rw [Nat.div_lt_iff_lt_mul hb, mantissaBound_eq, scale_lt_iff hden]
    exact hlt
  have hpower : e = minExponent ∨
      mantissaBound / 2 * (scale num den e).2 ≤ (scale num den e).1 := by
    refine hleading.imp_right fun h => ?_
    rw [← not_lt]
    exact (not_lt.mpr h) ∘ (scale_lt_iff hden e 52).mp
  have hround := roundDiv_eq_or (scale num den e).1 (scale num den e).2
  by_cases hcarried : roundDiv (scale num den e).1 (scale num den e).2 = mantissaBound
  · refine ⟨⟨mantissaBound / 2, e + 1⟩, ⟨?_, ?_, .inr le_rfl⟩,
      contains_of_carried hden hleast hcarried, by simp [hcarried]⟩
    · exact Nat.div_lt_self (by decide) one_lt_two
    · exact hleast.trans (Int.le_add_one le_rfl)
  · refine ⟨⟨roundDiv (scale num den e).1 (scale num den e).2, e⟩, ⟨?_, hleast, ?_⟩,
      contains_of_eq_roundDiv hden rfl hpower, by simp [hcarried]⟩
    · dsimp only
      omega
    · refine hpower.imp_right fun h => ?_
      have := (Nat.le_div_iff_mul_le hb).mpr h
      dsimp only
      omega

/-- A positive ratio is rounded to the number that it rounds to. -/
lemma roundsTo_ofRatio {num den : ℕ} (hnum : 0 < num) (hden : 0 < den) :
    RoundsTo (num / den) (ofRatio false num den) := by
  obtain ⟨v, hv, hx, heq⟩ := exists_ofRatio_eq hnum hden
  rw [heq]
  split
  · next hmax =>
    have hne : v.exponent ≠ minExponent := (lt_trans (by decide) hmax).ne'
    have hlower : overflow.lower ≤ v.lower := by
      rw [Neighbourhood.lower_eq rfl (by decide)]
      exact Neighbourhood.le_lower (hv.leading.resolve_left hne) hne
    have hunit : overflow.unit ≤ v.unit :=
      zpow_le_zpow_right₀ (by norm_num) (Int.sub_le_sub_right hmax _)
    refine .infinity (le_trans ?_ hx.lower_le)
    exact mul_le_mul (Nat.cast_le.mpr hlower) hunit overflow.unit_pos.le (Nat.cast_nonneg _)
  · next hmax => exact .finite ⟨hv, not_lt.mp hmax⟩ hx

lemma roundsTo_zero {x : ℚ} (hx : 0 ≤ x) (h : x ≤ 2 ^ (minExponent - 1)) :
    RoundsTo x (zero false) := by
  refine .finite ⟨⟨by decide, le_rfl, .inl rfl⟩, by decide⟩ ?_
  rw [Neighbourhood.Contains, if_pos (by rfl)]
  refine ⟨?_, h.trans (le_of_eq ?_)⟩
  · simpa [Neighbourhood.lower] using hx
  · have hhalf : (2 : ℚ) ^ (minExponent - 1) = 2 * 2 ^ (minExponent - 2) := by
      rw [← zpow_one_add₀ two_ne_zero]
      rfl
    simpa [Neighbourhood.upper, Neighbourhood.unit] using hhalf

lemma two_zpow_le_ten_zpow (k : ℕ) : (2 : ℚ) ^ (3 * k : ℤ) ≤ 10 ^ (k : ℤ) :=
  calc (2 : ℚ) ^ (3 * k : ℤ) = 8 ^ (k : ℤ) := by
        rw [zpow_mul]
        norm_num
    _ ≤ 10 ^ (k : ℤ) := by
        rw [zpow_natCast, zpow_natCast]
        exact pow_le_pow_left₀ (by norm_num) (by norm_num) k

/-- A number has no more decimal digits than blocks of three bits. -/
lemma cast_le_zpow_log2 (n : ℕ) : (n : ℚ) ≤ 10 ^ ((n.log2 / 3 + 1 : ℕ) : ℤ) :=
  calc (n : ℚ) ≤ (2 ^ (n.log2 + 1) : ℕ) := Nat.cast_le.mpr Nat.lt_log2_self.le
    _ = 2 ^ ((n.log2 + 1 : ℕ) : ℤ) := by rw [Nat.cast_pow, Nat.cast_ofNat, zpow_natCast]
    _ ≤ 2 ^ (3 * (n.log2 / 3 + 1 : ℕ) : ℤ) := zpow_le_zpow_right₀ (by norm_num) (by omega)
    _ ≤ 10 ^ ((n.log2 / 3 + 1 : ℕ) : ℤ) := two_zpow_le_ten_zpow _

/-- The value of an unsigned decimal is the number that it rounds to. -/
theorem roundsTo_ofDecimal (digits : ℕ) (exponent : ℤ) :
    RoundsTo (digits * 10 ^ exponent) (ofDecimal false digits exponent) := by
  have hten : ∀ {i j : ℤ}, i ≤ j → (10 : ℚ) ^ i ≤ 10 ^ j := zpow_le_zpow_right₀ (by norm_num)
  rw [ofDecimal]
  split_ifs with hzero hlarge hsmall
  · rw [hzero, Nat.cast_zero, zero_mul]
    exact roundsTo_zero le_rfl (two_zpow_pos _).le
  · have hpos : (1 : ℚ) ≤ digits := Nat.one_le_cast.mpr (Nat.pos_of_ne_zero hzero)
    refine .infinity ?_
    have hlower : (overflow.lower : ℚ) ≤ 2 ^ (54 : ℤ) := by
      rw [Neighbourhood.lower_eq rfl (by decide)]
      norm_num
    calc (overflow.lower : ℚ) * overflow.unit ≤ 2 ^ (54 : ℤ) * overflow.unit :=
          mul_le_mul_of_nonneg_right hlower overflow.unit_pos.le
      _ = 2 ^ (54 + (maxExponent + 1 - 2)) := (zpow_add₀ two_ne_zero _ _).symm
      _ ≤ 2 ^ (3 * (400 : ℕ) : ℤ) := zpow_le_zpow_right₀ (by norm_num) (by decide)
      _ ≤ 10 ^ ((400 : ℕ) : ℤ) := two_zpow_le_ten_zpow _
      _ ≤ 10 ^ exponent := hten hlarge.le
      _ ≤ digits * 10 ^ exponent := le_mul_of_one_le_left (zpow_pos (by norm_num) _).le hpos
  · refine roundsTo_zero (mul_nonneg (Nat.cast_nonneg _) (zpow_pos (by norm_num) _).le) ?_
    calc (digits : ℚ) * 10 ^ exponent
        ≤ 10 ^ ((digits.log2 / 3 + 1 : ℕ) : ℤ) * 10 ^ exponent :=
          mul_le_mul_of_nonneg_right (cast_le_zpow_log2 digits) (zpow_pos (by norm_num) _).le
      _ = 10 ^ (((digits.log2 / 3 + 1 : ℕ) : ℤ) + exponent) :=
          (zpow_add₀ (by norm_num) _ _).symm
      _ ≤ 10 ^ (-(400 : ℕ) : ℤ) := hten (by omega)
      _ ≤ 2 ^ (-(3 * (400 : ℕ)) : ℤ) := by
          rw [zpow_neg, zpow_neg]
          exact inv_anti₀ (two_zpow_pos _) (two_zpow_le_ten_zpow _)
      _ ≤ 2 ^ (minExponent - 1) := zpow_le_zpow_right₀ (by norm_num) (by decide)
  · have hpow : (power 10 (-exponent) : ℚ) ≠ 0 :=
      Nat.cast_ne_zero.mpr (power_pos (by decide) _).ne'
    have hvalue : (digits : ℚ) * 10 ^ exponent =
        (digits * power 10 exponent : ℕ) / (power 10 (-exponent) : ℕ) := by
      rw [Nat.cast_mul, cast_power_eq (by decide) exponent]
      field_simp
      rfl
    rw [hvalue]
    exact roundsTo_ofRatio (Nat.mul_pos (Nat.pos_of_ne_zero hzero) (power_pos (by decide) _))
      (power_pos (by decide) _)

end Binary64

end Barnamaj.Decimal

import Barnamaj.Proofs.Decimal.RealText
import Barnamaj.Proofs.Decimal.Rounding
import Mathlib.Data.List.TakeWhile

/-!
# The shortest digits of a number

The test of a grid point decides whether the point rounds to the number
(`Neighbourhood.holds_iff`). A grid of seventeen digits always has such a point, so the search finds
one, and the shortest digits stand for a decimal that rounds to the number
(`Neighbourhood.Normal.contains_value_shortest`).
-/

namespace Barnamaj.Decimal

/-! ### Decimal grids -/

namespace Neighbourhood

variable {v : Neighbourhood}

lemma quarter_pos (v : Neighbourhood) (place : ℤ) : 0 < v.quarter place :=
  Nat.mul_pos (power_pos (by decide) _) (power_pos (by decide) _)

lemma step_pos (v : Neighbourhood) (place : ℤ) : 0 < v.step place :=
  Nat.mul_pos (power_pos (by decide) _) (power_pos (by decide) _)

/-- The scale on which grid points and quarters of the last place are integers. -/
lemma step_mul_unit (v : Neighbourhood) (place : ℤ) :
    (v.step place : ℚ) * v.unit = 10 ^ place * v.quarter place := by
  have hten : (power 10 place : ℚ) = 10 ^ place * power 10 (-place) := cast_power_eq (by decide) _
  have htwo : (power 2 (v.exponent - 2) : ℚ) = 2 ^ (v.exponent - 2) * power 2 (2 - v.exponent) := by
    rw [cast_power_eq (by decide), neg_sub]
    rfl
  rw [step, quarter, unit, Nat.cast_mul, Nat.cast_mul, hten, htwo]
  ring

lemma mul_quarter_le_iff (v : Neighbourhood) (place : ℤ) (a n : ℕ) :
    a * v.quarter place ≤ n * v.step place ↔ a * v.unit ≤ n * 10 ^ place := by
  have hq : (0 : ℚ) < v.quarter place := Nat.cast_pos.mpr (v.quarter_pos place)
  rw [← Nat.cast_le (α := ℚ), Nat.cast_mul, Nat.cast_mul, ← mul_le_mul_iff_left₀ v.unit_pos,
    mul_assoc (n : ℚ), step_mul_unit, ← mul_assoc, mul_right_comm, mul_le_mul_iff_left₀ hq]

lemma le_mul_quarter_iff (v : Neighbourhood) (place : ℤ) (a n : ℕ) :
    n * v.step place ≤ a * v.quarter place ↔ n * 10 ^ place ≤ a * v.unit := by
  have hq : (0 : ℚ) < v.quarter place := Nat.cast_pos.mpr (v.quarter_pos place)
  rw [← Nat.cast_le (α := ℚ), Nat.cast_mul, Nat.cast_mul, ← mul_le_mul_iff_left₀ v.unit_pos,
    mul_assoc (n : ℚ), step_mul_unit, ← mul_assoc, mul_right_comm (a : ℚ), mul_le_mul_iff_left₀ hq]

/-- The test of a grid point decides whether it lies in the interval. -/
lemma holds_iff (v : Neighbourhood) (place : ℤ) (n : ℕ) :
    v.holds place n = true ↔ v.Contains (n * 10 ^ place) := by
  simp only [holds, Contains]
  split
  · simp only [Bool.and_eq_true, decide_eq_true_eq, mul_quarter_le_iff, le_mul_quarter_iff]
  · simp only [Bool.and_eq_true, decide_eq_true_eq, ← not_le, mul_quarter_le_iff,
      le_mul_quarter_iff]

/-! ### The search for the shortest digits -/

lemma holds_of_nearestOn? {place : ℤ} {n : ℕ} (h : v.nearestOn? place = some n) :
    v.holds place n = true := by
  simp only [nearestOn?] at h
  split at h
  · cases h
  · next hbelow _ => cases h; exact hbelow
  · next _ habove => cases h; exact habove
  · next hbelow habove =>
    cases h
    rcases roundDiv_eq_or (4 * v.mantissa * v.quarter place) (v.step place) with hr | hr
    · rw [hr]
      exact hbelow
    · rw [hr]
      exact habove

/-- What the search finds rounds to the number, if the nearest point of the finest grid does. -/
lemma holds_searchFrom (leading : ℤ) (count fuel : ℕ)
    (h : v.holds (leading - (count + fuel : ℕ)) (roundDiv
      (4 * v.mantissa * v.quarter (leading - (count + fuel : ℕ)))
      (v.step (leading - (count + fuel : ℕ)))) = true) :
    v.holds (v.searchFrom leading count fuel).2 (v.searchFrom leading count fuel).1 = true := by
  induction fuel generalizing count with
  | zero => exact h
  | succ fuel ih =>
    rw [searchFrom]
    split
    · next n hn => exact holds_of_nearestOn? hn
    · exact ih (count + 1) (by rwa [Nat.add_right_comm])

end Neighbourhood

/-- A ratio that is not too small is at least the power of ten of its leading digit. -/
lemma zpow_leadingPlace_le {num den : ℕ} (hden : 0 < den) (h : den ≤ num * power 10 400) :
    (10 : ℚ) ^ (leadingPlace num den - 1) ≤ (num : ℚ) / den := by
  have hden' : (0 : ℚ) < den := Nat.cast_pos.mpr hden
  rw [leadingPlace]
  generalize hX : num * power 10 400 / den = X
  have hpos : 0 < X := hX ▸ Nat.div_pos h hden
  have hlength : 0 < (Nat.toDigits 10 X).length := Nat.length_toDigits_pos
  have hfirst : 10 ^ ((Nat.toDigits 10 X).length - 1) ≤ X := by
    by_contra hlt
    by_cases hone : (Nat.toDigits 10 X).length - 1 = 0
    · rw [hone] at hlt
      omega
    · have := (Nat.length_toDigits_le_iff (by decide) (Nat.pos_of_ne_zero hone)).mpr
        (not_le.mp hlt)
      omega
  have hten : (power 10 400 : ℚ) = 10 ^ (400 : ℤ) := by
    rw [cast_power_eq (by decide), show power 10 (-400) = 1 from rfl, Nat.cast_one, mul_one]
    rfl
  have hsplit : (10 : ℚ) ^ (((Nat.toDigits 10 X).length : ℤ) - 400 - 1) * power 10 400 =
      (10 ^ ((Nat.toDigits 10 X).length - 1) : ℕ) := by
    rw [hten, ← zpow_add₀ (by norm_num), Nat.cast_pow, ← zpow_natCast]
    congr 1
    omega
  have hscaled : (10 : ℚ) ^ (((Nat.toDigits 10 X).length : ℤ) - 400 - 1) * power 10 400 ≤
      (num : ℚ) / den * power 10 400 := by
    rw [hsplit, div_mul_eq_mul_div, le_div_iff₀ hden', ← Nat.cast_mul, ← Nat.cast_mul, Nat.cast_le]
    exact (Nat.mul_le_mul_right _ hfirst).trans (hX ▸ Nat.div_mul_le_self _ _)
  exact le_of_mul_le_mul_right hscaled (Nat.cast_pos.mpr (power_pos (by decide) _))

namespace Neighbourhood

variable {v : Neighbourhood}

/-- The place of the leading digit of a number. -/
def leading (v : Neighbourhood) : ℤ :=
  leadingPlace (v.mantissa * power 2 v.exponent) (power 2 (-v.exponent))

lemma Normal.zpow_leading_le (hv : v.Normal) (hm : v.mantissa ≠ 0) :
    (10 : ℚ) ^ (v.leading - 1) ≤ 4 * v.mantissa * v.unit := by
  have hpow : (0 : ℚ) < power 2 (-v.exponent) := Nat.cast_pos.mpr (power_pos (by decide) _)
  have hsmall : power 2 (-v.exponent) ≤ v.mantissa * power 2 v.exponent * power 10 400 := by
    have hleast : -1074 ≤ v.exponent := hv.least
    calc power 2 (-v.exponent) ≤ 2 ^ 1074 := Nat.pow_le_pow_right (by decide) (by omega)
      _ ≤ power 10 400 := by decide +kernel
      _ ≤ v.mantissa * power 2 v.exponent * power 10 400 :=
          Nat.le_mul_of_pos_left _ (Nat.mul_pos (Nat.pos_of_ne_zero hm) (power_pos (by decide) _))
  have hvalue : ((v.mantissa * power 2 v.exponent : ℕ) : ℚ) / power 2 (-v.exponent) =
      4 * v.mantissa * v.unit := by
    rw [Nat.cast_mul, cast_power_eq (by decide), unit, zpow_sub₀ two_ne_zero]
    field_simp
    push_cast
    ring
  exact hvalue ▸ zpow_leadingPlace_le (power_pos (by decide) _) hsmall

/-- The step of the grid of seventeen digits is small against the last place. -/
lemma Normal.step_le (hv : v.Normal) (hm : v.mantissa ≠ 0) :
    10 ^ 16 * v.step (v.leading - 17) ≤ 4 * v.mantissa * v.quarter (v.leading - 17) := by
  have hplace : (10 : ℚ) ^ (v.leading - 1) = 10 ^ 16 * 10 ^ (v.leading - 17) := by
    rw [← zpow_natCast, ← zpow_add₀ (by norm_num)]
    congr 1
    omega
  have hle := hplace ▸ hv.zpow_leading_le hm
  have h := (v.le_mul_quarter_iff (v.leading - 17) (4 * v.mantissa) (10 ^ 16)).mpr
  exact h (by exact_mod_cast hle)

/-- Seventeen digits are always enough. -/
lemma Normal.holds_nearest (hv : v.Normal) (hm : v.mantissa ≠ 0) :
    v.holds (v.leading - 17) (roundDiv (4 * v.mantissa * v.quarter (v.leading - 17))
      (v.step (v.leading - 17))) = true := by
  have hstep := hv.step_le hm
  have hq := v.quarter_pos (v.leading - 17)
  obtain ⟨hlow, hhigh⟩ := roundDiv_near (4 * v.mantissa * v.quarter (v.leading - 17))
    (v.step_pos (v.leading - 17))
  have hlt : v.mantissa ≤ 2 ^ 53 - 1 := Nat.le_sub_one_of_lt hv.lt
  simp only [holds]
  generalize v.quarter (v.leading - 17) = q at *
  generalize v.step (v.leading - 17) = s at *
  generalize roundDiv (4 * v.mantissa * q) s * s = p at *
  rw [Nat.mul_assoc] at hstep hlow hhigh
  have hone : 1 * q ≤ v.mantissa * q := Nat.mul_le_mul_right q (Nat.one_le_iff_ne_zero.mpr hm)
  have hproduct : v.mantissa * q ≤ (2 ^ 53 - 1) * q := Nat.mul_le_mul_right q hlt
  have hlower : v.lower * q < p := by
    rw [lower]
    split_ifs with hpower
    · have hexact : v.mantissa * q = 2 ^ 52 * q := congrArg (· * q) hpower.1
      rw [Nat.sub_mul, Nat.mul_assoc]
      omega
    · rw [Nat.sub_mul, Nat.mul_assoc]
      omega
  have hupper : p < v.upper * q := by
    rw [upper, Nat.add_mul, Nat.mul_assoc]
    omega
  simp only [hlower, hlower.le, hupper, hupper.le, decide_true, Bool.and_self, ite_self]

end Neighbourhood

/-! ### Digits -/

lemma exists_append_zeros (cs : List Char) :
    ∃ k, cs = (cs.reverse.dropWhile (· == '0')).reverse ++ List.replicate k '0' := by
  have hzeros : ∀ c ∈ cs.reverse.takeWhile (· == '0'), c = '0' := fun c hc => by
    simpa using List.mem_takeWhile_imp hc
  refine ⟨(cs.reverse.takeWhile (· == '0')).length, ?_⟩
  rw [← List.reverse_replicate, ← List.eq_replicate_of_mem hzeros, ← List.reverse_append,
    List.takeWhile_append_dropWhile, List.reverse_reverse]

/-- Zeros at the end do not count. -/
lemma Digits.value_strip (n : ℕ) (place : ℤ) :
    value ⟨((Nat.toDigits 10 n).reverse.dropWhile (· == '0')).reverse,
      (Nat.toDigits 10 n).length + place⟩ = n * 10 ^ place := by
  obtain ⟨k, hk⟩ := exists_append_zeros (Nat.toDigits 10 n)
  generalize ((Nat.toDigits 10 n).reverse.dropWhile (· == '0')).reverse = cs at hk ⊢
  have hn : (n : ℚ) = Nat.ofDigitChars 10 cs 0 * 10 ^ (k : ℤ) := by
    rw [← ofDigitChars_append_zeros, ← hk, Nat.ofDigitChars_ten_toDigits]
  have hplace : ((Nat.toDigits 10 n).length : ℤ) + place - cs.length = k + place := by
    rw [hk, List.length_append, List.length_replicate]
    omega
  rw [value, hplace, hn, mul_assoc, ← zpow_add₀ (by norm_num)]

/-- The shortest digits of a number stand for a decimal that rounds to it. -/
lemma Neighbourhood.Normal.contains_value_shortest {v : Neighbourhood} (hv : v.Normal)
    (hm : v.mantissa ≠ 0) : v.Contains v.shortest.value := by
  have hfound := holds_searchFrom v.leading 1 16 (hv.holds_nearest hm)
  rw [holds_iff, ← Digits.value_strip] at hfound
  exact hfound

end Barnamaj.Decimal

import Barnamaj.Decimal.Layout
import Mathlib.Data.Rat.Cast.Order
import Mathlib.Tactic.NormNum
import Mathlib.Tactic.Ring

/-!
# The texts of real numbers

Digits are laid out as a numeral with a point, or with a power of ten that has a sign, or with both
(`Numeral`), and this numeral stands for the value of the digits. So the text of a finite number
that is not negative is neither a word nor the numeral of an integer, and never a single character
(`ShowsReal`).
-/

namespace Barnamaj.Decimal

/-- The characters are digits with the marks of a real number among them. -/
structure ShowsReal (cs : List Char) : Prop where
  digit_or_mark : ∀ c ∈ cs, c.isDigit = true ∨ c ∈ ['.', 'e', '+', '-']
  marked : ∃ c ∈ cs, c ∈ ['.', '+', '-']
  two_le_length : 2 ≤ cs.length

lemma toNat_mem_range_of_isDigit {c : Char} (h : c.isDigit = true) :
    c.toNat ∈ List.range' 48 10 := by
  have hrange : 48 ≤ c.toNat ∧ c.toNat ≤ 57 := Char.isDigit_iff_toNat.mp h
  rw [List.mem_range'_1]
  omega

lemma isDigit_of_mem_toDigits {n : Nat} : ∀ c ∈ Nat.toDigits 10 n, c.isDigit = true :=
  fun _ => Nat.isDigit_of_mem_toDigits (by decide) (by decide)

lemma isDigit_of_mem_replicate {n : Nat} : ∀ c ∈ List.replicate n '0', c.isDigit = true :=
  fun _ hc => List.eq_of_mem_replicate hc ▸ by decide

lemma ofDigitChars_zeros_append (k : ℕ) (cs : List Char) :
    Nat.ofDigitChars 10 (List.replicate k '0' ++ cs) 0 = Nat.ofDigitChars 10 cs 0 := by
  rw [Nat.ofDigitChars_append, Nat.ofDigitChars_replicate_zero, Nat.mul_zero]

lemma ofDigitChars_append_zeros (cs : List Char) (k : ℕ) :
    (Nat.ofDigitChars 10 (cs ++ List.replicate k '0') 0 : ℚ) =
      Nat.ofDigitChars 10 cs 0 * 10 ^ (k : ℤ) := by
  rw [Nat.ofDigitChars_append, Nat.ofDigitChars_replicate_zero, zpow_natCast]
  push_cast
  ring

/-! ### Numerals -/

/-- The digits of a power of ten, at least two. -/
def powerDigits (power : ℤ) : List Char :=
  List.replicate (2 - (Nat.toDigits 10 power.natAbs).length) '0' ++ Nat.toDigits 10 power.natAbs

/-- A power of ten at the end of a text. -/
def powerText (power : ℤ) : List Char :=
  'e' :: (if power < 0 then '-' else '+') :: powerDigits power

lemma isDigit_of_mem_powerDigits (power : ℤ) : ∀ c ∈ powerDigits power, c.isDigit = true :=
  List.forall_mem_append.mpr ⟨isDigit_of_mem_replicate, isDigit_of_mem_toDigits⟩

lemma ofDigitChars_powerDigits (power : ℤ) :
    Nat.ofDigitChars 10 (powerDigits power) 0 = power.natAbs := by
  rw [powerDigits, ofDigitChars_zeros_append, Nat.ofDigitChars_ten_toDigits]

/-- A text is made of the digits of `n`, with a point among them, or a power of ten behind them, or
both, and stands for `n · 10 ^ p`. -/
inductive Numeral : List Char → ℕ → ℤ → Prop where
  | pointed {w f : List Char} (hw : ∀ c ∈ w, c.isDigit = true) (hf : ∀ c ∈ f, c.isDigit = true)
      (hne : w ++ f ≠ []) :
      Numeral (w ++ '.' :: f) (Nat.ofDigitChars 10 (w ++ f) 0) (-f.length)
  | scaled {w : List Char} (hw : ∀ c ∈ w, c.isDigit = true) (p : ℤ) :
      Numeral (w ++ powerText p) (Nat.ofDigitChars 10 w 0) p
  | pointedScaled {w f : List Char} (hw : ∀ c ∈ w, c.isDigit = true)
      (hf : ∀ c ∈ f, c.isDigit = true) (p : ℤ) :
      Numeral (w ++ '.' :: (f ++ powerText p)) (Nat.ofDigitChars 10 (w ++ f) 0) (p - f.length)

lemma digit_or_mark_of_powerText {power : ℤ} :
    ∀ c ∈ powerText power, c.isDigit = true ∨ c ∈ ['.', 'e', '+', '-'] := by
  rw [powerText, List.forall_mem_cons, List.forall_mem_cons]
  refine ⟨.inr (by decide), .inr ?_, fun c hc => .inl (isDigit_of_mem_powerDigits power c hc)⟩
  split <;> decide

lemma exists_mark_powerText (power : ℤ) : ∃ c ∈ powerText power, c ∈ ['.', '+', '-'] :=
  ⟨_, List.mem_cons_of_mem _ List.mem_cons_self, by split <;> decide⟩

lemma Numeral.showsReal {cs : List Char} {n : ℕ} {p : ℤ} (h : Numeral cs n p) : ShowsReal cs := by
  cases h with
  | pointed hw hf hne =>
    refine ⟨?_, ⟨'.', by simp, by decide⟩, ?_⟩
    · rw [List.forall_mem_append, List.forall_mem_cons]
      exact ⟨fun c hc => .inl (hw c hc), .inr (by decide), fun c hc => .inl (hf c hc)⟩
    · have hpos := List.length_pos_iff.mpr hne
      rw [List.length_append] at hpos
      rw [List.length_append, List.length_cons]
      omega
  | scaled hw _ =>
    refine ⟨?_, ?_, ?_⟩
    · rw [List.forall_mem_append]
      exact ⟨fun c hc => .inl (hw c hc), digit_or_mark_of_powerText⟩
    · obtain ⟨c, hc, hmark⟩ := exists_mark_powerText p
      exact ⟨c, List.mem_append_right _ hc, hmark⟩
    · rw [powerText, List.length_append, List.length_cons, List.length_cons]
      omega
  | pointedScaled hw hf _ =>
    refine ⟨?_, ⟨'.', by simp, by decide⟩, ?_⟩
    · rw [List.forall_mem_append, List.forall_mem_cons, List.forall_mem_append]
      exact ⟨fun c hc => .inl (hw c hc), .inr (by decide), fun c hc => .inl (hf c hc),
        digit_or_mark_of_powerText⟩
    · simp only [powerText, List.length_append, List.length_cons]
      omega

namespace Digits

variable {d : Digits}

/-- The number that digits stand for. -/
def value (d : Digits) : ℚ :=
  Nat.ofDigitChars 10 d.digits 0 * 10 ^ (d.point - d.digits.length)

/-- Around the point there are zeros where the digits do not reach it. -/
lemma numeral_positional (hd : ∀ c ∈ d.digits, c.isDigit = true) :
    ∃ n p, Numeral (d.positional .real) n p ∧ (n * 10 ^ p : ℚ) = d.value := by
  rw [positional, value]
  split_ifs with hsmall hwhole
  · have hfraction : ∀ c ∈ List.replicate (-d.point).toNat '0' ++ d.digits, c.isDigit = true :=
      List.forall_mem_append.mpr ⟨isDigit_of_mem_replicate, hd⟩
    refine ⟨_, _, .pointed (w := ['0']) (f := List.replicate (-d.point).toNat '0' ++ d.digits)
      (isDigit_of_mem_replicate (n := 1)) hfraction (List.cons_ne_nil _ _), ?_⟩
    rw [← List.replicate_one, ofDigitChars_zeros_append, ofDigitChars_zeros_append,
      List.length_append, List.length_replicate]
    congr 2
    omega
  · have hdigits : ∀ c ∈ d.digits ++ List.replicate (d.point.toNat - d.digits.length) '0',
        c.isDigit = true := List.forall_mem_append.mpr ⟨hd, isDigit_of_mem_replicate⟩
    refine ⟨_, _, .pointed (f := ['0']) hdigits (isDigit_of_mem_replicate (n := 1))
      (List.append_ne_nil_of_right_ne_nil _ (List.cons_ne_nil _ _)), ?_⟩
    rw [List.append_assoc, ← List.replicate_one, List.replicate_append_replicate,
      ofDigitChars_append_zeros, mul_assoc, ← zpow_add₀ (by norm_num), List.length_replicate]
    congr 2
    omega
  · have hne : d.digits.drop d.point.toNat ≠ [] := by
      rw [Ne, List.drop_eq_nil_iff]
      omega
    refine ⟨_, _, .pointed (fun c hc => hd c (List.mem_of_mem_take hc))
      (fun c hc => hd c (List.mem_of_mem_drop hc))
      (List.append_ne_nil_of_right_ne_nil _ hne), ?_⟩
    rw [List.take_append_drop, List.length_drop]
    congr 2
    omega

/-- The power of ten is that of the first digit, and the others stand behind a point. -/
lemma numeral_scientific (hd : ∀ c ∈ d.digits, c.isDigit = true) :
    ∃ n p, Numeral (d.scientific .real) n p ∧ (n * 10 ^ p : ℚ) = d.value := by
  rw [value]
  rcases hdigits : d.digits with _ | ⟨c, _ | ⟨c', cs⟩⟩
  · have htext : d.scientific .real = [] ++ powerText (d.point - 1) := by
      simp [scientific, hdigits, powerText, powerDigits, Layout.real]
    rw [htext]
    exact ⟨_, _, .scaled (by simp) _, by simp [Nat.ofDigitChars]⟩
  · have htext : d.scientific .real = [c] ++ powerText (d.point - 1) := by
      simp [scientific, hdigits, powerText, powerDigits, Layout.real]
    rw [hdigits] at hd
    rw [htext]
    exact ⟨_, _, .scaled hd _, by simp⟩
  · have htext : d.scientific .real =
        [c] ++ '.' :: ((c' :: cs) ++ powerText (d.point - 1)) := by
      simp [scientific, hdigits, powerText, powerDigits, Layout.real]
    rw [hdigits, List.forall_mem_cons] at hd
    rw [htext]
    refine ⟨_, _, .pointedScaled (by simpa using hd.1) hd.2 _, ?_⟩
    simp only [List.singleton_append, List.length_cons]
    congr 2
    push_cast
    ring

/-- Digits are laid out as a numeral with their value. -/
lemma numeral_text (hd : ∀ c ∈ d.digits, c.isDigit = true) :
    ∃ n p, Numeral (d.text .real) n p ∧ (n * 10 ^ p : ℚ) = d.value := by
  rw [text]
  split
  · exact numeral_positional hd
  · exact numeral_scientific hd

end Digits

/-! ### Numbers -/

lemma Neighbourhood.isDigit_of_mem_shortest (v : Neighbourhood) :
    ∀ c ∈ v.shortest.digits, c.isDigit = true := by
  intro c hc
  rw [shortest, List.mem_reverse] at hc
  have hmem := (List.dropWhile_sublist _).subset hc
  exact isDigit_of_mem_toDigits c (List.mem_reverse.mp hmem)

namespace Binary64

lemma toList_text_zero (exponent : Int) :
    (text (.finite false 0 exponent)).toList = ['0', '.', '0'] := by
  simp [text, Layout.real]

lemma toList_text_of_ne_zero {mantissa : Nat} (h : mantissa ≠ 0) (exponent : Int) :
    (text (.finite false mantissa exponent)).toList =
      (Neighbourhood.shortest ⟨mantissa, exponent⟩).text .real := by
  simp [text, h]

lemma showsReal_text (mantissa : Nat) (exponent : Int) :
    ShowsReal (text (.finite false mantissa exponent)).toList := by
  by_cases h : mantissa = 0
  · rw [h, toList_text_zero]
    exact (Numeral.pointed (w := ['0']) (f := ['0']) (isDigit_of_mem_replicate (n := 1))
      (isDigit_of_mem_replicate (n := 1)) (List.cons_ne_nil _ _)).showsReal
  · rw [toList_text_of_ne_zero h]
    obtain ⟨n, p, hnumeral, -⟩ := Digits.numeral_text (Neighbourhood.isDigit_of_mem_shortest _)
    exact hnumeral.showsReal

end Binary64

end Barnamaj.Decimal

import Barnamaj.Decimal.Reading
import Barnamaj.Proofs.Decimal.ShortestDigits

/-!
# Real numbers read back from their texts

The decimal that is read from a numeral is the one that the numeral stands for. The text of a number
is the numeral of a decimal that rounds to the number, so the number is read back from it
(`Binary64.ofText?_text`), and different numbers have different texts.
-/

namespace Barnamaj.Decimal

open Text

/-! ### Digits -/

lemma digitValue?_of_isDigit {c : Char} (h : c.isDigit = true) :
    digitValue? c = some (c.toNat - 48) := by
  have hrange : 48 ≤ c.toNat ∧ c.toNat ≤ 57 := Char.isDigit_iff_toNat.mp h
  rw [digitValue?, zeroDigits, digitValueIn, if_neg (by omega), if_pos (by omega)]

lemma isDigit_of_isDigit {c : Char} (h : c.isDigit = true) : isDigit c = true := by
  rw [isDigit, digitValue?_of_isDigit h, Option.isSome_some]

lemma numeral_eq_ofDigitChars {cs : List Char} (h : ∀ c ∈ cs, c.isDigit = true) :
    numeral cs = Nat.ofDigitChars 10 cs 0 := by
  rw [numeral, numeralFrom, Nat.ofDigitChars]
  refine List.foldl_ext _ _ _ fun n c hc => ?_
  rw [digitValue?_of_isDigit (h c hc)]
  rfl

/-- What follows a run of digits does not go on with it. -/
def Stops (rest : List Char) : Prop :=
  ∀ c ∈ rest.head?, c ≠ '_' ∧ isDigit c = false

lemma stops_nil : Stops [] := by
  simp [Stops]

lemma stops_powerText (p : ℤ) : Stops (powerText p) := by
  rintro c hc
  cases hc
  decide

lemma splitDigits_cons {c : Char} (hc : c ≠ '_') (cs : List Char) :
    splitDigits (c :: cs) =
      if isDigit c then (c :: (splitDigits cs).1, (splitDigits cs).2) else ([], c :: cs) := by
  rw [splitDigits]
  exact fun _ _ h _ => hc h

lemma splitDigits_append {w rest : List Char} (hw : ∀ c ∈ w, c.isDigit = true)
    (hrest : Stops rest) : splitDigits (w ++ rest) = (w, rest) := by
  induction w with
  | nil =>
    rcases rest with _ | ⟨c, rest⟩
    · rfl
    · obtain ⟨hc, hdigit⟩ := hrest c rfl
      rw [List.nil_append, splitDigits_cons hc, if_neg (by simp [hdigit])]
  | cons c w ih =>
    rw [List.forall_mem_cons] at hw
    rw [List.cons_append, splitDigits_cons (by rintro rfl; simp at hw),
      if_pos (isDigit_of_isDigit hw.1), ih hw.2]

/-- The digits in front are split off, up to what stops them. -/
lemma leadingDigits_append {w rest : List Char} (hw : ∀ c ∈ w, c.isDigit = true)
    (hrest : Stops rest) : leadingDigits (w ++ rest) = (w, rest) := by
  rw [leadingDigits]
  · exact splitDigits_append hw hrest
  · intro tail htail
    rcases w with _ | ⟨c, w⟩
    · exact (hrest '_' (by rw [← List.nil_append rest, htail]; rfl)).1 rfl
    · cases htail
      simp at hw

lemma leadingDigits_of_isDigit {w : List Char} (hw : ∀ c ∈ w, c.isDigit = true) :
    leadingDigits w = (w, []) := by
  have h := leadingDigits_append hw stops_nil
  rwa [List.append_nil] at h

/-! ### Numerals -/

lemma powerDigits_ne_nil (p : ℤ) : powerDigits p ≠ [] :=
  List.append_ne_nil_of_right_ne_nil _ (List.ne_nil_of_length_pos Nat.length_toDigits_pos)

lemma readPower_powerText (p : ℤ) : readPower (powerText p) = some p := by
  have hvalue : numeral (powerDigits p) = p.natAbs := by
    rw [numeral_eq_ofDigitChars (isDigit_of_mem_powerDigits p), ofDigitChars_powerDigits]
  have hdigits := leadingDigits_of_isDigit (isDigit_of_mem_powerDigits p)
  obtain ⟨c, cs, hcons⟩ := List.exists_cons_of_ne_nil (powerDigits_ne_nil p)
  rw [hcons] at hvalue hdigits
  rw [powerText, hcons]
  by_cases hp : p < 0
  · rw [if_pos hp]
    simp only [readPower, splitSign, hdigits, hvalue, if_true]
    congr 1
    omega
  · rw [if_neg hp]
    simp only [readPower, splitSign, hdigits, hvalue, Bool.false_eq_true, if_false]
    congr 1
    omega

/-- A fraction behind a point is read with the digits in front of it. -/
lemma readMagnitude_pointed {w f rest : List Char} (negative : Bool)
    (hw : ∀ c ∈ w, c.isDigit = true) (hf : ∀ c ∈ f, c.isDigit = true) (hne : w ++ f ≠ [])
    (hrest : Stops rest) :
    readMagnitude negative (w ++ '.' :: (f ++ rest)) = (readPower rest).map fun p =>
      .ofDecimal negative (Nat.ofDigitChars 10 (w ++ f) 0) (p - f.length) := by
  have hpoint : Stops ('.' :: (f ++ rest)) := by
    rintro c hc
    cases hc
    decide
  have hdigits := List.forall_mem_append.mpr ⟨hw, hf⟩
  simp only [readMagnitude, leadingDigits_append hw hpoint, leadingDigits_append hf hrest]
  rw [if_neg (by simpa using hne), numeral_eq_ofDigitChars hdigits]

lemma readMagnitude_scaled {w : List Char} (negative : Bool) (hw : ∀ c ∈ w, c.isDigit = true)
    (hne : w ≠ []) (p : ℤ) :
    readMagnitude negative (w ++ powerText p) =
      some (.ofDecimal negative (Nat.ofDigitChars 10 w 0) p) := by
  have hread : readMagnitude negative (w ++ powerText p) =
      (readPower (powerText p)).map fun p => .ofDecimal negative (numeral (w ++ [])) (p - 0) := by
    simp only [readMagnitude, leadingDigits_append hw (stops_powerText p)]
    rw [powerText]
    simp [hne]
  rw [hread, readPower_powerText, List.append_nil, numeral_eq_ofDigitChars hw]
  simp

/-- The decimal of a numeral is read from it. -/
lemma Numeral.readMagnitude_eq {cs : List Char} {n : ℕ} {p : ℤ} (h : Numeral cs n p) (hn : n ≠ 0)
    (negative : Bool) : readMagnitude negative cs = some (.ofDecimal negative n p) := by
  have hne : ∀ {cs : List Char}, Nat.ofDigitChars 10 cs 0 ≠ 0 → cs ≠ [] := by
    rintro cs h rfl
    exact h rfl
  cases h with
  | @pointed w f hw hf hne =>
    have h := readMagnitude_pointed negative hw hf hne stops_nil
    rw [List.append_nil] at h
    rw [h, readPower, Option.map_some, zero_sub]
  | scaled hw _ => exact readMagnitude_scaled negative hw (hne hn) p
  | pointedScaled hw hf p =>
    rw [readMagnitude_pointed negative hw hf (hne hn) (stops_powerText p), readPower_powerText,
      Option.map_some]

lemma splitSign_append {w : List Char} {c : Char} (rest : List Char)
    (hw : ∀ c ∈ w, c.isDigit = true) (hc : c ∉ ['-', '+']) :
    splitSign (w ++ c :: rest) = (false, w ++ c :: rest) := by
  have hhead : ∀ b ∈ (w ++ c :: rest).head?, b ∉ ['-', '+'] := by
    rcases w with _ | ⟨d, w⟩
    · rintro b hb
      cases hb
      exact hc
    · rintro b hb
      cases hb
      intro hmem
      simp only [List.mem_cons, List.not_mem_nil, or_false] at hmem
      rcases hmem with rfl | rfl <;> simp at hw
  rw [splitSign]
  · rintro tail htail
    exact hhead '-' (by rw [htail]; rfl) (by decide)
  · rintro tail htail
    exact hhead '+' (by rw [htail]; rfl) (by decide)

lemma Numeral.splitSign_eq {cs : List Char} {n : ℕ} {p : ℤ} (h : Numeral cs n p) :
    splitSign cs = (false, cs) := by
  cases h with
  | pointed hw _ _ => exact splitSign_append _ hw (by decide)
  | scaled hw _ => exact splitSign_append _ hw (by decide)
  | pointedScaled hw _ _ => exact splitSign_append _ hw (by decide)

/-- In the texts of real numbers there are no blanks, no capitals, and none of the letters that the
words for numbers begin with. -/
lemma ShowsReal.plain {cs : List Char} (h : ShowsReal cs) :
    ∀ c ∈ cs, isBlank c = false ∧ c.toLower = c ∧ c ≠ 'i' ∧ c ≠ 'n' := by
  intro c hc
  rcases h.digit_or_mark c hc with hd | hm
  · have htable : ∀ n ∈ List.range' 48 10, isBlank (Char.ofNat n) = false ∧
        (Char.ofNat n).toLower = Char.ofNat n ∧ Char.ofNat n ≠ 'i' ∧ Char.ofNat n ≠ 'n' := by
      decide +kernel
    simpa using htable c.toNat (toNat_mem_range_of_isDigit hd)
  · have htable : ∀ c ∈ ['.', 'e', '+', '-'],
        isBlank c = false ∧ c.toLower = c ∧ c ≠ 'i' ∧ c ≠ 'n' := by
      simp [isBlank, blankRanges, RangeTable.contains, liesIn]
    exact htable c hm

lemma trimBlanks_eq_self {cs : List Char} (h : ∀ c ∈ cs, isBlank c = false) :
    trimBlanks cs = cs := by
  have hdrop : ∀ {l : List Char}, (∀ c ∈ l, isBlank c = false) → l.dropWhile isBlank = l := by
    intro l hl
    cases l with
    | nil => rfl
    | cons c l => exact List.dropWhile_cons_of_neg (by simp [hl])
  rw [trimBlanks, hdrop h, hdrop (by simpa using h), List.reverse_reverse]

/-- A numeral is read as the decimal that it stands for. -/
lemma Numeral.ofText?_eq {s : String} {n : ℕ} {p : ℤ} (h : Numeral s.toList n p) (hn : n ≠ 0) :
    Binary64.ofText? s = some (.ofDecimal false n p) := by
  have hcs := h.showsReal.plain
  have htrim : trimBlanks s.toList = s.toList := trimBlanks_eq_self fun c hc => (hcs c hc).1
  have hlower : s.toList.map Char.toLower = s.toList :=
    (List.map_congr_left fun c hc => (hcs c hc).2.1).trans (List.map_id _)
  have hword : ∀ t : String, 'i' ∈ t.toList ∨ 'n' ∈ t.toList → s ≠ t := by
    rintro t (hi | hn) rfl
    · exact (hcs _ hi).2.2.1 rfl
    · exact (hcs _ hn).2.2.2 rfl
  simp only [Binary64.ofText?, htrim, h.splitSign_eq, hlower, String.ofList_toList]
  split
  · exact absurd rfl (hword _ (by decide))
  · exact absurd rfl (hword _ (by decide))
  · exact absurd rfl (hword _ (by decide))
  · exact h.readMagnitude_eq hn false

namespace Binary64

/-- A number is read back from its text. -/
theorem ofText?_text {x : ℚ} {r : Binary64} (h : RoundsTo x r) : ofText? r.text = some r := by
  cases h with
  | @finite m e hv hx =>
    by_cases hm : m = 0
    · subst hm
      obtain rfl : e = minExponent := hv.leading.resolve_right
        (show ¬ mantissaBound / 2 ≤ 0 by decide)
      decide +kernel
    · obtain ⟨n, p, hnumeral, hvalue⟩ :=
        Digits.numeral_text (Neighbourhood.isDigit_of_mem_shortest ⟨m, e⟩)
      rw [← toList_text_of_ne_zero hm] at hnumeral
      have hround := hv.contains_value_shortest hm
      rw [← hvalue] at hround
      have hn : n ≠ 0 := by
        rintro rfl
        simpa using hround.pos hm
      rw [hnumeral.ofText?_eq hn, (roundsTo_ofDecimal n p).unique (.finite hv hround)]
  | infinity _ => decide +kernel

/-- Different numbers have different texts. -/
lemma RoundsTo.text_injective {x x' : ℚ} {r r' : Binary64} (h : RoundsTo x r) (h' : RoundsTo x' r')
    (htext : r.text = r'.text) : r = r' := by
  have hread := ofText?_text h
  rw [htext, ofText?_text h'] at hread
  exact (Option.some.inj hread).symm

end Binary64

end Barnamaj.Decimal

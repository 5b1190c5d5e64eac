import Barnamaj.Text.Quoted
import Mathlib.Algebra.Group.Nat.Defs
import Mathlib.Data.Nat.Init
import Mathlib.Tactic.Common

/-!
# Quoted texts are told apart

Between the quotes, every character is written in one of three forms (`Escapes`). Where one form
ends shows from the left, so what is between the quotes is read back character by character:
different texts are different when quoted. A quoted text stands on one line.
-/

namespace Barnamaj.Text

/-! ### Hexadecimal digits -/

lemma digitChar_injective {m n : ℕ} (hm : m < 16) (hn : n < 16)
    (h : m.digitChar = n.digitChar) : m = n := by
  have htable : ∀ m < 16, ∀ n < 16, Nat.digitChar m = Nat.digitChar n → m = n := by decide
  exact htable m hm n hn h

/-- The digits in front of the last one. -/
lemma hexadecimal_succ {width : ℕ} (hw : 0 < width) (n : ℕ) :
    hexadecimal (width + 1) n = hexadecimal width (n / 16) ++ [(n % 16).digitChar] := by
  simp only [hexadecimal]
  by_cases hn : n < 16
  · rw [Nat.toDigits_of_lt_base hn, Nat.div_eq_of_lt hn, Nat.mod_eq_of_lt hn, Nat.toDigits_zero,
      ← List.replicate_succ']
    congr 2
    simp only [List.length_singleton]
    omega
  · rw [Nat.toDigits_of_base_le (by decide) (by omega), List.length_append, List.length_singleton,
      Nat.add_sub_add_right, List.append_assoc]

lemma hexadecimal_one {n : ℕ} (hn : n < 16) : hexadecimal 1 n = [n.digitChar] := by
  rw [hexadecimal, Nat.toDigits_of_lt_base hn]
  rfl

lemma length_hexadecimal {width n : ℕ} (hw : 0 < width) (hn : n < 16 ^ width) :
    (hexadecimal width n).length = width := by
  have hle : (Nat.toDigits 16 n).length ≤ width :=
    (Nat.length_toDigits_le_iff (by decide) hw).mpr hn
  simp only [hexadecimal, List.length_append, List.length_replicate]
  omega

lemma hexadecimal_injective {width m n : ℕ} (hw : 0 < width) (hm : m < 16 ^ width)
    (hn : n < 16 ^ width) (h : hexadecimal width m = hexadecimal width n) : m = n := by
  induction width, hw using Nat.le_induction generalizing m n with
  | base =>
    rw [Nat.pow_one] at hm hn
    rw [hexadecimal_one hm, hexadecimal_one hn] at h
    exact digitChar_injective hm hn (List.singleton_inj.mp h)
  | succ width hw ih =>
    rw [hexadecimal_succ hw, hexadecimal_succ hw] at h
    obtain ⟨hinit, hlast⟩ := List.append_inj' h rfl
    have hdiv : m / 16 = n / 16 :=
      ih (Nat.div_lt_of_lt_mul (by omega)) (Nat.div_lt_of_lt_mul (by omega)) hinit
    have hmod : m % 16 = n % 16 := digitChar_injective (Nat.mod_lt _ (by decide))
      (Nat.mod_lt _ (by decide)) (List.singleton_inj.mp hlast)
    omega

lemma notMem_newline_hexadecimal {width n : ℕ} (hw : 0 < width) (hn : n < 16 ^ width) :
    '\n' ∉ hexadecimal width n := by
  have htable : ∀ k < 16, '\n' ≠ Nat.digitChar k := by decide
  induction width, hw using Nat.le_induction generalizing n with
  | base =>
    rw [Nat.pow_one] at hn
    rw [hexadecimal_one hn, List.mem_singleton]
    exact htable n hn
  | succ width hw ih =>
    rw [hexadecimal_succ hw, List.mem_append, List.mem_singleton, not_or]
    exact ⟨ih (Nat.div_lt_of_lt_mul (by omega)), htable _ (Nat.mod_lt _ (by decide))⟩

/-! ### Escapes -/

/-- The characters that are written with a letter or a sign behind a backslash. -/
def marked (quote : Char) : List (Char × Char) :=
  [('\\', '\\'), (quote, quote), ('t', '\t'), ('n', '\n'), ('r', '\r')]

/-- The letters in front of a code point, and the number of its digits. -/
def widths : List (Char × ℕ) := [('x', 2), ('u', 4), ('U', 8)]

/-- How a character is written between two quotes. -/
inductive Escapes (quote : Char) : Char → List Char → Prop where
  | plain {c : Char} (hc : c ∉ ['\\', quote, '\n']) : Escapes quote c [c]
  | marked {k c : Char} (hk : (k, c) ∈ marked quote) : Escapes quote c ['\\', k]
  | numeric {k c : Char} {width : ℕ} (hk : (k, width) ∈ widths) (hc : c.toNat < 16 ^ width) :
      Escapes quote c ('\\' :: k :: hexadecimal width c.toNat)

lemma escapes_numericEscape (quote c : Char) : Escapes quote c (numericEscape c) := by
  have hmax : c.toNat < 0x110000 := by
    rcases c.valid with h | ⟨-, h⟩
    · exact Nat.lt_trans h (by decide)
    · exact h
  rw [numericEscape]
  split_ifs with h h'
  · exact .numeric (show ('x', 2) ∈ widths by decide) h
  · exact .numeric (show ('u', 4) ∈ widths by decide) h'
  · exact .numeric (show ('U', 8) ∈ widths by decide) (Nat.lt_trans hmax (by decide))

lemma escapes_escape (quote c : Char) : Escapes quote c (escape quote c) := by
  rw [escape]
  split_ifs with h ht hn hr hp
  · rcases h with rfl | rfl
    · exact .marked (by simp [marked])
    · exact .marked (by simp [marked])
  · exact .marked (by simp [marked, ht])
  · exact .marked (by simp [marked, hn])
  · exact .marked (by simp [marked, hr])
  · exact .plain (by simp_all)
  · exact escapes_numericEscape quote c

/-- The quotes that surround texts. -/
def quotes : List Char := ['\'', '"']

lemma quoteFor_mem_quotes (cs : List Char) : quoteFor cs ∈ quotes := by
  rw [quoteFor]
  split <;> decide

/-! The tables are checked as lists. -/

lemma ne_of_mem_quotes {quote : Char} (hq : quote ∈ quotes) : '\\' ≠ quote ∧ '\n' ≠ quote := by
  have htable : (quotes.all fun q => '\\' != q && '\n' != q) = true := by decide
  simp only [List.all_eq_true, Bool.and_eq_true, bne_iff_ne] at htable
  exact htable quote hq

lemma newline_ne_of_mem_marked {quote : Char} (hq : quote ∈ quotes) {x : Char × Char}
    (hx : x ∈ marked quote) : '\n' ≠ x.1 := by
  have htable : (quotes.all fun q => (marked q).all fun x => '\n' != x.1) = true := by decide
  simp only [List.all_eq_true, bne_iff_ne] at htable
  exact htable quote hq x hx

lemma marked_inj {quote : Char} (hq : quote ∈ quotes) {x y : Char × Char}
    (hx : x ∈ marked quote) (hy : y ∈ marked quote) (h : x.1 = y.1) : x = y := by
  have htable : (quotes.all fun q => (marked q).all fun x => (marked q).all fun y =>
      x.1 != y.1 || x == y) = true := by
    decide
  simp only [List.all_eq_true, Bool.or_eq_true, bne_iff_ne, beq_iff_eq] at htable
  exact (htable quote hq x hx y hy).resolve_left (absurd h)

lemma pos_of_mem_widths {x : Char × ℕ} (hx : x ∈ widths) : 0 < x.2 ∧ '\n' ≠ x.1 := by
  have htable : (widths.all fun x => decide (0 < x.2) && '\n' != x.1) = true := by decide
  simp only [List.all_eq_true, Bool.and_eq_true, decide_eq_true_eq, bne_iff_ne] at htable
  exact htable x hx

lemma widths_inj {x y : Char × ℕ} (hx : x ∈ widths) (hy : y ∈ widths) (h : x.1 = y.1) :
    x = y := by
  have htable : (widths.all fun x => widths.all fun y => x.1 != y.1 || x == y) = true := by decide
  simp only [List.all_eq_true, Bool.or_eq_true, bne_iff_ne, beq_iff_eq] at htable
  exact (htable x hx y hy).resolve_left (absurd h)

lemma marked_ne_widths {quote : Char} (hq : quote ∈ quotes) {x : Char × Char} {y : Char × ℕ}
    (hx : x ∈ marked quote) (hy : y ∈ widths) : x.1 ≠ y.1 := by
  have htable : (quotes.all fun q => (marked q).all fun x => widths.all fun y => x.1 != y.1) =
      true := by
    decide
  simp only [List.all_eq_true, bne_iff_ne] at htable
  exact htable quote hq x hx y hy

namespace Escapes

variable {quote c c' : Char} {w w' r r' : List Char}

lemma notMem_newline (hq : quote ∈ quotes) (h : Escapes quote c w) : '\n' ∉ w := by
  cases h with
  | plain hc =>
    simp only [List.mem_cons, List.not_mem_nil, or_false, not_or] at hc
    simpa [eq_comm] using hc.2.2
  | marked hk => simpa using newline_ne_of_mem_marked hq hk
  | numeric hk hc =>
    obtain ⟨hpos, hne⟩ := pos_of_mem_widths hk
    simpa [hne] using notMem_newline_hexadecimal hpos hc

/-- The closing quote does not start a character. -/
lemma ne_cons_quote (hq : quote ∈ quotes) (h : Escapes quote c w) : w ++ r ≠ quote :: r' := by
  intro heq
  cases h with
  | plain hc => exact hc (by simp [(List.cons.inj heq).1])
  | marked hk => exact (ne_of_mem_quotes hq).1 (List.cons.inj heq).1
  | numeric hk hc => exact (ne_of_mem_quotes hq).1 (List.cons.inj heq).1

/-- A character is read back from the left. -/
lemma inj (hq : quote ∈ quotes) (h : Escapes quote c w) (h' : Escapes quote c' w')
    (heq : w ++ r = w' ++ r') : c = c' ∧ r = r' := by
  cases h with
  | plain hc =>
    have hbackslash := List.ne_of_not_mem_cons hc
    cases h' with
    | plain hc' => simpa using heq
    | marked hk' => exact absurd (List.cons.inj heq).1 hbackslash
    | numeric hk' hc' => exact absurd (List.cons.inj heq).1 hbackslash
  | marked hk =>
    cases h' with
    | plain hc' => exact absurd (List.cons.inj heq).1.symm (List.ne_of_not_mem_cons hc')
    | marked hk' =>
      simp only [List.cons_append, List.nil_append, List.cons.injEq, true_and] at heq
      exact ⟨congrArg Prod.snd (marked_inj hq hk hk' heq.1), heq.2⟩
    | numeric hk' hc' =>
      simp only [List.cons_append, List.nil_append, List.cons.injEq, true_and] at heq
      exact absurd heq.1 (marked_ne_widths hq hk hk')
  | @numeric k _ width hk hc =>
    cases h' with
    | plain hc' => exact absurd (List.cons.inj heq).1.symm (List.ne_of_not_mem_cons hc')
    | marked hk' =>
      simp only [List.cons_append, List.nil_append, List.cons.injEq, true_and] at heq
      exact absurd heq.1.symm (marked_ne_widths hq hk' hk)
    | @numeric k' _ width' hk' hc' =>
      simp only [List.cons_append, List.cons.injEq, true_and] at heq
      obtain rfl : width = width' := congrArg Prod.snd (widths_inj hk hk' heq.1)
      have hpos : 0 < width := (pos_of_mem_widths hk).1
      have hlength : (hexadecimal width c.toNat).length = (hexadecimal width c'.toNat).length := by
        rw [length_hexadecimal hpos hc, length_hexadecimal hpos hc']
      obtain ⟨hhex, hr⟩ := List.append_inj heq.2 hlength
      exact ⟨Char.ext (UInt32.toNat_inj.mp (hexadecimal_injective hpos hc hc' hhex)), hr⟩

end Escapes

/-! ### Texts -/

lemma flatMap_escape_injective {quote : Char} (hq : quote ∈ quotes) {cs cs' : List Char}
    (h : cs.flatMap (escape quote) ++ [quote] = cs'.flatMap (escape quote) ++ [quote]) :
    cs = cs' := by
  induction cs generalizing cs' with
  | nil =>
    cases cs' with
    | nil => rfl
    | cons c' cs' =>
      rw [List.flatMap_cons, List.append_assoc] at h
      exact absurd h.symm ((escapes_escape quote c').ne_cons_quote hq)
  | cons c cs ih =>
    cases cs' with
    | nil =>
      rw [List.flatMap_cons, List.append_assoc] at h
      exact absurd h ((escapes_escape quote c).ne_cons_quote hq)
    | cons c' cs' =>
      simp only [List.flatMap_cons, List.append_assoc] at h
      obtain ⟨rfl, hrest⟩ := (escapes_escape quote c).inj hq (escapes_escape quote c') h
      rw [ih hrest]

/-- Different texts are different when quoted. -/
lemma quoted_injective {s s' : String} (h : quoted s = quoted s') : s = s' := by
  have hlist := congrArg String.toList h
  simp only [quoted, String.toList_ofList, List.cons_append, List.cons.injEq] at hlist
  obtain ⟨hquote, hbody⟩ := hlist
  rw [← hquote] at hbody
  exact String.toList_inj.mp (flatMap_escape_injective (quoteFor_mem_quotes _) hbody)

/-- A quoted text stands on one line. -/
lemma notMem_newline_quoted (s : String) : '\n' ∉ (quoted s).toList := by
  have hq := quoteFor_mem_quotes s.toList
  have hne := (ne_of_mem_quotes hq).2
  simp only [quoted, String.toList_ofList, List.cons_append, List.mem_cons, List.mem_append,
    List.mem_flatMap, List.not_mem_nil, or_false]
  rintro (h | ⟨c, -, hc⟩ | h)
  · exact hne h
  · exact (escapes_escape _ c).notMem_newline hq hc
  · exact hne h

end Barnamaj.Text

import Barnamaj.Proofs.Code.Forms
import Barnamaj.Proofs.Token.LongestMatch
import Mathlib.Data.List.Forall2
import Mathlib.Data.Nat.Digits.Defs

/-!
# Numbers

A number starts with a run of digits that goes on as far as it can (`Text.DigitRun`). The digits may
be of any scripts, each of them stands for a number below ten (`Text.IsDigitFor`), and the run for
the number that has these digits in base ten. With a point behind it the run is the beginning of a
real constant, whatever its length, and otherwise an integer constant, unless it is too long or its
number too large. So the integer constants of compiled code are all in range.
-/

namespace Barnamaj

namespace Text

/-! ### Digits -/

/-- The character is the digit for a number in the run of ten digits of some script. -/
def IsDigitFor (c : Char) (d : ℕ) : Prop :=
  d < 10 ∧ ∃ first ∈ zeroDigits, c.toNat = first + d

/-- The number that has the given digits in base ten, the last of them for the units. -/
def baseTen (ds : List ℕ) : ℕ := Nat.ofDigits 10 ds.reverse

/-- A text starts with a run of digits for the given numbers, and the rest does not go on with it. -/
structure DigitRun (text run : List Char) (ds : List ℕ) (rest : List Char) : Prop where
  text_eq : text = run ++ rest
  digits : List.Forall₂ IsDigitFor run ds
  ends : ∀ x ∈ rest.head?, isDigit x = false

variable {c : Char} {d n : ℕ} {cs : List Char} {ds : List ℕ}

/-- Where the runs of ten do not overlap, each of them counts. -/
lemma digitValueIn_eq_some_iff {zeros : List ℕ} (h : zeros.Pairwise fun a b => a + 10 ≤ b) :
    digitValueIn zeros n = some d ↔ d < 10 ∧ ∃ first ∈ zeros, n = first + d := by
  induction zeros with
  | nil => simp [digitValueIn]
  | cons first zeros ih =>
    obtain ⟨hfirst, hzeros⟩ := List.pairwise_cons.mp h
    have hlater : ∀ later ∈ zeros, n = later + d → first + 10 ≤ n := by
      rintro later hmem rfl
      exact (hfirst later hmem).trans (Nat.le_add_right later d)
    rw [digitValueIn, List.exists_mem_cons_iff]
    split_ifs with hbelow hrun
    · simp only [false_iff, not_and]
      rintro - (heq | ⟨later, hmem, heq⟩)
      · omega
      · have := hlater later hmem heq
        omega
    · rw [Option.some.injEq]
      constructor
      · rintro rfl
        exact ⟨by omega, Or.inl (by omega)⟩
      · rintro ⟨-, heq | ⟨later, hmem, heq⟩⟩
        · omega
        · have := hlater later hmem heq
          omega
    · rw [ih hzeros]
      refine and_congr_right fun hd => ?_
      rw [or_iff_right]
      omega

lemma digitValue?_eq_some_iff : digitValue? c = some d ↔ IsDigitFor c d := by
  have happart : zeroDigits.Pairwise fun a b => a + 10 ≤ b := by decide +kernel
  exact digitValueIn_eq_some_iff happart

lemma isDigit_iff : isDigit c = true ↔ ∃ d, IsDigitFor c d := by
  rw [isDigit, Option.isSome_iff_exists]
  exact exists_congr fun _ => digitValue?_eq_some_iff

lemma exists_digits_of_isDigit (h : ∀ x ∈ cs, isDigit x = true) :
    ∃ ds, List.Forall₂ IsDigitFor cs ds := by
  induction cs with
  | nil => exact ⟨[], .nil⟩
  | cons x cs ih =>
    obtain ⟨hx, hcs⟩ := List.forall_mem_cons.mp h
    obtain ⟨d, hd⟩ := isDigit_iff.mp hx
    obtain ⟨ds, hds⟩ := ih hcs
    exact ⟨d :: ds, .cons hd hds⟩

lemma isDigit_of_digits (h : List.Forall₂ IsDigitFor cs ds) : ∀ x ∈ cs, isDigit x = true := by
  induction h with
  | nil => simp
  | cons hd _ ih => exact List.forall_mem_cons.mpr ⟨isDigit_iff.mpr ⟨_, hd⟩, ih⟩

/-- The numeral of some digits is the number that has these digits in base ten. -/
lemma numeral_eq_baseTen (h : List.Forall₂ IsDigitFor cs ds) : numeral cs = baseTen ds := by
  have hfold : ∀ acc, numeralFrom acc cs = ds.foldl (fun n d => d + 10 * n) acc := by
    induction h with
    | nil => exact fun _ => rfl
    | @cons c d cs ds hd _ ih =>
      intro acc
      have hstep : numeralFrom acc (c :: cs) = numeralFrom (10 * acc + (digitValue? c).getD 0) cs :=
        rfl
      rw [hstep, ih, digitValue?_eq_some_iff.mpr hd, Option.getD_some, List.foldl_cons,
        Nat.add_comm d]
  rw [numeral, hfold, baseTen, Nat.ofDigits_eq_foldr, List.foldr_reverse]
  rfl

/-- The digits at the front of a text are a run. -/
lemma exists_digitRun (text : List Char) :
    ∃ ds, DigitRun text (text.takeWhile isDigit) ds (text.dropWhile isDigit) := by
  obtain ⟨ds, hds⟩ := exists_digits_of_isDigit fun x hx => List.mem_takeWhile_imp (p := isDigit) hx
  refine ⟨ds, List.takeWhile_append_dropWhile.symm, hds, fun x hx => ?_⟩
  have hhead := List.head?_dropWhile_not isDigit text
  rw [Option.mem_def.mp hx] at hhead
  exact hhead

end Text

open Text

/-! ### Reading numbers -/

section

variable {text run rest tail fraction more : List Char} {ds fs : List ℕ}

lemma Lexeme.scanNumber_of_integer (h : DigitRun text run ds rest) (hne : run ≠ [])
    (hpoint : rest.head? ≠ some '.') :
    scanNumber text = ⟨run.length,
      if 4300 < run.length ∨ 2 ^ 31 - 1 < baseTen ds
        then .error (.invalidNumber (String.ofList run))
        else .ok ⟨.integerLiteral, String.ofList run, .int (baseTen ds)⟩⟩ := by
  rw [h.text_eq, scanNumber_append_of_integer (isDigit_of_digits h.digits) h.ends hpoint,
    ofInteger_of_ne_nil hne, numeral_eq_baseTen h.digits]
  rfl

lemma Lexeme.scanNumber_of_real (h : DigitRun text run ds ('.' :: tail)) (hne : run ≠ [])
    (ht : DigitRun tail fraction fs more) :
    scanNumber text = ⟨run.length + 1 + fraction.length,
      .ok ⟨.realLiteral, String.ofList (run ++ '.' :: fraction),
        .real (.ofDecimal false (baseTen (ds ++ fs)) (-fs.length))⟩⟩ := by
  have hempty : run.isEmpty = false := by simpa using hne
  have hvalue := numeral_eq_baseTen (List.rel_append h.digits ht.digits)
  rw [h.text_eq, ht.text_eq,
    scanNumber_append_of_real (isDigit_of_digits h.digits) (isDigit_of_digits ht.digits) ht.ends]
  simp only [ofReal, hempty, Bool.false_and, Bool.false_eq_true, if_false, hvalue,
    ht.digits.length_eq]

namespace Cursor

variable {c : Cursor}

/-- Where a run of digits stands, a number is read. -/
lemma nextToken_of_digitRun (h : DigitRun c.skipBlanks.rest run ds rest) (hne : run ≠ []) :
    c.nextToken = c.skipBlanks.read Lexeme.scanNumber c.skipBlanks.position := by
  obtain ⟨x, run, rfl⟩ := List.exists_cons_of_ne_nil hne
  have hd : isDigit x = true := isDigit_of_digits h.digits x List.mem_cons_self
  have hscan : Lexeme.scanToken c.skipBlanks.rest = Lexeme.scanNumber c.skipBlanks.rest := by
    rw [h.text_eq, List.cons_append, Lexeme.scanToken, if_neg, if_pos hd]
    simp [Lexeme.isLetter_of_isDigit hd]
  simp only [nextToken, read, hscan]

lemma nextToken_of_integer (h : DigitRun c.skipBlanks.rest run ds rest) (hne : run ≠ [])
    (hpoint : rest.head? ≠ some '.') :
    c.nextToken =
      ⟨if 4300 < run.length ∨ 2 ^ 31 - 1 < baseTen ds
        then .error ⟨.invalidNumber (String.ofList run), c.skipBlanks.position⟩
        else .ok ⟨.integerLiteral, String.ofList run, .int (baseTen ds), c.skipBlanks.position⟩,
      c.skipBlanks.advance run.length⟩ := by
  rw [nextToken_of_digitRun h hne]
  simp only [read, Lexeme.scanNumber_of_integer h hne hpoint]
  split_ifs <;> rfl

lemma nextToken_of_real (h : DigitRun c.skipBlanks.rest run ds ('.' :: tail)) (hne : run ≠ [])
    (ht : DigitRun tail fraction fs more) :
    c.nextToken =
      ⟨.ok ⟨.realLiteral, String.ofList (run ++ '.' :: fraction),
          .real (.ofDecimal false (baseTen (ds ++ fs)) (-fs.length)), c.skipBlanks.position⟩,
        c.skipBlanks.advance (run.length + 1 + fraction.length)⟩ := by
  rw [nextToken_of_digitRun h hne]
  simp only [read, Lexeme.scanNumber_of_real h hne ht]

end Cursor

end

/-! ### Integer constants of compiled code -/

namespace Lexeme

variable {l : Lexeme}

lemma ofInteger_le {digits : List Char} (h : ofInteger digits = .ok l) :
    l.value = .int (numeral digits) ∧ numeral digits ≤ maxInteger := by
  simp only [ofInteger] at h
  split_ifs at h with hlength hlarge
  cases h
  exact ⟨rfl, Nat.not_lt.mp hlarge⟩

/-- An integer in a text is not too large. -/
lemma Formed.int_le (h : l.Formed) (hk : l.kind = .integerLiteral) {n : ℕ}
    (hv : l.value = .int n) : n ≤ maxInteger := by
  cases h with
  | word _ _ =>
    rcases kind_ofWord (String.ofList _) with hword | hword
    · rw [hword] at hk
      cases hk
    · exact absurd (hk ▸ hword) (by decide)
  | integer _ _ hl =>
    obtain ⟨hvalue, hle⟩ := ofInteger_le hl
    rw [hvalue, Value.int.injEq, Nat.cast_inj] at hv
    exact hv ▸ hle
  | real _ _ _ hl => rw [(ofReal_eq_ok hl).1] at hk; cases hk
  | string _ => cases hk
  | character _ => cases hk
  | symbol _ => cases hv
  | operator _ => cases hv

end Lexeme

/-- The integer constants of compiled code are integers of the source text, and so in range. -/
lemma integer_le_of_compile {path source : String} {d : Declarations} {code : List Instruction}
    (h : (compile path d source).outcome = .ok code) {n : ℕ}
    (hn : .constant (.int n) (some .integerLiteral) ∈ Instruction.operandsOf code) :
    n ≤ Lexeme.maxInteger := by
  have hadmits : ∀ ts, tokenize source = .ok ts → ∀ t ∈ ts, t.Admits fun o =>
      ∀ m : ℕ, o = .constant (.int m) (some .integerLiteral) → m ≤ Lexeme.maxInteger := by
    intro ts hts t ht
    refine ⟨fun _ m heq => (by cases heq), fun hk m heq => ?_⟩
    rw [Operand.constant.injEq, Option.some.injEq] at heq
    have hne : t.kind ≠ .eof := ne_of_mem_of_not_mem hk (by decide)
    exact (Cursor.formed_of_tokenize hts t ht hne).int_le heq.2 heq.1
  obtain ⟨i, hi, ho⟩ := List.mem_flatMap.mp hn
  have hshaped := shaped_of_compile (fun _ _ heq => by cases heq) hadmits h i hi
  exact hshaped.forall_operands _ ho n rfl

/-- Only an integer constant has an integer as its value. -/
lemma Operand.Formed.exists_integer {o : Operand} (h : o.Formed)
    (hint : o.kind = some .integerLiteral ∨ ∃ n, o.value = .int n) :
    ∃ n : ℕ, o = .constant (.int n) (some .integerLiteral) := by
  cases h with
  | integer n => exact ⟨n, rfl⟩
  | _ =>
    rcases hint with hkind | ⟨n, hvalue⟩
    · cases hkind
    · cases hvalue

/-- Where a digit stands, the run of digits there is read. If a point follows it, then with the
point and the run behind it this is a real constant, whatever the lengths. Otherwise it is an integer
constant with exactly the value that its digits have in base ten, or a fault where it starts if it
has more than 4300 digits or its value has more than thirty-one bits. So every integer constant of
compiled code is in this range, and ten digits are enough to show it. -/
theorem numbers_exact_and_in_range :
    (∀ (c : Cursor) (x : Char), c.skipBlanks.rest.head? = some x → isDigit x = true →
      ∃ run ds rest, run ≠ [] ∧ DigitRun c.skipBlanks.rest run ds rest ∧
        (∀ tail, rest = '.' :: tail → ∃ fraction fs more, DigitRun tail fraction fs more ∧
          c.nextToken =
            ⟨.ok ⟨.realLiteral, String.ofList (run ++ '.' :: fraction),
                .real (.ofDecimal false (baseTen (ds ++ fs)) (-fs.length)), c.skipBlanks.position⟩,
              c.skipBlanks.advance (run.length + 1 + fraction.length)⟩) ∧
        (rest.head? ≠ some '.' → c.nextToken =
          ⟨if 4300 < run.length ∨ 2 ^ 31 - 1 < baseTen ds
            then .error ⟨.invalidNumber (String.ofList run), c.skipBlanks.position⟩
            else .ok ⟨.integerLiteral, String.ofList run, .int (baseTen ds), c.skipBlanks.position⟩,
          c.skipBlanks.advance run.length⟩)) ∧
    (∀ lexeme, (LexicalFault.invalidNumber lexeme).text = "Invalid number format: " ++ lexeme) ∧
    ∀ (path : String) (d : Declarations) (source : String) (code : List Instruction),
      (compile path d source).outcome = .ok code → ∀ o ∈ Instruction.operandsOf code,
        (o.kind = some .integerLiteral ∨ ∃ n, o.value = .int n) →
          ∃ n : ℕ, o = .constant (.int n) (some .integerLiteral) ∧ n ≤ 2 ^ 31 - 1 ∧
            o.name.toList.length ≤ 10 ∧ ∀ y ∈ o.name.toList, y.isDigit = true := by
  refine ⟨fun c x hx hd => ?_, fun _ => rfl, fun path d source code h o ho hint => ?_⟩
  · obtain ⟨ds, hrun⟩ := exists_digitRun c.skipBlanks.rest
    have hne : c.skipBlanks.rest.takeWhile isDigit ≠ [] := by
      obtain ⟨rest, hrest⟩ := List.head?_eq_some_iff.mp hx
      rw [hrest, List.takeWhile_cons_of_pos hd]
      exact List.cons_ne_nil _ _
    refine ⟨_, ds, _, hne, hrun, fun tail htail => ?_, Cursor.nextToken_of_integer hrun hne⟩
    obtain ⟨fs, hfraction⟩ := exists_digitRun tail
    exact ⟨_, fs, _, hfraction, Cursor.nextToken_of_real (htail ▸ hrun) hne hfraction⟩
  · obtain ⟨n, rfl⟩ := (formed_of_compile h o ho).exists_integer hint
    have hle : n ≤ 2147483647 := integer_le_of_compile h ho
    rw [Operand.toList_name_integer]
    refine ⟨n, rfl, hle, ?_, Decimal.isDigit_of_mem_toDigits⟩
    rw [Nat.length_toDigits_le_iff (by decide) (by decide)]
    omega

theorem mixed_digits_compiled :
    (compile "" [("س", .integer)] "برنامج ب;\x7bس=٠2١\x7d.").outcome =
      .ok [{ op := .assign, result := some (.named "س"),
             arg1 := some (.constant (.int 21) (some .integerLiteral)) }, { op := .halt }] ∧
    (∃ run ds rest, run ≠ [] ∧ DigitRun "٠2١;".toList run ds rest) ∧
    (Operand.constant (.int 21) (some .integerLiteral)).name.toList.length ≤ 10 := by
  have h : (compile "" [("س", .integer)] "برنامج ب;\x7bس=٠2١\x7d.").outcome =
      .ok [{ op := .assign, result := some (.named "س"),
             arg1 := some (.constant (.int 21) (some .integerLiteral)) }, { op := .halt }] := by
    decide +kernel
  obtain ⟨run, ds, rest, hne, hrun, -⟩ := numbers_exact_and_in_range.1
    { rest := "٠2١;".toList } '٠' (by decide) (by decide)
  obtain ⟨n, -, -, hlength, -⟩ := numbers_exact_and_in_range.2.2 _ _ _ _ h
    (.constant (.int 21) (some .integerLiteral)) (by decide) (Or.inl rfl)
  exact ⟨h, ⟨run, ds, rest, hne, hrun⟩, hlength⟩

-- the largest integer with a zero in front of it, and the next one in other digits
example : (Cursor.ofSource " ٠2147483647").nextToken.outcome =
    .ok ⟨.integerLiteral, "٠2147483647", .int 2147483647, ⟨1, 2⟩⟩ := by
  decide +kernel

example : (Cursor.ofSource "٢١٤٧٤٨٣٦٤٨;").nextToken.outcome =
    .error ⟨.invalidNumber "٢١٤٧٤٨٣٦٤٨", ⟨1, 1⟩⟩ := by
  decide +kernel

end Barnamaj

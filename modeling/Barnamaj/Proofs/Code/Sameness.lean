import Barnamaj.Proofs.Code.Forms

/-!
# Operands of one name

Operands count as the same if they have the same name. In compiled code this confuses some operands
that differ (`Operand.Confusable`), and no others: what a name looks like (`Operand.look`) leaves
few forms for an operand, and among these the name tells them apart.
-/

namespace Barnamaj

open Text

namespace Operand

/-! ### What a name looks like -/

/-- The looks of a name. -/
inductive Look where
  | single
  | quoted
  | temporary
  | real
  | numeral
  | word

/-- What a name looks like. A single character can be a variable, a digit or a character
constant. -/
def look (cs : List Char) : Look :=
  if cs.length = 1 then .single
  else if cs.head? = some '"' then .quoted
  else if '_' ∈ cs then .temporary
  else if cs.any (· ∈ ['.', '+', '-']) then .real
  else if cs.all Char.isDigit then .numeral
  else .word

/-- The operands of compiled code whose name has a given look. -/
inductive Looks : Look → Operand → Prop where
  | letter {c : Char} (hc : isLetter c = true) : Looks .single (.named (String.ofList [c]))
  | digit {n : ℕ} (hn : n < 10) : Looks .single (.constant (.int n) (some .integerLiteral))
  | character (c : Char) :
      Looks .single (.constant (.text (String.ofList [c])) (some .charLiteral))
  | string (body : String) : Looks .quoted (.constant (.text body) (some .stringLiteral))
  | temporary (k : ℕ) : Looks .temporary (.temporary k)
  | real (m : ℕ) (e : ℤ) :
      Looks .real (.constant (.real (.finite false m e)) (some .realLiteral))
  | numeral (n : ℕ) : Looks .numeral (.constant (.int n) (some .integerLiteral))
  | named (x : String) : Looks .word (.named x)
  | infinity : Looks .word (.constant (.real (.infinite false)) (some .realLiteral))
  | trueConstant : Looks .word (.constant (.bool true) (some .trueKw))
  | falseConstant : Looks .word (.constant (.bool false) (some .falseKw))

/-- Letters and digits, but not a single one. -/
lemma look_of_isWordPart {cs : List Char} (hlength : cs.length ≠ 1)
    (hcs : ∀ x ∈ cs, Lexeme.isWordPart x = true) :
    look cs = if cs.all Char.isDigit then .numeral else .word := by
  have hmarks : ∀ x ∈ cs, x ∉ marks := fun x hx => notMem_marks_of_isWordPart (hcs x hx)
  have hquote : cs.head? ≠ some '"' :=
    fun hhead => hmarks _ (List.mem_of_mem_head? hhead) (by decide)
  have hunderscore : '_' ∉ cs := fun hmem => hmarks _ hmem (by decide)
  have hpoint : ¬ cs.any (· ∈ ['.', '+', '-']) = true := by
    rw [List.any_eq_true]
    rintro ⟨x, hx, hmem⟩
    have hsub : ['.', '+', '-'] ⊆ marks := by decide
    exact hmarks x hx (hsub (of_decide_eq_true hmem))
  rw [look, if_neg hlength, if_neg hquote, if_neg hunderscore, if_neg hpoint]

lemma look_word {c d : Char} {cs : List Char} (hc : isLetter c = true)
    (hcs : ∀ x ∈ d :: cs, Lexeme.isWordPart x = true) : look (c :: d :: cs) = .word := by
  have hword : ∀ x ∈ c :: d :: cs, Lexeme.isWordPart x = true :=
    List.forall_mem_cons.mpr ⟨by simp [Lexeme.isWordPart, hc], hcs⟩
  have hdigits : ¬ (c :: d :: cs).all Char.isDigit = true := by
    rw [List.all_eq_true]
    intro hall
    rw [(isLetter_isWordPart_of_isDigit (hall c List.mem_cons_self)).1] at hc
    cases hc
  rw [look_of_isWordPart (by simp) hword, if_neg hdigits]

lemma look_numeral {n : ℕ} (hn : 10 ≤ n) : look (Nat.toDigits 10 n) = .numeral := by
  have hdigits : ∀ c ∈ Nat.toDigits 10 n, c.isDigit = true := Decimal.isDigit_of_mem_toDigits
  have hlength : (Nat.toDigits 10 n).length ≠ 1 := by
    intro hone
    have hlt := (Nat.length_toDigits_le_iff (b := 10) (n := n) (k := 1) (by decide)
      (by decide)).mp hone.le
    omega
  rw [look_of_isWordPart hlength fun c hc => (isLetter_isWordPart_of_isDigit (hdigits c hc)).2,
    if_pos (List.all_eq_true.mpr hdigits)]

lemma look_of_showsReal {cs : List Char} (h : Decimal.ShowsReal cs) : look cs = .real := by
  have hother : ∀ c ∈ cs, c ≠ '"' ∧ c ≠ '_' := by
    intro c hc
    rcases h.digit_or_mark c hc with hd | hm
    · have hmarks := notMem_marks_of_isWordPart (isLetter_isWordPart_of_isDigit hd).2
      constructor
      · rintro rfl
        exact hmarks (by decide)
      · rintro rfl
        exact hmarks (by decide)
    · exact ⟨ne_of_mem_of_not_mem hm (by decide), ne_of_mem_of_not_mem hm (by decide)⟩
  have hlength : cs.length ≠ 1 := by
    have := h.two_le_length
    omega
  have hquote : cs.head? ≠ some '"' :=
    fun hhead => (hother _ (List.mem_of_mem_head? hhead)).1 rfl
  have hunderscore : '_' ∉ cs := fun hmem => (hother _ hmem).2 rfl
  have hpoint : cs.any (· ∈ ['.', '+', '-']) = true := by
    obtain ⟨c, hc, hmark⟩ := h.marked
    exact List.any_eq_true.mpr ⟨c, hc, decide_eq_true hmark⟩
  rw [look, if_neg hlength, if_neg hquote, if_neg hunderscore, if_pos hpoint]

/-- The name of an operand shows which forms it can have. -/
lemma Formed.looks {o : Operand} (h : o.Formed) : Looks (look o.name.toList) o := by
  cases h with
  | @named c cs hc hcs =>
    rw [toList_name_named]
    cases cs with
    | nil => exact .letter hc
    | cons d cs =>
      rw [look_word hc hcs]
      exact .named _
  | temporary k =>
    rw [toList_name_temporary, look, if_neg (by simp), if_neg (by simp), if_pos (by simp)]
    exact .temporary k
  | integer n =>
    rw [toList_name_integer]
    by_cases hn : n < 10
    · rw [Nat.toDigits_of_lt_base hn]
      exact .digit hn
    · rw [look_numeral (not_lt.mp hn)]
      exact .numeral n
  | real m e =>
    have hname : (constant (.real (.finite false m e)) (some .realLiteral)).name =
        Decimal.Binary64.text (.finite false m e) := rfl
    rw [hname, look_of_showsReal (Decimal.Binary64.showsReal_text m e)]
    exact .real m e
  | infinity => exact .infinity
  | @string body _ =>
    rw [toList_name_string, look, if_neg (by simp), if_pos (by simp)]
    exact .string _
  | character _ =>
    rw [toList_name_character]
    exact .character _
  | trueConstant => exact .trueConstant
  | falseConstant => exact .falseConstant

/-! ### Operands that are the same -/

/-- The pairs of operands that have one name though they may differ. Reals are told apart by their
texts alone. -/
inductive Confusable : Operand → Operand → Prop where
  | letter (c : Char) :
      Confusable (.named (String.ofList [c]))
        (.constant (.text (String.ofList [c])) (some .charLiteral))
  | trueName : Confusable (.named "True") (.constant (.bool true) (some .trueKw))
  | falseName : Confusable (.named "False") (.constant (.bool false) (some .falseKw))
  | infinity : Confusable (.named "inf") (.constant (.real (.infinite false)) (some .realLiteral))
  | digit {n : ℕ} (hn : n < 10) :
      Confusable (.constant (.text (toString n)) (some .charLiteral))
        (.constant (.int n) (some .integerLiteral))
  | reals {r s : Decimal.Binary64} (h : r.text = s.text) :
      Confusable (.constant (.real r) (some .realLiteral)) (.constant (.real s) (some .realLiteral))

variable {a b : Operand}

lemma Confusable.name_eq (h : a.Confusable b) : a.name = b.name := by
  cases h with
  | letter c => rfl
  | trueName => rfl
  | falseName => rfl
  | infinity => rfl
  | digit _ => rfl
  | reals h => exact h

/-- The operands are equal, or they are confused in a known way. -/
def EqOrConfusable (a b : Operand) : Prop := a = b ∨ a.Confusable b ∨ b.Confusable a

lemma EqOrConfusable.symm (h : a.EqOrConfusable b) : b.EqOrConfusable a :=
  h.imp Eq.symm Or.symm

lemma eqOrConfusable_integer {m n : ℕ} (h : toString (m : ℤ) = toString (n : ℤ)) :
    EqOrConfusable (.constant (.int m) (some .integerLiteral))
      (.constant (.int n) (some .integerLiteral)) := by
  obtain rfl := toString_natCast_injective h
  exact Or.inl rfl

/-- A letter is no digit. -/
lemma ofList_singleton_ne_toString {c : Char} {n : ℕ} (hc : isLetter c = true) :
    String.ofList [c] ≠ toString (n : ℤ) := by
  intro h
  have hlist := congrArg String.toList h
  rw [String.toList_ofList, toList_toString_natCast] at hlist
  have hdigit : c.isDigit = true := by
    apply Decimal.isDigit_of_mem_toDigits (n := n)
    rw [← hlist]
    exact List.mem_singleton_self c
  rw [(isLetter_isWordPart_of_isDigit hdigit).1] at hc
  cases hc

lemma eqOrConfusable_letter_character {c d : Char} (h : String.ofList [c] = String.ofList [d]) :
    EqOrConfusable (.named (String.ofList [c]))
      (.constant (.text (String.ofList [d])) (some .charLiteral)) := by
  rw [← h]
  exact Or.inr (Or.inl (.letter c))

lemma eqOrConfusable_character_digit {c : Char} {n : ℕ} (hn : n < 10)
    (h : String.ofList [c] = toString (n : ℤ)) :
    EqOrConfusable (.constant (.text (String.ofList [c])) (some .charLiteral))
      (.constant (.int n) (some .integerLiteral)) := by
  rw [h]
  exact Or.inr (Or.inl (.digit hn))

lemma Looks.eqOrConfusable_single (ha : Looks .single a) (hb : Looks .single b)
    (h : a.name = b.name) : a.EqOrConfusable b := by
  cases ha with
  | letter hc =>
    cases hb with
    | letter _ => exact Or.inl (congrArg Operand.named h)
    | digit _ => exact absurd h (ofList_singleton_ne_toString hc)
    | character _ => exact eqOrConfusable_letter_character h
  | digit hn =>
    cases hb with
    | letter hc => exact absurd h.symm (ofList_singleton_ne_toString hc)
    | digit _ => exact eqOrConfusable_integer h
    | character _ => exact (eqOrConfusable_character_digit hn h.symm).symm
  | character _ =>
    cases hb with
    | letter _ => exact (eqOrConfusable_letter_character h.symm).symm
    | digit hn => exact eqOrConfusable_character_digit hn h
    | character _ => exact Or.inl (congrArg (fun s => constant (.text s) _) h)

/-- The constants that are written as a word. -/
lemma Looks.confusable_named_of_word {x : String} (hb : Looks .word b) (h : x = b.name) :
    EqOrConfusable (.named x) b := by
  subst h
  cases hb with
  | named _ => exact Or.inl rfl
  | infinity => exact Or.inr (Or.inl .infinity)
  | trueConstant => exact Or.inr (Or.inl .trueName)
  | falseConstant => exact Or.inr (Or.inl .falseName)

lemma Looks.eqOrConfusable_word (ha : Looks .word a) (hb : Looks .word b)
    (h : a.name = b.name) : a.EqOrConfusable b := by
  cases ha with
  | named _ => exact hb.confusable_named_of_word h
  | infinity =>
    cases hb with
    | named _ => exact (Looks.infinity.confusable_named_of_word h.symm).symm
    | infinity => exact Or.inl rfl
    | trueConstant => exact absurd h (by decide)
    | falseConstant => exact absurd h (by decide)
  | trueConstant =>
    cases hb with
    | named _ => exact (Looks.trueConstant.confusable_named_of_word h.symm).symm
    | infinity => exact absurd h (by decide)
    | trueConstant => exact Or.inl rfl
    | falseConstant => exact absurd h (by decide)
  | falseConstant =>
    cases hb with
    | named _ => exact (Looks.falseConstant.confusable_named_of_word h.symm).symm
    | infinity => exact absurd h (by decide)
    | trueConstant => exact absurd h (by decide)
    | falseConstant => exact Or.inl rfl

/-- Operands of compiled code with one name are equal, or they are confused in a known way. -/
lemma Formed.eqOrConfusable (ha : a.Formed) (hb : b.Formed) (h : a.name = b.name) :
    a.EqOrConfusable b := by
  have hlooks := ha.looks
  have hlooks' := hb.looks
  rw [h] at hlooks
  generalize look b.name.toList = look at hlooks hlooks'
  cases look with
  | single => exact hlooks.eqOrConfusable_single hlooks' h
  | quoted =>
    cases hlooks with
    | string body =>
      cases hlooks' with
      | string body' =>
        obtain rfl : body = body' := by simpa [name, Value.toText] using h
        exact Or.inl rfl
  | temporary =>
    cases hlooks
    cases hlooks'
    obtain rfl := temporary_name_injective h
    exact Or.inl rfl
  | real =>
    cases hlooks
    cases hlooks'
    exact Or.inr (Or.inl (.reals h))
  | numeral =>
    cases hlooks
    cases hlooks'
    exact eqOrConfusable_integer h
  | word => exact hlooks.eqOrConfusable_word hlooks' h

lemma Formed.same_iff (ha : a.Formed) (hb : b.Formed) :
    a.same b = true ↔ a.EqOrConfusable b := by
  rw [same, beq_iff_eq]
  constructor
  · exact ha.eqOrConfusable hb
  · rintro (rfl | h | h)
    · rfl
    · exact h.name_eq
    · exact h.name_eq.symm

/-! ### The cases one by one -/

/-- An operand that is never confused is the same as itself only. -/
lemma eqOrConfusable_iff_eq (h : ∀ c, ¬ a.Confusable c ∧ ¬ c.Confusable a) :
    a.EqOrConfusable b ↔ b = a := by
  constructor
  · rintro (rfl | hab | hba)
    · rfl
    · exact absurd hab (h b).1
    · exact absurd hba (h b).2
  · rintro rfl
    exact Or.inl rfl

lemma eqOrConfusable_temporary_iff {j : ℤ} :
    EqOrConfusable (.temporary j) b ↔ b = .temporary j :=
  eqOrConfusable_iff_eq fun _ => ⟨nofun, nofun⟩

lemma eqOrConfusable_string_iff {v : Value} :
    EqOrConfusable (.constant v (some .stringLiteral)) b ↔
      b = .constant v (some .stringLiteral) :=
  eqOrConfusable_iff_eq fun _ => ⟨nofun, nofun⟩

lemma eqOrConfusable_named_named_iff {x y : String} :
    EqOrConfusable (.named x) (.named y) ↔ x = y := by
  constructor
  · rintro (h | h | h)
    · exact Operand.named.inj h
    · cases h
    · cases h
  · rintro rfl
    exact Or.inl rfl

lemma not_eqOrConfusable_integer_real {v w : Value} :
    ¬ EqOrConfusable (.constant v (some .integerLiteral)) (.constant w (some .realLiteral)) := by
  rintro (h | h | h)
  · cases h
  · cases h
  · cases h

lemma eqOrConfusable_named_constant_iff {x : String} {v : Value} {k : Option TokenKind} :
    EqOrConfusable (.named x) (.constant v k) ↔
      (k = some .charLiteral ∧ v = .text x ∧ ∃ c, x = String.ofList [c]) ∨
      (k = some .trueKw ∧ v = .bool true ∧ x = "True") ∨
      (k = some .falseKw ∧ v = .bool false ∧ x = "False") ∨
      (k = some .realLiteral ∧ v = .real (.infinite false) ∧ x = "inf") := by
  constructor
  · rintro (h | h | h)
    · cases h
    · cases h with
      | letter c => exact Or.inl ⟨rfl, rfl, c, rfl⟩
      | trueName => exact Or.inr (Or.inl ⟨rfl, rfl, rfl⟩)
      | falseName => exact Or.inr (Or.inr (Or.inl ⟨rfl, rfl, rfl⟩))
      | infinity => exact Or.inr (Or.inr (Or.inr ⟨rfl, rfl, rfl⟩))
    · cases h
  · rintro (⟨rfl, rfl, c, rfl⟩ | ⟨rfl, rfl, rfl⟩ | ⟨rfl, rfl, rfl⟩ | ⟨rfl, rfl, rfl⟩)
    · exact Or.inr (Or.inl (.letter c))
    · exact Or.inr (Or.inl .trueName)
    · exact Or.inr (Or.inl .falseName)
    · exact Or.inr (Or.inl .infinity)

lemma eqOrConfusable_character_number_iff {v w : Value} {k : TokenKind}
    (hk : k = .integerLiteral ∨ k = .realLiteral) :
    EqOrConfusable (.constant v (some .charLiteral)) (.constant w (some k)) ↔
      k = .integerLiteral ∧ ∃ n : ℕ, n < 10 ∧ w = .int n ∧ v = .text (toString n) := by
  constructor
  · rintro (h | h | h)
    · cases h
      rcases hk with hk | hk
      · cases hk
      · cases hk
    · cases h with
      | digit hn => exact ⟨rfl, _, hn, rfl, rfl⟩
    · cases h
  · rintro ⟨rfl, n, hn, rfl, rfl⟩
    exact Or.inr (Or.inl (.digit hn))

end Operand

/-- In compiled code, operands of one name are equal or are confused in a known way. Temporaries are
told apart by their numbers, and from all other operands; variables by their names; strings by their
values, and from all other operands; integers from reals. A variable has the name of a constant only
if this is a character, a truth value or the infinite real, and a character that of a number only if
this is an integer of one digit. -/
theorem operands_confused_only_as_known {path source : String} {d : Declarations}
    {code : List Instruction} (h : (compile path d source).outcome = .ok code) {a b : Operand}
    (ha : a ∈ Instruction.operandsOf code) (hb : b ∈ Instruction.operandsOf code) :
    (a.same b = true ↔ a.EqOrConfusable b) ∧
    (∀ j, a = .temporary j → (a.same b = true ↔ b = .temporary j)) ∧
    (∀ x y, a = .named x → b = .named y → (a.same b = true ↔ x = y)) ∧
    (∀ v, a = .constant v (some .stringLiteral) →
      (a.same b = true ↔ b = .constant v (some .stringLiteral))) ∧
    (∀ v w, a = .constant v (some .integerLiteral) → b = .constant w (some .realLiteral) →
      a.same b = false) ∧
    (∀ x v k, a = .named x → b = .constant v k →
      (a.same b = true ↔
        (k = some .charLiteral ∧ v = .text x ∧ ∃ c, x = String.ofList [c]) ∨
        (k = some .trueKw ∧ v = .bool true ∧ x = "True") ∨
        (k = some .falseKw ∧ v = .bool false ∧ x = "False") ∨
        (k = some .realLiteral ∧ v = .real (.infinite false) ∧ x = "inf"))) ∧
    (∀ v w k, a = .constant v (some .charLiteral) → b = .constant w (some k) →
      k = .integerLiteral ∨ k = .realLiteral →
      (a.same b = true ↔
        k = .integerLiteral ∧ ∃ n : ℕ, n < 10 ∧ w = .int n ∧ v = .text (toString n))) := by
  have hsame := (formed_of_compile h a ha).same_iff (formed_of_compile h b hb)
  refine ⟨hsame, ?_, ?_, ?_, ?_, ?_, ?_⟩
  · rintro j rfl
    exact hsame.trans Operand.eqOrConfusable_temporary_iff
  · rintro x y rfl rfl
    exact hsame.trans Operand.eqOrConfusable_named_named_iff
  · rintro v rfl
    exact hsame.trans Operand.eqOrConfusable_string_iff
  · rintro v w rfl rfl
    rw [← Bool.not_eq_true, hsame]
    exact Operand.not_eqOrConfusable_integer_real
  · rintro x v k rfl rfl
    exact hsame.trans Operand.eqOrConfusable_named_constant_iff
  · rintro v w k rfl rfl hk
    exact hsame.trans (Operand.eqOrConfusable_character_number_iff hk)

/-- A variable, a character and a string that are spelled with one letter: the first two are
confused. -/
theorem letter_confused_with_character :
    ∃ code, (compile "" [("س", .char)]
        "برنامج ب ; \x7b س = \x60س\x60 ; اطبع ( \"س\" ) \x7d .").outcome = .ok code ∧
      .named "س" ∈ Instruction.operandsOf code ∧
      .constant (.text "س") (some .charLiteral) ∈ Instruction.operandsOf code ∧
      .constant (.text "س") (some .stringLiteral) ∈ Instruction.operandsOf code ∧
      (Operand.named "س").same (.constant (.text "س") (some .charLiteral)) = true ∧
      (Operand.constant (.text "س") (some .stringLiteral)).same (.named "س") = false := by
  have h : (compile "" [("س", .char)]
      "برنامج ب ; \x7b س = \x60س\x60 ; اطبع ( \"س\" ) \x7d .").outcome =
      .ok [{ op := .assign, result := some (.named "س"),
             arg1 := some (.constant (.text "س") (some .charLiteral)) },
           { op := .print, arg1 := some (.constant (.text "س") (some .stringLiteral)) },
           { op := .halt }] := by
    decide +kernel
  refine ⟨_, h, by decide, by decide, by decide, ?_, ?_⟩
  · obtain ⟨-, -, -, -, -, hconfused, -⟩ := operands_confused_only_as_known h
      (a := .named "س") (b := .constant (.text "س") (some .charLiteral)) (by decide) (by decide)
    exact (hconfused _ _ _ rfl rfl).mpr (Or.inl ⟨rfl, rfl, 'س', rfl⟩)
  · obtain ⟨-, -, -, hstring, -⟩ := operands_confused_only_as_known h
      (a := .constant (.text "س") (some .stringLiteral)) (b := .named "س") (by decide) (by decide)
    rw [← Bool.not_eq_true, hstring _ rfl]
    exact fun heq => nomatch heq

end Barnamaj

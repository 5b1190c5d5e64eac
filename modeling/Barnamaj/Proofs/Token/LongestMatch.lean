import Barnamaj.Proofs.Token.Tokenize

/-!
# Tokens are longest matches

The lexical grammar of the language as a relation between texts and kinds of tokens
(`Lexeme.Denotes`), without regard to what stands behind a text. The first character of a text
tells which rule can apply to it (`Lexeme.FormAt`), because letters, digits and the other characters
that start a lexeme are different. Every reader finds the longest beginning of the text that is in
the grammar, or there is none and it reports a fault (`Lexeme.Longest`).
-/

namespace Barnamaj

open Text

namespace Lexeme

/-! ### The grammar -/

/-- `Denotes w k`: the text `w` by itself is a lexeme of kind `k`, if its value is in range. -/
inductive Denotes : List Char → TokenKind → Prop where
  | keyword {c : Char} {cs : List Char} {k : TokenKind} (hc : isLetter c = true)
      (hcs : ∀ x ∈ cs, isLetter x = true ∨ isDigit x = true)
      (hk : (String.ofList (c :: cs), k) ∈ TokenKind.keywords) : Denotes (c :: cs) k
  | name {c : Char} {cs : List Char} (hc : isLetter c = true)
      (hcs : ∀ x ∈ cs, isLetter x = true ∨ isDigit x = true)
      (hk : String.ofList (c :: cs) ∉ TokenKind.keywords.map Prod.fst) :
      Denotes (c :: cs) .identifier
  | integer {c : Char} {cs : List Char} (hd : ∀ x ∈ c :: cs, isDigit x = true) :
      Denotes (c :: cs) .integerLiteral
  | real {c : Char} {whole fraction : List Char} (hw : ∀ x ∈ c :: whole, isDigit x = true)
      (hf : ∀ x ∈ fraction, isDigit x = true) :
      Denotes (c :: (whole ++ '.' :: fraction)) .realLiteral
  | string {body : List Char} (hb : ∀ x ∈ body, x ≠ '"' ∧ x ≠ '\n') :
      Denotes ('"' :: (body ++ ['"'])) .stringLiteral
  | character {x : Char} (hx : x ≠ '\n') :
      Denotes [characterMark, x, characterMark] .charLiteral
  | symbol {c : Char} {k : TokenKind} (hk : (c, k) ∈ TokenKind.symbols) : Denotes [c] k
  | operator {text : String} {k : TokenKind} (hk : (k, text) ∈ operators) : Denotes text.toList k

/-- A run of digits that is too long, or stands for a number that has more than thirty-one bits. -/
def OutOfRange (w : List Char) : Prop :=
  (∀ x ∈ w, isDigit x = true) ∧ (4300 < w.length ∨ 2147483647 < numeral w)

/-! ### Classes of characters -/

/-- Whether no run of ten digits meets one of some ranges, found in one pass over both. -/
def apart : List (Nat × Nat) → List Nat → Bool
  | [], _ => true
  | (first, last) :: rest, zeros =>
    match zeros.dropWhile (fun z => decide (z + 10 ≤ first)) with
    | [] => true
    | z :: later => decide (last < z) && apart rest (z :: later)

/-- The runs of digits below a code point do not count for it. -/
lemma digitValueIn_dropWhile {first n : Nat} (h : first ≤ n) (zeros : List Nat) :
    digitValueIn (zeros.dropWhile fun z => decide (z + 10 ≤ first)) n = digitValueIn zeros n := by
  induction zeros with
  | nil => rfl
  | cons z zeros ih =>
    by_cases hz : z + 10 ≤ first
    · rw [List.dropWhile_cons_of_pos (by simpa using hz), ih, digitValueIn, if_neg (by omega),
        if_neg (by omega)]
    · rw [List.dropWhile_cons_of_neg (by simpa using hz)]

lemma digitValueIn_of_apart {ranges : List (Nat × Nat)} {zeros : List Nat} {n : Nat}
    (h : apart ranges zeros = true) (hn : liesIn ranges n = true) :
    digitValueIn zeros n = none := by
  induction ranges generalizing zeros with
  | nil => cases hn
  | cons r rest ih =>
    obtain ⟨first, last⟩ := r
    simp only [liesIn, Bool.and_eq_true, Bool.not_eq_true', decide_eq_false_iff_not,
      Nat.not_lt, Bool.or_eq_true, decide_eq_true_eq] at hn
    obtain ⟨hfirst, hlast⟩ := hn
    rw [← digitValueIn_dropWhile hfirst]
    simp only [apart] at h
    split at h
    · next heq => rw [heq]; rfl
    · next z later heq =>
      rw [heq]
      rw [Bool.and_eq_true, decide_eq_true_eq] at h
      rcases hlast with hlast | hrest
      · rw [digitValueIn, if_pos (by omega)]
      · exact ih h.2 hrest

/-- No letter is a digit. -/
lemma isDigit_of_isLetter {c : Char} (h : isLetter c = true) : isDigit c = false := by
  have hapart : apart letterRanges.ranges zeroDigits = true := by decide +kernel
  rw [isDigit, digitValue?, digitValueIn_of_apart hapart h]
  rfl

lemma isLetter_of_isDigit {c : Char} (h : isDigit c = true) : isLetter c = false := by
  by_contra hl
  rw [isDigit_of_isLetter (by simpa using hl)] at h
  cases h

/-- The characters that start a lexeme and are neither letters nor digits. -/
lemma isWordPart_of_mem {c : Char} (h : c ∈ ['=', '!', '&', '|', '"', characterMark]) :
    isLetter c = false ∧ isDigit c = false := by
  have htable : ['=', '!', '&', '|', '"', characterMark].all
      (fun c => !isLetter c && !isDigit c) = true := by
    decide +kernel
  simpa using List.all_eq_true.mp htable c h

/-! ### The first character tells the rule -/

/-- What follows the first character of a text of the grammar. -/
def FormAt (c : Char) (cs : List Char) (k : TokenKind) : Prop :=
  if isLetter c then (∀ x ∈ cs, isWordPart x = true) ∧ k = (ofWord (String.ofList (c :: cs))).kind
  else if isDigit c then
    ((∀ x ∈ cs, isDigit x = true) ∧ k = .integerLiteral) ∨
      ∃ whole fraction, cs = whole ++ '.' :: fraction ∧ (∀ x ∈ whole, isDigit x = true) ∧
        (∀ x ∈ fraction, isDigit x = true) ∧ k = .realLiteral
  else if c = '"' then
    ∃ body, cs = body ++ ['"'] ∧ (∀ x ∈ body, isStringPart x = true) ∧ k = .stringLiteral
  else if c = characterMark then ∃ x, cs = [x, characterMark] ∧ x ≠ '\n' ∧ k = .charLiteral
  else (cs = [] ∧ TokenKind.symbols.lookup c = some k) ∨
    ∃ text, (k, text) ∈ operators ∧ text.toList = c :: cs

lemma lookup_keywords {word : String} {k : TokenKind} (h : (word, k) ∈ TokenKind.keywords) :
    TokenKind.keywords.lookup word = some k := by
  have htable : ∀ p ∈ TokenKind.keywords, TokenKind.keywords.lookup p.1 = some p.2 := by
    decide +kernel
  exact htable _ h

lemma lookup_keywords_eq_none {word : String} (h : word ∉ TokenKind.keywords.map Prod.fst) :
    TokenKind.keywords.lookup word = none := by
  rw [List.lookup_eq_none_iff]
  intro p hp
  simp only [bne_iff_ne, ne_eq]
  rintro rfl
  exact h (List.mem_map_of_mem hp)

lemma mem_symbols {c : Char} {k : TokenKind} (h : TokenKind.symbols.lookup c = some k) :
    (c, k) ∈ TokenKind.symbols := by
  obtain ⟨l₁, l₂, hl, -⟩ := List.lookup_eq_some_iff.mp h
  rw [hl]
  simp

lemma lookup_symbols {c : Char} {k : TokenKind} (h : (c, k) ∈ TokenKind.symbols) :
    TokenKind.symbols.lookup c = some k := by
  have htable : ∀ p ∈ TokenKind.symbols, TokenKind.symbols.lookup p.1 = some p.2 := by
    decide +kernel
  exact htable _ h

lemma Denotes.exists_formAt {w : List Char} {k : TokenKind} (h : Denotes w k) :
    ∃ c cs, w = c :: cs ∧ FormAt c cs k := by
  cases h with
  | @keyword c cs k hc hcs hk =>
    refine ⟨c, cs, rfl, ?_⟩
    rw [FormAt, if_pos hc, ofWord, lookup_keywords hk]
    exact ⟨fun x hx => by simpa [isWordPart] using hcs x hx, rfl⟩
  | @name c cs hc hcs hk =>
    refine ⟨c, cs, rfl, ?_⟩
    rw [FormAt, if_pos hc, ofWord, lookup_keywords_eq_none hk]
    exact ⟨fun x hx => by simpa [isWordPart] using hcs x hx, rfl⟩
  | @integer c cs hd =>
    obtain ⟨hc, hcs⟩ := List.forall_mem_cons.mp hd
    refine ⟨c, cs, rfl, ?_⟩
    rw [FormAt, if_neg (by simp [isLetter_of_isDigit hc]), if_pos hc]
    exact Or.inl ⟨hcs, rfl⟩
  | @real c whole fraction hw hf =>
    obtain ⟨hc, hcs⟩ := List.forall_mem_cons.mp hw
    refine ⟨c, _, rfl, ?_⟩
    rw [FormAt, if_neg (by simp [isLetter_of_isDigit hc]), if_pos hc]
    exact Or.inr ⟨whole, fraction, rfl, hcs, hf, rfl⟩
  | @string body hb =>
    obtain ⟨hl, hd⟩ := isWordPart_of_mem (c := '"') (by simp)
    refine ⟨'"', _, rfl, ?_⟩
    rw [FormAt, if_neg (by simp [hl]), if_neg (by simp [hd]), if_pos rfl]
    exact ⟨body, rfl, fun x hx => by simpa [isStringPart] using hb x hx, rfl⟩
  | @character x hx =>
    obtain ⟨hl, hd⟩ := isWordPart_of_mem (c := characterMark) (by simp)
    refine ⟨characterMark, _, rfl, ?_⟩
    rw [FormAt, if_neg (by simp [hl]), if_neg (by simp [hd]), if_neg (by decide), if_pos rfl]
    exact ⟨x, rfl, hx, rfl⟩
  | @symbol c k hk =>
    obtain ⟨hl, hd, -, hq, hm⟩ := isBlank_of_lookup (lookup_symbols hk)
    refine ⟨c, [], rfl, ?_⟩
    rw [FormAt, if_neg (by simp [hl]), if_neg (by simp [hd]), if_neg hq, if_neg hm]
    exact Or.inl ⟨rfl, lookup_symbols hk⟩
  | @operator text k hk =>
    obtain ⟨c, cs, htext, hc⟩ : ∃ c cs, text.toList = c :: cs ∧ c ∈ ['=', '!', '&', '|'] := by
      have htable : ∀ p ∈ operators, p.2.toList.head? ∈ ['=', '!', '&', '|'].map some := by
        decide +kernel
      obtain ⟨c, hc, hhead⟩ := List.mem_map.mp (htable _ hk)
      obtain ⟨cs, htext⟩ := List.head?_eq_some_iff.mp hhead.symm
      exact ⟨c, cs, htext, hc⟩
    obtain ⟨hl, hd⟩ := isWordPart_of_mem (List.mem_append_left ['"', characterMark] hc)
    refine ⟨c, cs, htext, ?_⟩
    rw [FormAt, if_neg (by simp [hl]), if_neg (by simp [hd]), if_neg ?_, if_neg ?_]
    · exact Or.inr ⟨text, hk, htext⟩
    · rintro rfl
      exact absurd hc (by decide)
    · rintro rfl
      exact absurd hc (by decide)

/-- A text of the grammar with which another text starts. -/
lemma Denotes.exists_formAt_of_prefix {c : Char} {v rest : List Char} {k : TokenKind}
    (h : Denotes v k) (hv : v <+: c :: rest) : ∃ cs, v = c :: cs ∧ cs <+: rest ∧ FormAt c cs k := by
  obtain ⟨c', cs, rfl, hform⟩ := h.exists_formAt
  obtain ⟨rfl, hcs⟩ := List.cons_prefix_cons.mp hv
  exact ⟨cs, rfl, hcs, hform⟩

/-- The symbols and operators are different texts. -/
lemma kind_eq_of_operators {text : String} {k k' : TokenKind} (h : (k, text) ∈ operators)
    (h' : (k', text) ∈ operators) : k = k' := by
  have htable : ∀ p ∈ operators, ∀ q ∈ operators, p.2 = q.2 → p.1 = q.1 := by decide +kernel
  exact htable _ h _ h' rfl

lemma ne_of_lookup_of_operators {c : Char} {text : String} {k k' : TokenKind}
    (h : TokenKind.symbols.lookup c = some k) (h' : (k', text) ∈ operators) :
    text.toList ≠ [c] := by
  have htable : ∀ p ∈ TokenKind.symbols, ∀ q ∈ operators, q.2.toList ≠ [p.1] := by decide +kernel
  exact htable _ (mem_symbols h) _ h'

/-- The kind of a token is determined by its text. -/
lemma FormAt.unique {c : Char} {cs : List Char} {k k' : TokenKind} (h : FormAt c cs k)
    (h' : FormAt c cs k') : k = k' := by
  have hpoint : isDigit '.' = false := by decide
  unfold FormAt at h h'
  split_ifs at h h'
  · exact h.2.trans h'.2.symm
  · rcases h with ⟨hcs, rfl⟩ | ⟨whole, fraction, rfl, -, -, rfl⟩ <;>
      rcases h' with ⟨hcs', rfl⟩ | ⟨whole', fraction', heq, -, -, rfl⟩
    · rfl
    · have := hcs '.' (by simp [heq])
      simp [hpoint] at this
    · have := hcs' '.' (by simp)
      simp [hpoint] at this
    · rfl
  · obtain ⟨-, -, -, rfl⟩ := h
    obtain ⟨-, -, -, rfl⟩ := h'
    rfl
  · obtain ⟨-, -, -, rfl⟩ := h
    obtain ⟨-, -, -, rfl⟩ := h'
    rfl
  · rcases h with ⟨rfl, hk⟩ | ⟨text, hk, htext⟩ <;> rcases h' with ⟨hcs, hk'⟩ | ⟨text', hk', htext'⟩
    · rw [hk] at hk'
      cases hk'
      rfl
    · exact absurd htext' (ne_of_lookup_of_operators hk hk')
    · subst hcs
      exact absurd htext (ne_of_lookup_of_operators hk' hk)
    · obtain rfl : text = text' := String.toList_injective (htext.trans htext'.symm)
      exact kind_eq_of_operators hk hk'

/-! ### Readers find longest matches -/

/-- The text `w` is the longest beginning of `rest` in the grammar, and of kind `k`. -/
structure Longest (rest w : List Char) (k : TokenKind) : Prop where
  denotes : Denotes w k
  starts : w <+: rest
  length_le : ∀ v j, v <+: rest → Denotes v j → v.length ≤ w.length

/-- What a reader makes of a text: a fault if the text starts with nothing in the grammar, or else
the longest beginning in the grammar, which is a fault only as a number out of range. -/
def Munches (s : Scan) (rest : List Char) : Prop :=
  (∃ fault, s.outcome = .error fault ∧ ∀ w k, w <+: rest → ¬ Denotes w k) ∨
    ∃ w k, Longest rest w k ∧ s.length = w.length ∧
      ((OutOfRange w ∧ s.outcome = .error (.invalidNumber (String.ofList w))) ∨
        (¬ OutOfRange w ∧ ∃ v, s.outcome = .ok ⟨k, String.ofList w, v⟩))

/-- No beginning of a text within a class of characters is longer than its run of this class. -/
lemma length_le_takeWhile {p : Char → Bool} {v rest : List Char} (hv : v <+: rest)
    (hp : ∀ x ∈ v, p x = true) : v.length ≤ (rest.takeWhile p).length := by
  obtain ⟨more, rfl⟩ := hv
  rw [List.takeWhile_append_of_pos hp, List.length_append]
  exact Nat.le_add_right _ _

lemma not_outOfRange {c : Char} {cs : List Char} (hc : isDigit c = false) :
    ¬ OutOfRange (c :: cs) := by
  rintro ⟨hd, -⟩
  have := hd c (by simp)
  simp [hc] at this

variable {c : Char} {rest : List Char}

/-- A word is a keyword if it is one of the keywords, and else a name. -/
lemma denotes_word {cs : List Char} (hc : isLetter c = true) (hcs : ∀ x ∈ cs, isWordPart x = true) :
    Denotes (c :: cs) (ofWord (String.ofList (c :: cs))).kind := by
  have hparts : ∀ x ∈ cs, isLetter x = true ∨ isDigit x = true :=
    fun x hx => by simpa [isWordPart] using hcs x hx
  rw [ofWord]
  split
  · next k hk =>
    obtain ⟨l₁, l₂, hl, -⟩ := List.lookup_eq_some_iff.mp hk
    exact .keyword hc hparts (by rw [hl]; simp)
  · next hk =>
    refine .name hc hparts fun hmem => ?_
    obtain ⟨p, hp, heq⟩ := List.mem_map.mp hmem
    rw [← heq, lookup_keywords hp] at hk
    cases hk

lemma ofWord_eq (word : String) : ofWord word = ⟨(ofWord word).kind, word, (ofWord word).value⟩ := by
  rw [ofWord]
  split <;> rfl

lemma munches_scanWord (hc : isLetter c = true) : Munches (scanWord (c :: rest)) (c :: rest) := by
  have hpart : isWordPart c = true := by simp [isWordPart, hc]
  have hword : (c :: rest).takeWhile isWordPart = c :: rest.takeWhile isWordPart :=
    List.takeWhile_cons_of_pos hpart
  have hlongest : Longest (c :: rest) (c :: rest.takeWhile isWordPart)
      (ofWord (String.ofList (c :: rest.takeWhile isWordPart))).kind := by
    refine ⟨denotes_word hc fun x hx => List.mem_takeWhile_imp hx, ?_, fun v j hv hd => ?_⟩
    · rw [← hword]
      exact List.takeWhile_prefix _
    · obtain ⟨cs, rfl, -, hform⟩ := hd.exists_formAt_of_prefix hv
      rw [FormAt, if_pos hc] at hform
      rw [← hword]
      exact length_le_takeWhile hv (List.forall_mem_cons.mpr ⟨hpart, hform.1⟩)
  refine Or.inr ⟨_, _, hlongest, ?_, Or.inr ⟨not_outOfRange (isDigit_of_isLetter hc), ?_⟩⟩
  · simp only [scanWord, hword]
  · simp only [scanWord, hword]
    exact ⟨_, congrArg Except.ok (ofWord_eq _)⟩

/-- A text that starts with a digit is a run of digits, or two runs with a point between them. -/
lemma Denotes.number_cases {v : List Char} {k : TokenKind} (h : Denotes v k)
    (hc : isDigit c = true) (hv : v <+: c :: rest) :
    (∀ x ∈ v, isDigit x = true) ∨ ∃ whole fraction, v = whole ++ '.' :: fraction ∧
      (∀ x ∈ whole, isDigit x = true) ∧ ∀ x ∈ fraction, isDigit x = true := by
  obtain ⟨cs, rfl, -, hform⟩ := h.exists_formAt_of_prefix hv
  rw [FormAt, if_neg (by simp [isLetter_of_isDigit hc]), if_pos hc] at hform
  rcases hform with ⟨hcs, -⟩ | ⟨whole, fraction, rfl, hw, hf, -⟩
  · exact Or.inl (List.forall_mem_cons.mpr ⟨hc, hcs⟩)
  · exact Or.inr ⟨c :: whole, fraction, rfl, List.forall_mem_cons.mpr ⟨hc, hw⟩, hf⟩

/-- A point divides a text where its first run of digits ends. -/
lemma takeWhile_isDigit_of_prefix {whole fraction cs : List Char}
    (hw : ∀ x ∈ whole, isDigit x = true) (h : whole ++ '.' :: fraction <+: cs) :
    cs.takeWhile isDigit = whole ∧ ∃ tail, cs.dropWhile isDigit = '.' :: tail ∧ fraction <+: tail := by
  obtain ⟨more, rfl⟩ := h
  have hpoint : ∀ b ∈ ('.' :: (fraction ++ more)).head?, isDigit b = false := by
    simp only [List.head?_cons, Option.mem_def, Option.some.injEq, forall_eq']
    decide
  obtain ⟨htake, hdrop⟩ := takeWhile_append_of_head hw hpoint
  rw [List.append_assoc, List.cons_append]
  exact ⟨htake, _, hdrop, List.prefix_append _ _⟩

/-- A run of digits is a fault if it is too long or stands for too large a number. -/
lemma ofInteger_of_ne_nil {digits : List Char} (h : digits ≠ []) :
    ofInteger digits = if maxDigits < digits.length ∨ maxInteger < numeral digits
      then .error (.invalidNumber (String.ofList digits))
      else .ok ⟨.integerLiteral, String.ofList digits, .int (numeral digits)⟩ := by
  have hempty : digits.isEmpty = false := by simpa using h
  simp only [ofInteger, hempty, Bool.false_or, decide_eq_true_eq]
  by_cases hlong : maxDigits < digits.length
  · rw [if_pos hlong, if_pos (Or.inl hlong)]
  · simp only [hlong, if_false, false_or]

lemma ofInteger_cases (c : Char) {cs : List Char} (hd : ∀ x ∈ c :: cs, isDigit x = true) :
    (OutOfRange (c :: cs) ∧
        ofInteger (c :: cs) = .error (.invalidNumber (String.ofList (c :: cs)))) ∨
      (¬ OutOfRange (c :: cs) ∧
        ∃ v, ofInteger (c :: cs) = .ok ⟨.integerLiteral, String.ofList (c :: cs), v⟩) := by
  have hrange : OutOfRange (c :: cs) ↔
      maxDigits < (c :: cs).length ∨ maxInteger < numeral (c :: cs) := and_iff_right hd
  rw [ofInteger_of_ne_nil (List.cons_ne_nil c cs)]
  by_cases hr : OutOfRange (c :: cs)
  · exact Or.inl ⟨hr, if_pos (hrange.mp hr)⟩
  · exact Or.inr ⟨hr, _, if_neg (mt hrange.mpr hr)⟩

lemma munches_scanNumber (hc : isDigit c = true) :
    Munches (scanNumber (c :: rest)) (c :: rest) := by
  have hwhole : (c :: rest).takeWhile isDigit = c :: rest.takeWhile isDigit :=
    List.takeWhile_cons_of_pos hc
  have hdigits : ∀ x ∈ c :: rest.takeWhile isDigit, isDigit x = true :=
    List.forall_mem_cons.mpr ⟨hc, fun x hx => List.mem_takeWhile_imp hx⟩
  have hrun : ∀ v, v <+: c :: rest → (∀ x ∈ v, isDigit x = true) →
      v.length ≤ (c :: rest.takeWhile isDigit).length :=
    fun v hv hd => hwhole ▸ length_le_takeWhile hv hd
  have htext := List.takeWhile_append_dropWhile (p := isDigit) (l := c :: rest)
  rw [hwhole] at htext
  right
  simp only [scanNumber, hwhole]
  split
  · next tail htail =>
    rw [htail] at htext
    refine ⟨c :: (rest.takeWhile isDigit ++ '.' :: tail.takeWhile isDigit), .realLiteral,
      ⟨.real hdigits fun x hx => List.mem_takeWhile_imp hx, ?_, fun v j hv hd => ?_⟩, ?_,
      Or.inr ⟨?_, _, rfl⟩⟩
    · rw [← htext, ← List.cons_append, List.prefix_append_right_inj, List.cons_prefix_cons]
      exact ⟨rfl, List.takeWhile_prefix _⟩
    · rcases hd.number_cases hc hv with hv' | ⟨whole, fraction, rfl, hw, hf⟩
      · have := hrun v hv hv'
        simp only [List.length_cons, List.length_append] at this ⊢
        omega
      · obtain ⟨hwhole', tail', htail', hfraction⟩ := takeWhile_isDigit_of_prefix hw hv
        rw [htail] at htail'
        cases htail'
        have := length_le_takeWhile hfraction hf
        rw [← hwhole', hwhole]
        simp only [List.length_cons, List.length_append]
        omega
    · simp only [List.length_cons, List.length_append]
      omega
    · rintro ⟨hd, -⟩
      have := hd '.' (by simp)
      revert this
      decide
  · next htail =>
    refine ⟨c :: rest.takeWhile isDigit, .integerLiteral, ⟨.integer hdigits, ?_, fun v j hv hd => ?_⟩,
      rfl, ofInteger_cases c hdigits⟩
    · exact ⟨_, htext⟩
    · rcases hd.number_cases hc hv with hv' | ⟨whole, fraction, rfl, hw, hf⟩
      · exact hrun v hv hv'
      · obtain ⟨-, tail', htail', -⟩ := takeWhile_isDigit_of_prefix hw hv
        exact absurd htail' (htail tail')

lemma Denotes.exists_body {v : List Char} {k : TokenKind} (h : Denotes v k)
    (hv : v <+: '"' :: rest) : ∃ more, v = '"' :: (rest.takeWhile isStringPart ++ ['"']) ∧
      rest.dropWhile isStringPart = '"' :: more := by
  obtain ⟨hl, hd⟩ := isWordPart_of_mem (c := '"') (by simp)
  obtain ⟨cs, rfl, hcs, hform⟩ := h.exists_formAt_of_prefix hv
  rw [FormAt, if_neg (by simp [hl]), if_neg (by simp [hd]), if_pos rfl] at hform
  obtain ⟨body, rfl, hbody, -⟩ := hform
  obtain ⟨more, rfl⟩ := hcs
  have hquote : ∀ b ∈ ('"' :: more).head?, isStringPart b = false := by simp [isStringPart]
  obtain ⟨htake, hdrop⟩ := takeWhile_append_of_head hbody hquote
  rw [List.append_assoc, List.singleton_append]
  exact ⟨more, by rw [htake], hdrop⟩

lemma ofList_quoted (body : List Char) :
    String.ofList ('"' :: (body ++ ['"'])) = "\"" ++ String.ofList body ++ "\"" := by
  apply String.toList_injective
  simp [String.toList_append]

lemma munches_scanString (rest : List Char) : Munches (scanString ('"' :: rest)) ('"' :: rest) := by
  have hquote : isDigit '"' = false := (isWordPart_of_mem (by simp)).2
  have hrest := List.takeWhile_append_dropWhile (p := isStringPart) (l := rest)
  simp only [scanString]
  split
  · next more hdrop =>
    rw [hdrop] at hrest
    refine Or.inr ⟨'"' :: (rest.takeWhile isStringPart ++ ['"']), .stringLiteral,
      ⟨.string fun x hx => ?_, ?_, fun v j hv hd => ?_⟩, by simp,
      Or.inr ⟨not_outOfRange hquote, .text (String.ofList (rest.takeWhile isStringPart)), ?_⟩⟩
    · simpa [isStringPart] using List.mem_takeWhile_imp hx
    · refine List.cons_prefix_cons.mpr ⟨rfl, more, ?_⟩
      rw [List.append_assoc, List.singleton_append, hrest]
    · obtain ⟨_, rfl, -⟩ := hd.exists_body hv
      exact le_rfl
    · rw [ofList_quoted]
  · next hdrop =>
    refine Or.inl ⟨_, rfl, fun w k hw hd => ?_⟩
    obtain ⟨more, -, hmore⟩ := hd.exists_body hw
    exact hdrop more hmore

lemma Denotes.eq_character {v : List Char} {k : TokenKind} (h : Denotes v k)
    (hv : v <+: characterMark :: rest) :
    ∃ x more, v = [characterMark, x, characterMark] ∧ rest = x :: characterMark :: more ∧
      x ≠ '\n' := by
  obtain ⟨hl, hd⟩ := isWordPart_of_mem (c := characterMark) (by simp)
  obtain ⟨cs, rfl, hcs, hform⟩ := h.exists_formAt_of_prefix hv
  rw [FormAt, if_neg (by simp [hl]), if_neg (by simp [hd]), if_neg (by decide), if_pos rfl] at hform
  obtain ⟨x, rfl, hx, -⟩ := hform
  obtain ⟨more, rfl⟩ := hcs
  exact ⟨x, more, rfl, rfl, hx⟩

lemma munches_scanCharacter (rest : List Char) :
    Munches (scanCharacter (characterMark :: rest)) (characterMark :: rest) := by
  have hmark : isDigit characterMark = false := (isWordPart_of_mem (by simp)).2
  cases rest with
  | nil =>
    refine Or.inl ⟨_, rfl, fun w k hw hd => ?_⟩
    obtain ⟨x, more, -, hrest, -⟩ := hd.eq_character hw
    cases hrest
  | cons x rest =>
    simp only [scanCharacter]
    split_ifs with hx hm
    · refine Or.inl ⟨_, rfl, fun w k hw hd => ?_⟩
      obtain ⟨y, more, -, hrest, hy⟩ := hd.eq_character hw
      cases hrest
      exact hy hx
    · obtain ⟨more, rfl⟩ := List.head?_eq_some_iff.mp hm
      refine Or.inr ⟨[characterMark, x, characterMark], .charLiteral,
        ⟨.character hx, ⟨more, rfl⟩, fun v j hv hd => ?_⟩, rfl,
        Or.inr ⟨not_outOfRange hmark, _, rfl⟩⟩
      obtain ⟨y, _, rfl, -, -⟩ := hd.eq_character hv
      exact le_rfl
    · refine Or.inl ⟨_, rfl, fun w k hw hd => ?_⟩
      obtain ⟨y, more, -, hrest, -⟩ := hd.eq_character hw
      cases hrest
      exact hm rfl

/-- The operators of two characters. -/
def pairs : List (Char × Char) :=
  [('=', '='), ('=', '>'), ('=', '<'), ('!', '='), ('&', '&'), ('|', '|')]

/-- An operator has one character, or two that make a pair. -/
lemma operators_cases {k : TokenKind} {text : String} (h : (k, text) ∈ operators)
    (hv : text.toList <+: c :: rest) :
    (text.toList = [c] ∧ c ∈ ['=', '!']) ∨
      ∃ d, text.toList = [c, d] ∧ rest.head? = some d ∧ (c, d) ∈ pairs := by
  have htable : ∀ p ∈ operators, p.2.toList ∈ ['=', '!'].map (fun c => [c]) ∨
      p.2.toList ∈ pairs.map (fun q => [q.1, q.2]) := by
    decide +kernel
  rcases htable _ h with hsingle | hpair
  · obtain ⟨x, hx, htext⟩ := List.mem_map.mp hsingle
    rw [← htext, List.cons_prefix_cons] at hv
    obtain ⟨rfl, -⟩ := hv
    exact Or.inl ⟨htext.symm, hx⟩
  · obtain ⟨⟨x, d⟩, hpair, htext⟩ := List.mem_map.mp hpair
    rw [← htext, List.cons_prefix_cons] at hv
    obtain ⟨rfl, more, rfl⟩ := hv
    exact Or.inr ⟨d, htext.symm, rfl, hpair⟩

/-- The characters that start a symbol or an operator. -/
structure Plain (c : Char) : Prop where
  letter : isLetter c = false
  digit : isDigit c = false
  quote : c ≠ '"'
  mark : c ≠ characterMark

lemma Denotes.symbol_cases {v : List Char} {k : TokenKind} (h : Denotes v k) (hc : Plain c)
    (hv : v <+: c :: rest) :
    (v = [c] ∧ (TokenKind.symbols.lookup c = some k ∨ c ∈ ['=', '!'])) ∨
      ∃ d, v = [c, d] ∧ rest.head? = some d ∧ (c, d) ∈ pairs := by
  obtain ⟨cs, rfl, -, hform⟩ := h.exists_formAt_of_prefix hv
  rw [FormAt, if_neg (by simp [hc.letter]), if_neg (by simp [hc.digit]), if_neg hc.quote,
    if_neg hc.mark] at hform
  rcases hform with ⟨rfl, hk⟩ | ⟨text, hk, htext⟩
  · exact Or.inl ⟨rfl, Or.inl hk⟩
  · rw [← htext] at hv ⊢
    rcases operators_cases hk hv with ⟨htext, hmem⟩ | hpair
    · exact Or.inl ⟨htext, Or.inr hmem⟩
    · exact Or.inr hpair

/-- A pair is the longest match wherever it stands. -/
lemma munches_pair {k : TokenKind} {text : String} {d : Char} (hc : Plain c)
    (hk : (k, text) ∈ operators) (htext : text.toList = [c, d]) (hd : rest.head? = some d) :
    Munches (symbol k text) (c :: rest) := by
  obtain ⟨more, rfl⟩ := List.head?_eq_some_iff.mp hd
  have hdenotes : Denotes [c, d] k := htext ▸ .operator hk
  refine Or.inr ⟨[c, d], k, ⟨hdenotes, ⟨more, rfl⟩, fun v j hv hd => ?_⟩, ?_,
    Or.inr ⟨not_outOfRange hc.digit, .absent, ?_⟩⟩
  · rcases hd.symbol_cases hc hv with ⟨rfl, -⟩ | ⟨_, rfl, -⟩
    · simp
    · exact le_rfl
  · rw [← htext]
    rfl
  · rw [← htext, String.ofList_toList]
    rfl

/-- A single character is the longest match where it does not make a pair with the next one. -/
lemma munches_single {k : TokenKind} (hc : Plain c) (hk : Denotes [c] k)
    (hno : ∀ d, rest.head? = some d → (c, d) ∉ pairs) :
    Munches ⟨1, .ok ⟨k, String.ofList [c], .absent⟩⟩ (c :: rest) := by
  refine Or.inr ⟨[c], k, ⟨hk, ⟨rest, rfl⟩, fun v j hv hd => ?_⟩, rfl,
    Or.inr ⟨not_outOfRange hc.digit, .absent, rfl⟩⟩
  rcases hd.symbol_cases hc hv with ⟨rfl, -⟩ | ⟨d, -, hhead, hpair⟩
  · exact le_rfl
  · exact absurd hpair (hno d hhead)

/-- A character that is no symbol and makes no pair with the next one starts nothing. -/
lemma munches_fault {fault : LexicalFault} (hc : Plain c)
    (hk : TokenKind.symbols.lookup c = none) (hmem : c ∉ ['=', '!'])
    (hno : ∀ d, rest.head? = some d → (c, d) ∉ pairs) :
    Munches ⟨1, .error fault⟩ (c :: rest) := by
  refine Or.inl ⟨fault, rfl, fun w k hw hd => ?_⟩
  rcases hd.symbol_cases hc hw with ⟨-, hk' | hc'⟩ | ⟨d, -, hhead, hpair⟩
  · rw [hk] at hk'
    cases hk'
  · exact hmem hc'
  · exact hno d hhead hpair

lemma munches_scanSymbol (hc : Plain c) : Munches (scanSymbol c rest) (c :: rest) := by
  unfold scanSymbol
  split
  case h_1 hd => exact munches_pair hc (by decide) rfl hd
  case h_2 hd => exact munches_pair hc (by decide) rfl hd
  case h_3 hd => exact munches_pair hc (by decide) rfl hd
  case h_4 h₁ h₂ h₃ =>
    have hassign : Denotes "=".toList .assign := .operator (by decide)
    refine munches_single hc hassign fun d hd hpair => ?_
    have hd' : d = '=' ∨ d = '>' ∨ d = '<' := by simpa [pairs] using hpair
    rcases hd' with rfl | rfl | rfl
    · exact h₁ hd
    · exact h₂ hd
    · exact h₃ hd
  case h_5 hd => exact munches_pair hc (by decide) rfl hd
  case h_6 h₁ =>
    have hnot : Denotes "!".toList .not := .operator (by decide)
    refine munches_single hc hnot fun d hd hpair => ?_
    obtain rfl : d = '=' := by simpa [pairs] using hpair
    exact h₁ hd
  case h_7 hd => exact munches_pair hc (by decide) rfl hd
  case h_8 h₁ =>
    refine munches_fault hc (by decide) (by decide) fun d hd hpair => ?_
    obtain rfl : d = '&' := by simpa [pairs] using hpair
    exact h₁ hd
  case h_9 hd => exact munches_pair hc (by decide) rfl hd
  case h_10 h₁ =>
    refine munches_fault hc (by decide) (by decide) fun d hd hpair => ?_
    obtain rfl : d = '|' := by simpa [pairs] using hpair
    exact h₁ hd
  case h_11 x _ _ heq hnot hand hor _ _ _ _ _ _ =>
    have hx : x ∉ ['=', '!', '&', '|'] := by
      simpa using ⟨heq, hnot, hand, hor⟩
    have hno : ∀ d, rest.head? = some d → (x, d) ∉ pairs := by
      intro d _ hpair
      have htable : ∀ p ∈ pairs, p.1 ∈ ['=', '!', '&', '|'] := by decide
      exact hx (htable _ hpair)
    split
    · next k hk => exact munches_single hc (.symbol (mem_symbols hk)) hno
    · next hk =>
      refine munches_fault hc hk (fun hmem => hx ?_) hno
      exact List.mem_append_left ['&', '|'] hmem

/-- Reading a text at a character that is not blank finds the longest match. -/
lemma munches_scanToken (c : Char) (rest : List Char) :
    Munches (scanToken (c :: rest)) (c :: rest) := by
  simp only [scanToken]
  split_ifs with hl hd hq hm
  · exact munches_scanWord hl
  · exact munches_scanNumber hd
  · subst hq
    exact munches_scanString rest
  · subst hm
    exact munches_scanCharacter rest
  · exact munches_scanSymbol ⟨by simpa using hl, by simpa using hd, hq, hm⟩

/-! ### The longest match is unique -/

lemma Longest.unique {rest w w' : List Char} {k k' : TokenKind} (h : Longest rest w k)
    (h' : Longest rest w' k') : w = w' ∧ k = k' := by
  have hlength : w.length = w'.length :=
    le_antisymm (h'.length_le w k h.starts h.denotes) (h.length_le w' k' h'.starts h'.denotes)
  obtain rfl : w = w' := by
    rw [List.prefix_iff_eq_take.mp h.starts, List.prefix_iff_eq_take.mp h'.starts, hlength]
  obtain ⟨c, cs, rfl, hform⟩ := h.denotes.exists_formAt
  obtain ⟨_, _, heq, hform'⟩ := h'.denotes.exists_formAt
  cases heq
  exact ⟨rfl, hform.unique hform'⟩

/-- The keyword of two words is spelled by no single word. -/
lemma Denotes.ne_stringKw {w : List Char} {k : TokenKind} (h : Denotes w k) : k ≠ .stringKw := by
  cases h with
  | @keyword c cs k hc hcs hk =>
    rintro rfl
    have htable : ∀ p ∈ TokenKind.keywords, p.2 = .stringKw → ' ' ∈ p.1.toList := by decide +kernel
    have hblank : isLetter ' ' = false ∧ isDigit ' ' = false := by decide +kernel
    have hmem := htable _ hk rfl
    rw [String.toList_ofList] at hmem
    rcases List.mem_cons.mp hmem with rfl | hmem
    · simp [hblank.1] at hc
    · simpa [hblank] using hcs ' ' hmem
  | symbol hk =>
    have htable : ∀ p ∈ TokenKind.symbols, p.2 ≠ .stringKw := by decide
    exact htable _ hk
  | operator hk =>
    have htable : ∀ p ∈ operators, p.1 ≠ .stringKw := by decide
    exact htable _ hk
  | name | integer | real | string | character => decide

end Lexeme

/-! ### Cursors -/

namespace Cursor

variable {c : Cursor}

lemma nextToken_of_nil (hr : c.skipBlanks.rest = []) :
    c.nextToken = ⟨.ok ⟨.eof, "EOF", .absent, c.skipBlanks.position⟩, c.skipBlanks⟩ := by
  simp only [nextToken, read, hr]
  rfl

/-- What is read behind the blanks is the longest match there, if there is one. -/
lemma nextToken_munches (hr : c.skipBlanks.rest ≠ []) :
    (∃ fault, c.nextToken.outcome = .error ⟨fault, c.skipBlanks.position⟩ ∧
      ∀ w k, w <+: c.skipBlanks.rest → ¬ Lexeme.Denotes w k) ∨
    ∃ w k, Lexeme.Longest c.skipBlanks.rest w k ∧
      c.nextToken.next = c.skipBlanks.advance w.length ∧
      ((Lexeme.OutOfRange w ∧ c.nextToken.outcome =
          .error ⟨.invalidNumber (String.ofList w), c.skipBlanks.position⟩) ∨
        (¬ Lexeme.OutOfRange w ∧ ∃ v, c.nextToken.outcome =
          .ok ⟨k, String.ofList w, v, c.skipBlanks.position⟩)) := by
  obtain ⟨x, rest, hr⟩ := List.exists_cons_of_ne_nil hr
  have hread : c.nextToken = c.skipBlanks.read Lexeme.scanToken c.skipBlanks.position := rfl
  rw [hread, hr]
  rcases Lexeme.munches_scanToken x rest with ⟨fault, hfault, hnone⟩ | ⟨w, k, hw, hlength, hout⟩
  · refine Or.inl ⟨fault, ?_, hnone⟩
    simp only [read, hr, hfault]
  · refine Or.inr ⟨w, k, hw, by simp only [read, hr, hlength], ?_⟩
    rcases hout with ⟨hrange, hout⟩ | ⟨hrange, v, hout⟩
    · exact Or.inl ⟨hrange, by simp only [read, hr, hout]⟩
    · exact Or.inr ⟨hrange, v, by simp only [read, hr, hout]⟩

end Cursor

/-- A cursor moves over blanks and then reads the longest match of the lexical grammar. At the end
of the text this is the end token. If the text starts with nothing in the grammar, a fault is
reported at this place. Otherwise the cursor moves over exactly the longest beginning in the
grammar, and finds a token of the kind that this beginning denotes, unless it is a number out of
range. The keyword that is spelled in two words is never found. -/
theorem nextToken_longest_match (c : Cursor) :
    (c.skipBlanks.rest = [] →
      c.nextToken = ⟨.ok ⟨.eof, "EOF", .absent, c.skipBlanks.position⟩, c.skipBlanks⟩) ∧
    (c.skipBlanks.rest ≠ [] → (∀ w k, w <+: c.skipBlanks.rest → ¬ Lexeme.Denotes w k) →
      ∃ fault, c.nextToken.outcome = .error ⟨fault, c.skipBlanks.position⟩) ∧
    (∀ v j, v <+: c.skipBlanks.rest → Lexeme.Denotes v j →
      ∃ w k, Lexeme.Longest c.skipBlanks.rest w k) ∧
    (∀ w k, Lexeme.Longest c.skipBlanks.rest w k →
      c.nextToken.next = c.skipBlanks.advance w.length ∧
      (Lexeme.OutOfRange w → ∃ e, c.nextToken.outcome = .error e ∧
        e.position = c.skipBlanks.position ∧
        e.fault.text = "Invalid number format: " ++ String.ofList w) ∧
      (¬ Lexeme.OutOfRange w → ∃ value,
        c.nextToken.outcome = .ok ⟨k, String.ofList w, value, c.skipBlanks.position⟩)) ∧
    ∀ t, c.nextToken.outcome = .ok t → t.kind ≠ .stringKw := by
  by_cases hr : c.skipBlanks.rest = []
  · have hend := Cursor.nextToken_of_nil hr
    have hnone : ∀ w k, w <+: c.skipBlanks.rest → ¬ Lexeme.Denotes w k := by
      intro w k hw hd
      obtain ⟨x, xs, rfl, -⟩ := hd.exists_formAt
      rw [hr] at hw
      exact List.cons_ne_nil x xs (List.prefix_nil.mp hw)
    refine ⟨fun _ => hend, fun hne => absurd hr hne, fun v j hv hd => absurd hd (hnone v j hv),
      fun w k hw => absurd hw.denotes (hnone w k hw.starts), fun t ht => ?_⟩
    rw [hend] at ht
    cases ht
    exact TokenKind.noConfusion
  · rcases Cursor.nextToken_munches hr with ⟨fault, hfault, hnone⟩ | ⟨w, k, hw, hnext, hout⟩
    · refine ⟨fun h => absurd h hr, fun _ _ => ⟨fault, hfault⟩,
        fun v j hv hd => absurd hd (hnone v j hv),
        fun w k hw => absurd hw.denotes (hnone w k hw.starts), fun t ht => ?_⟩
      rw [hfault] at ht
      cases ht
    · refine ⟨fun h => absurd h hr, fun _ hnone => absurd hw.denotes (hnone w k hw.starts),
        fun _ _ _ _ => ⟨w, k, hw⟩, fun w' k' hw' => ?_, fun t ht => ?_⟩
      · obtain ⟨rfl, rfl⟩ := hw'.unique hw
        refine ⟨hnext, fun hrange => ?_, fun hrange => ?_⟩
        · rcases hout with ⟨-, hout⟩ | ⟨hrange', -⟩
          · exact ⟨_, hout, rfl, rfl⟩
          · exact absurd hrange hrange'
        · rcases hout with ⟨hrange', -⟩ | ⟨-, hout⟩
          · exact absurd hrange' hrange
          · exact hout
      · rcases hout with ⟨-, hout⟩ | ⟨-, v, hout⟩ <;> rw [hout] at ht <;> cases ht
        exact hw.denotes.ne_stringKw

end Barnamaj

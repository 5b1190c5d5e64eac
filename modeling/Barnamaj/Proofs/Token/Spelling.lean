import Barnamaj.Token.Cursor
import Mathlib.Data.List.TakeWhile
import Mathlib.Tactic.Common

/-!
# Spellings of lexemes

The lexemes that can be read at all are listed by form (`Lexeme.Formed`). Each of them is read
again, with the same kind and value, wherever its text stands in front of a blank or of the end of
the text (`Lexeme.Stable`), because a blank continues no word, no number and no symbol. So lexemes
can be written down with blanks between them and are found again.
-/

namespace Barnamaj

open Text

namespace Lexeme

/-! ### Blanks end a lexeme -/

/-- A rest of the text that is empty or starts with a blank. -/
def Ends (rest : List Char) : Prop := ∀ b ∈ rest.head?, isBlank b = true

/-- No blank is a letter or a digit. -/
lemma isWordPart_of_isBlank {b : Char} (h : isBlank b = true) : isWordPart b = false := by
  have hclasses : ∀ r ∈ blankRanges.ranges, ∀ n ∈ List.range' r.1 (r.2 + 1 - r.1),
      letterRanges.contains n = false ∧ digitValueIn zeroDigits n = none := by
    decide +kernel
  obtain ⟨r, hr, hle, hge⟩ := blankRanges.contains_iff.mp h
  have hmem : b.toNat ∈ List.range' r.1 (r.2 + 1 - r.1) := by
    rw [List.mem_range'_1]
    omega
  obtain ⟨hletter, hdigit⟩ := hclasses r hr b.toNat hmem
  simp [isWordPart, isLetter, isDigit, digitValue?, hletter, hdigit]

lemma isDigit_of_isWordPart {c : Char} (h : isWordPart c = false) : isDigit c = false := by
  simp only [isWordPart, Bool.or_eq_false_iff] at h
  exact h.2

variable {rest : List Char}

/-- A run of characters of a class ends where a character outside of it follows. -/
lemma takeWhile_append_of_head {p : Char → Bool} {cs : List Char} (hcs : ∀ c ∈ cs, p c = true)
    (hr : ∀ b ∈ rest.head?, p b = false) :
    (cs ++ rest).takeWhile p = cs ∧ (cs ++ rest).dropWhile p = rest := by
  rw [List.takeWhile_append_of_pos hcs, List.dropWhile_append_of_pos hcs]
  cases rest with
  | nil => simp
  | cons b rest =>
    have hb : p b = false := hr b (by simp)
    simp [hb]

lemma Ends.isWordPart (h : Ends rest) : ∀ b ∈ rest.head?, isWordPart b = false :=
  fun b hb => isWordPart_of_isBlank (h b hb)

lemma Ends.isDigit (h : Ends rest) : ∀ b ∈ rest.head?, isDigit b = false :=
  fun b hb => isDigit_of_isWordPart (h.isWordPart b hb)

/-- What follows a lexeme is no given character that is not blank. -/
lemma Ends.head?_ne {c : Char} (h : Ends rest) (hc : isBlank c = false) :
    rest.head? ≠ some c := by
  intro heq
  have := h c (by simp [heq])
  rw [hc] at this
  cases this

/-! ### Words -/

lemma text_ofWord (word : String) : (ofWord word).text = word := by
  rw [ofWord]
  split <;> rfl

lemma scanWord_append {word : List Char} (hw : ∀ c ∈ word, isWordPart c = true)
    (h : Ends rest) :
    scanWord (word ++ rest) = ⟨word.length, .ok (ofWord (String.ofList word))⟩ := by
  simp only [scanWord, (takeWhile_append_of_head hw h.isWordPart).1]

/-! ### Numbers -/

lemma scanNumber_append_of_integer {digits : List Char} (hd : ∀ c ∈ digits, isDigit c = true)
    (hr : ∀ b ∈ rest.head?, isDigit b = false) (hpoint : rest.head? ≠ some '.') :
    scanNumber (digits ++ rest) = ⟨digits.length, ofInteger digits⟩ := by
  obtain ⟨htake, hdrop⟩ := takeWhile_append_of_head hd hr
  simp only [scanNumber, htake, hdrop]
  split
  · next r hr => exact absurd rfl hpoint
  · rfl

lemma scanNumber_append_of_real {whole fraction : List Char}
    (hw : ∀ c ∈ whole, isDigit c = true) (hf : ∀ c ∈ fraction, isDigit c = true)
    (hr : ∀ b ∈ rest.head?, isDigit b = false) :
    scanNumber (whole ++ '.' :: (fraction ++ rest)) =
      ⟨whole.length + 1 + fraction.length, ofReal whole fraction⟩ := by
  have hpoint : ∀ b ∈ ('.' :: (fraction ++ rest)).head?, isDigit b = false := by
    simp only [List.head?_cons, Option.mem_def, Option.some.injEq, forall_eq']
    decide
  obtain ⟨htake, hdrop⟩ := takeWhile_append_of_head hw hpoint
  simp only [scanNumber, htake, hdrop, (takeWhile_append_of_head hf hr).1]

/-! ### Strings and characters -/

lemma scanString_append {body : List Char} (hb : ∀ c ∈ body, isStringPart c = true)
    (rest : List Char) :
    scanString ('"' :: (body ++ '"' :: rest)) =
      ⟨body.length + 2, .ok ⟨.stringLiteral, "\"" ++ String.ofList body ++ "\"",
        .text (String.ofList body)⟩⟩ := by
  have hquote : ∀ b ∈ ('"' :: rest).head?, isStringPart b = false := by
    simp [isStringPart]
  obtain ⟨htake, hdrop⟩ := takeWhile_append_of_head hb hquote
  simp only [scanString, htake, hdrop]

/-! ### Symbols -/

lemma scanSymbol_of_lookup {c : Char} {kind : TokenKind}
    (h : TokenKind.symbols.lookup c = some kind) (rest : List Char) :
    scanSymbol c rest = ⟨1, .ok ⟨kind, String.ofList [c], .absent⟩⟩ := by
  -- the characters that may start a longer symbol are not in the table
  unfold scanSymbol
  split
  case h_11 => rw [h]
  all_goals cases h

/-! ### The forms of lexemes -/

/-- The symbols that are read with a look at the character behind them. -/
def operators : List (TokenKind × String) :=
  [(.assign, "="), (.eq, "=="), (.gte, "=>"), (.lte, "=<"), (.not, "!"), (.neq, "!="),
   (.and, "&&"), (.or, "||")]

/-- The lexemes that a text can hold. -/
inductive Formed : Lexeme → Prop where
  | word {c : Char} {cs : List Char} (hc : isLetter c = true) (hcs : ∀ x ∈ cs, isWordPart x = true) :
      Formed (ofWord (String.ofList (c :: cs)))
  | integer {c : Char} {cs : List Char} {l : Lexeme} (hc : isLetter c = false)
      (hcs : ∀ x ∈ c :: cs, isDigit x = true) (hl : ofInteger (c :: cs) = .ok l) : Formed l
  | real {c : Char} {whole fraction : List Char} {l : Lexeme} (hc : isLetter c = false)
      (hw : ∀ x ∈ c :: whole, isDigit x = true) (hf : ∀ x ∈ fraction, isDigit x = true)
      (hl : ofReal (c :: whole) fraction = .ok l) : Formed l
  | string {body : List Char} (hb : ∀ x ∈ body, isStringPart x = true) :
      Formed ⟨.stringLiteral, "\"" ++ String.ofList body ++ "\"", .text (String.ofList body)⟩
  | character {c : Char} (hc : c ≠ '\n') :
      Formed ⟨.charLiteral, String.ofList [characterMark, c, characterMark],
        .text (String.ofList [c])⟩
  | symbol {c : Char} {kind : TokenKind} (hk : TokenKind.symbols.lookup c = some kind) :
      Formed ⟨kind, String.ofList [c], .absent⟩
  | operator {kind : TokenKind} {text : String} (hk : (kind, text) ∈ operators) :
      Formed ⟨kind, text, .absent⟩

lemma formed_of_scanWord {c : Char} {l : Lexeme} (hc : isLetter c = true)
    (h : (scanWord (c :: rest)).outcome = .ok l) : Formed l := by
  have hpart : isWordPart c = true := by simp [isWordPart, hc]
  simp only [scanWord, List.takeWhile_cons_of_pos hpart] at h
  cases h
  exact .word hc fun x hx => List.mem_takeWhile_imp hx

lemma formed_of_scanNumber {c : Char} {l : Lexeme} (hc : isLetter c = false)
    (hd : isDigit c = true) (h : (scanNumber (c :: rest)).outcome = .ok l) : Formed l := by
  have hw : ∀ x ∈ c :: rest.takeWhile isDigit, isDigit x = true :=
    List.forall_mem_cons.mpr ⟨hd, fun x hx => List.mem_takeWhile_imp hx⟩
  simp only [scanNumber, List.takeWhile_cons_of_pos hd] at h
  split at h
  · exact .real hc hw (fun x hx => List.mem_takeWhile_imp hx) h
  · exact .integer hc hw h

lemma formed_of_scanString {c : Char} {l : Lexeme}
    (h : (scanString (c :: rest)).outcome = .ok l) : Formed l := by
  simp only [scanString] at h
  split at h
  · cases h
    exact .string fun x hx => List.mem_takeWhile_imp hx
  · cases h

lemma formed_of_scanCharacter {c : Char} {l : Lexeme}
    (h : (scanCharacter (c :: rest)).outcome = .ok l) : Formed l := by
  cases rest with
  | nil => cases h
  | cons d rest =>
    simp only [scanCharacter] at h
    split_ifs at h with hd hm
    cases h
    exact .character hd

lemma formed_of_scanSymbol {c : Char} {l : Lexeme} (h : (scanSymbol c rest).outcome = .ok l) :
    Formed l := by
  unfold scanSymbol at h
  split at h
  case h_11 =>
    split at h
    · next hk =>
      cases h
      exact .symbol hk
    · cases h
  all_goals cases h
  all_goals exact .operator (by decide)

/-- Whatever is read has one of the forms. -/
lemma formed_of_scanToken {c : Char} {l : Lexeme} (h : (scanToken (c :: rest)).outcome = .ok l) :
    Formed l := by
  simp only [scanToken] at h
  split_ifs at h with hc hd hq hm
  · exact formed_of_scanWord hc h
  · exact formed_of_scanNumber (by simpa using hc) hd h
  · exact formed_of_scanString h
  · exact formed_of_scanCharacter h
  · exact formed_of_scanSymbol h

/-! ### Kinds -/

/-- A word is a name or one of the keywords. -/
lemma kind_ofWord (word : String) :
    (ofWord word).kind = .identifier ∨ (ofWord word).kind ∈ TokenKind.keywords.map Prod.snd := by
  rw [ofWord]
  split
  · next k hk =>
    obtain ⟨l₁, l₂, hl, -⟩ := List.lookup_eq_some_iff.mp hk
    right
    rw [hl]
    simp
  · exact Or.inl rfl

lemma ofInteger_eq_ok {digits : List Char} {l : Lexeme} (h : ofInteger digits = .ok l) :
    l.kind = .integerLiteral ∧ l.text = String.ofList digits := by
  simp only [ofInteger] at h
  split_ifs at h
  cases h
  exact ⟨rfl, rfl⟩

lemma ofReal_eq_ok {whole fraction : List Char} {l : Lexeme} (h : ofReal whole fraction = .ok l) :
    l.kind = .realLiteral ∧ l.text = String.ofList (whole ++ '.' :: fraction) := by
  simp only [ofReal] at h
  split_ifs at h
  cases h
  exact ⟨rfl, rfl⟩

lemma mem_symbols_of_lookup {c : Char} {kind : TokenKind}
    (h : TokenKind.symbols.lookup c = some kind) : kind ∈ TokenKind.symbols.map Prod.snd := by
  obtain ⟨l₁, l₂, hl, -⟩ := List.lookup_eq_some_iff.mp h
  rw [hl]
  simp

/-- No lexeme of a text has the kind of the end. -/
lemma Formed.kind_ne_eof {l : Lexeme} (h : Formed l) : l.kind ≠ .eof := by
  cases h with
  | word _ _ =>
    rcases kind_ofWord (String.ofList _) with hk | hk
    · rw [hk]; decide
    · exact ne_of_mem_of_not_mem hk (by decide)
  | integer _ _ hl => rw [(ofInteger_eq_ok hl).1]; decide
  | real _ _ _ hl => rw [(ofReal_eq_ok hl).1]; decide
  | string _ => simp
  | character _ => simp
  | symbol hk => exact ne_of_mem_of_not_mem (mem_symbols_of_lookup hk) (by decide)
  | operator hk =>
    exact ne_of_mem_of_not_mem (List.mem_map_of_mem (f := Prod.fst) hk) (by decide)

/-- A name is made of letters and digits, and stands for itself. -/
lemma Formed.eq_of_identifier {l : Lexeme} (h : Formed l) (hk : l.kind = .identifier) :
    (∀ x ∈ l.text.toList, isWordPart x = true) ∧ l = ⟨.identifier, l.text, .text l.text⟩ := by
  cases h with
  | @word c cs hc hcs =>
    refine ⟨?_, ?_⟩
    · rw [text_ofWord, String.toList_ofList]
      exact List.forall_mem_cons.mpr ⟨by simp [isWordPart, hc], hcs⟩
    · rw [ofWord] at hk ⊢
      split
      · next k hlookup =>
        rw [hlookup] at hk
        obtain ⟨l₁, l₂, hl, -⟩ := List.lookup_eq_some_iff.mp hlookup
        have hmem : k ∈ TokenKind.keywords.map Prod.snd := by rw [hl]; simp
        exact absurd hk (ne_of_mem_of_not_mem hmem (by decide))
      · rfl
  | integer _ _ hl => rw [(ofInteger_eq_ok hl).1] at hk; cases hk
  | real _ _ _ hl => rw [(ofReal_eq_ok hl).1] at hk; cases hk
  | string _ => cases hk
  | character _ => cases hk
  | symbol hk' => exact absurd hk (ne_of_mem_of_not_mem (mem_symbols_of_lookup hk') (by decide))
  | operator hk' =>
    exact absurd hk
      (ne_of_mem_of_not_mem (List.mem_map_of_mem (f := Prod.fst) hk') (by decide))

/-! ### Reading again -/

/-- A lexeme that is read again wherever a blank or the end of the text follows its text. -/
def Stable (l : Lexeme) : Prop :=
  ∃ c cs, l.text.toList = c :: cs ∧ isBlank c = false ∧
    ∀ rest, Ends rest → scanToken (c :: (cs ++ rest)) = ⟨cs.length + 1, .ok l⟩

lemma isBlank_of_isWordPart {c : Char} (h : isWordPart c = true) : isBlank c = false := by
  by_contra hb
  rw [isWordPart_of_isBlank (by simpa using hb)] at h
  cases h

lemma isBlank_of_lookup {c : Char} {kind : TokenKind}
    (h : TokenKind.symbols.lookup c = some kind) :
    isLetter c = false ∧ isDigit c = false ∧ isBlank c = false ∧ c ≠ '"' ∧
      c ≠ characterMark := by
  obtain ⟨l₁, l₂, hl, -⟩ := List.lookup_eq_some_iff.mp h
  have hmem : (c, kind) ∈ TokenKind.symbols := by rw [hl]; simp
  have hall : ∀ s ∈ TokenKind.symbols, isLetter s.1 = false ∧ isDigit s.1 = false ∧
      isBlank s.1 = false ∧ s.1 ≠ '"' ∧ s.1 ≠ characterMark := by
    decide +kernel
  exact hall _ hmem

lemma scanSymbol_assign (h : Ends rest) : scanSymbol '=' rest = symbol .assign "=" := by
  have heq : rest.head? ≠ some '=' := h.head?_ne (by decide)
  have hgt : rest.head? ≠ some '>' := h.head?_ne (by decide)
  have hlt : rest.head? ≠ some '<' := h.head?_ne (by decide)
  simp [scanSymbol]

lemma scanSymbol_not (h : Ends rest) : scanSymbol '!' rest = symbol .not "!" := by
  have heq : rest.head? ≠ some '=' := h.head?_ne (by decide)
  simp [scanSymbol]

/-- The characters that start an operator start nothing else. -/
lemma scanToken_of_operator {c : Char} (hc : c ∈ ['=', '!', '&', '|']) (rest : List Char) :
    scanToken (c :: rest) = scanSymbol c rest ∧ isBlank c = false := by
  have hall : isLetter c = false ∧ isDigit c = false ∧ c ≠ '"' ∧ c ≠ characterMark ∧
      isBlank c = false := by
    simp only [List.mem_cons, List.not_mem_nil, or_false] at hc
    rcases hc with rfl | rfl | rfl | rfl <;> decide
  obtain ⟨hl, hd, hq, hm, hb⟩ := hall
  exact ⟨by simp [scanToken, hl, hd, hq, hm], hb⟩

lemma stable_operator {kind : TokenKind} {text : String} (h : (kind, text) ∈ operators) :
    Stable ⟨kind, text, .absent⟩ := by
  simp only [operators, List.mem_cons, Prod.mk.injEq, List.not_mem_nil, or_false] at h
  rcases h with ⟨rfl, rfl⟩ | ⟨rfl, rfl⟩ | ⟨rfl, rfl⟩ | ⟨rfl, rfl⟩ | ⟨rfl, rfl⟩ | ⟨rfl, rfl⟩ |
    ⟨rfl, rfl⟩ | ⟨rfl, rfl⟩
  · refine ⟨'=', [], rfl, by decide, fun rest hr => ?_⟩
    exact (scanToken_of_operator (by decide) rest).1.trans (scanSymbol_assign hr)
  · exact ⟨'=', ['='], rfl, by decide, fun rest _ => (scanToken_of_operator (by decide) _).1⟩
  · exact ⟨'=', ['>'], rfl, by decide, fun rest _ => (scanToken_of_operator (by decide) _).1⟩
  · exact ⟨'=', ['<'], rfl, by decide, fun rest _ => (scanToken_of_operator (by decide) _).1⟩
  · refine ⟨'!', [], rfl, by decide, fun rest hr => ?_⟩
    exact (scanToken_of_operator (by decide) rest).1.trans (scanSymbol_not hr)
  · exact ⟨'!', ['='], rfl, by decide, fun rest _ => (scanToken_of_operator (by decide) _).1⟩
  · exact ⟨'&', ['&'], rfl, by decide, fun rest _ => (scanToken_of_operator (by decide) _).1⟩
  · exact ⟨'|', ['|'], rfl, by decide, fun rest _ => (scanToken_of_operator (by decide) _).1⟩

lemma Formed.stable {l : Lexeme} (h : Formed l) : Stable l := by
  cases h with
  | @word c cs hc hcs =>
    have hpart : isWordPart c = true := by simp [isWordPart, hc]
    refine ⟨c, cs, by rw [text_ofWord, String.toList_ofList], isBlank_of_isWordPart hpart, ?_⟩
    intro rest hr
    rw [scanToken, if_pos hc, ← List.cons_append,
      scanWord_append (List.forall_mem_cons.mpr ⟨hpart, hcs⟩) hr]
    rfl
  | @integer c cs _ hc hcs hl =>
    have hd : isDigit c = true := hcs c (by simp)
    refine ⟨c, cs, by rw [(ofInteger_eq_ok hl).2, String.toList_ofList],
      isBlank_of_isWordPart (by simp [isWordPart, hd]), ?_⟩
    intro rest hr
    rw [scanToken, if_neg (by simp [hc]), if_pos hd, ← List.cons_append,
      scanNumber_append_of_integer hcs hr.isDigit (hr.head?_ne (by decide)), hl]
    rfl
  | @real c whole fraction _ hc hw hf hl =>
    have hd : isDigit c = true := hw c (by simp)
    refine ⟨c, whole ++ '.' :: fraction, by rw [(ofReal_eq_ok hl).2, String.toList_ofList]; rfl,
      isBlank_of_isWordPart (by simp [isWordPart, hd]), ?_⟩
    intro rest hr
    rw [scanToken, if_neg (by simp [hc]), if_pos hd]
    have := scanNumber_append_of_real hw hf hr.isDigit
    simp only [List.cons_append, List.append_assoc] at this ⊢
    rw [this, hl]
    simp only [List.length_cons, List.length_append]
    congr 1
    omega
  | @string body hb =>
    refine ⟨'"', body ++ ['"'], by simp [String.toList_append], by decide, ?_⟩
    intro rest _
    have hl : isLetter '"' = false := by decide +kernel
    have hd : isDigit '"' = false := by decide +kernel
    rw [scanToken, if_neg (by simp [hl]), if_neg (by simp [hd]), if_pos rfl]
    simp [scanString_append hb rest]
  | @character c hc =>
    refine ⟨characterMark, [c, characterMark], String.toList_ofList, by decide, ?_⟩
    intro rest _
    have hl : isLetter characterMark = false := by decide +kernel
    have hd : isDigit characterMark = false := by decide +kernel
    rw [scanToken, if_neg (by simp [hl]), if_neg (by simp [hd]), if_neg (by decide), if_pos rfl]
    simp [scanCharacter, hc]
  | @symbol c kind hk =>
    obtain ⟨hl, hd, hb, hq, hm⟩ := isBlank_of_lookup hk
    refine ⟨c, [], String.toList_ofList, hb, ?_⟩
    intro rest _
    rw [scanToken, if_neg (by simp [hl]), if_neg (by simp [hd]), if_neg hq, if_neg hm,
      List.nil_append, scanSymbol_of_lookup hk]
    rfl
  | operator hk => exact stable_operator hk

end Lexeme

end Barnamaj

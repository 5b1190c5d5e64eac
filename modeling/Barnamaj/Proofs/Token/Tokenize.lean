import Barnamaj.Proofs.Token.Spelling

/-!
# Reading whole texts

What reading one token at a cursor does, and what follows for all tokens of a text. Of a token
without its place there remains a lexeme (`Token.toLexeme`). A text that spells lexemes with blanks
between them (`Spells`) is read as exactly these lexemes, wherever they come to stand.
-/

namespace Barnamaj

open Text

/-- A token without its place. -/
def Token.toLexeme (t : Token) : Lexeme := ⟨t.kind, t.lexeme, t.value⟩

/-- The end token is the last one and no other. -/
def EndsOnce (ts : List Token) : Prop :=
  ∃ us ending, ts = us ++ [ending] ∧ ending.kind = .eof ∧ ∀ t ∈ us, t.kind ≠ .eof

/-- Nothing goes on behind the end token. -/
lemma EndsOnce.eq_of_prefix {ts us : List Token} (ht : EndsOnce ts) (hu : EndsOnce us)
    (h : ts <+: us) : ts = us := by
  obtain ⟨ts, x, rfl, hx, -⟩ := ht
  obtain ⟨us, y, rfl, -, hus⟩ := hu
  rcases List.prefix_concat_iff.mp h with heq | hpre
  · exact heq
  · exact absurd hx (hus x (hpre.subset (by simp)))

/-- Up to any of its tokens, a list that ends once has no end token. -/
lemma EndsOnce.kind_ne_eof {ts us : List Token} {t : Token} (h : EndsOnce (ts ++ t :: us)) :
    ∀ x ∈ ts, x.kind ≠ .eof := by
  obtain ⟨vs, ending, heq, -, hvs⟩ := h
  have hpre : ts <+: vs ++ [ending] := heq ▸ List.prefix_append ts (t :: us)
  rcases List.prefix_concat_iff.mp hpre with rfl | hpre
  · simp at heq
  · exact fun x hx => hvs x (hpre.subset hx)

namespace Cursor

variable {c : Cursor} {t : Token}

/-! ### One token -/

/-- At the end of the text the end token is read, and the cursor stays at the end. -/
lemma nextToken_of_end (h : c.rest.dropWhile isBlank = []) :
    ∃ t, c.nextToken.outcome = .ok t ∧ t.toLexeme = Lexeme.ending ∧ c.nextToken.next.rest = [] := by
  refine ⟨⟨.eof, "EOF", .absent, c.skipBlanks.position⟩, ?_, rfl, ?_⟩
  · simp only [nextToken, read, rest_skipBlanks, h, Lexeme.scanToken, Lexeme.ending]
  · simp [nextToken, read, h]

/-- Elsewhere a reader is applied behind the blanks, and the cursor moves over what it has read. -/
lemma nextToken_of_cons {char : Char} {rest : List Char}
    (h : c.rest.dropWhile isBlank = char :: rest) {n : Nat} {l : Lexeme}
    (hs : Lexeme.scanToken (char :: rest) = ⟨n, .ok l⟩) :
    ∃ t, c.nextToken.outcome = .ok t ∧ t.toLexeme = l ∧
      c.nextToken.next.rest = (char :: rest).drop n := by
  refine ⟨⟨l.kind, l.text, l.value, c.skipBlanks.position⟩, ?_, rfl, ?_⟩
  · simp only [nextToken, read, rest_skipBlanks, h, hs]
  · simp only [nextToken, read, rest_advance, rest_skipBlanks, h, hs]

/-- What was read is the end of the text, or a lexeme of one of the forms. -/
lemma nextToken_cases (h : c.nextToken.outcome = .ok t) :
    (t.kind = .eof ∧ c.nextToken.next.rest = []) ∨ t.toLexeme.Formed := by
  cases hr : c.rest.dropWhile isBlank with
  | nil =>
    obtain ⟨t', ht', hl, hn⟩ := nextToken_of_end hr
    rw [h] at ht'
    cases ht'
    exact Or.inl ⟨congrArg Lexeme.kind hl, hn⟩
  | cons char rest =>
    right
    cases ho : (Lexeme.scanToken (char :: rest)).outcome with
    | error fault => simp [nextToken, read, hr, ho] at h
    | ok l =>
      obtain ⟨t', ht', hl, -⟩ := nextToken_of_cons (n := (Lexeme.scanToken (char :: rest)).length)
        hr (by rw [← ho])
      rw [h] at ht'
      cases ht'
      rw [hl]
      exact Lexeme.formed_of_scanToken ho

lemma formed_of_nextToken (h : c.nextToken.outcome = .ok t) (hk : t.kind ≠ .eof) :
    t.toLexeme.Formed := by
  rcases nextToken_cases h with ⟨hk', -⟩ | hf
  · exact absurd hk' hk
  · exact hf

lemma rest_nextToken_of_eof (h : c.nextToken.outcome = .ok t) (hk : t.kind = .eof) :
    c.nextToken.next.rest = [] := by
  rcases nextToken_cases h with ⟨-, hr⟩ | hf
  · exact hr
  · exact absurd hk hf.kind_ne_eof

/-! ### All tokens -/

lemma readings_of_eof (h : c.nextToken.outcome = .ok t) (hk : t.kind = .eof) :
    c.readings = [c.nextToken] := by
  rw [readings, if_pos (by simp [Reading.isEnd, h, hk])]

lemma readings_of_ne_eof (h : c.nextToken.outcome = .ok t) (hk : t.kind ≠ .eof) :
    c.readings = c.nextToken :: c.nextToken.next.readings := by
  rw [readings, if_neg (by simp [Reading.isEnd, h, hk])]

lemma tokenize_of_eof (h : c.nextToken.outcome = .ok t) (hk : t.kind = .eof) :
    c.tokenize = .ok [t] := by
  simp [tokenize, readings_of_eof h hk, Reading.tokens, h, Except.map]

lemma tokenize_of_ne_eof (h : c.nextToken.outcome = .ok t) (hk : t.kind ≠ .eof) :
    c.tokenize = c.nextToken.next.tokenize.map (t :: ·) := by
  simp [tokenize, readings_of_ne_eof h hk, Reading.tokens, h]

lemma tokenize_of_error {e : LexicalError} (h : c.nextToken.outcome = .error e) :
    c.tokenize = .error e := by
  rw [tokenize, readings, if_neg (by simp [Reading.isEnd, h])]
  simp [Reading.tokens, h]

/-- The tokens of a text are the end token, or a first token and those behind it. -/
lemma tokenize_eq_ok {ts : List Token} (h : c.tokenize = .ok ts) :
    ∃ t us, ts = t :: us ∧ c.nextToken.outcome = .ok t ∧
      ((t.kind = .eof ∧ us = []) ∨ (t.kind ≠ .eof ∧ c.nextToken.next.tokenize = .ok us)) := by
  cases ho : c.nextToken.outcome with
  | error e =>
    rw [tokenize_of_error ho] at h
    cases h
  | ok t =>
    by_cases hk : t.kind = .eof
    · rw [tokenize_of_eof ho hk] at h
      cases h
      exact ⟨t, [], rfl, rfl, Or.inl ⟨hk, rfl⟩⟩
    · rw [tokenize_of_ne_eof ho hk] at h
      cases hn : c.nextToken.next.tokenize with
      | error e =>
        rw [hn] at h
        cases h
      | ok us =>
        rw [hn] at h
        cases h
        exact ⟨t, us, rfl, rfl, Or.inr ⟨hk, rfl⟩⟩

lemma endsOnce_of_tokenize {ts : List Token} (h : c.tokenize = .ok ts) : EndsOnce ts := by
  induction ts generalizing c with
  | nil =>
    obtain ⟨t, us, heq, -⟩ := tokenize_eq_ok h
    cases heq
  | cons t ts ih =>
    obtain ⟨_, _, heq, -, ⟨hk, rfl⟩ | ⟨hk, hn⟩⟩ := tokenize_eq_ok h
    · cases heq
      exact ⟨[], t, rfl, hk, by simp⟩
    · cases heq
      obtain ⟨us, ending, rfl, he, hus⟩ := ih hn
      exact ⟨t :: us, ending, rfl, he, List.forall_mem_cons.mpr ⟨hk, hus⟩⟩

end Cursor

/-- What is read from a cursor on, going on behind faults, up to the end. -/
def Cursor.outcomes (c : Cursor) : List (Except LexicalError Token) :=
  c.readings.map Reading.outcome

/-- The tokens of a text are all that was read from it. -/
lemma Reading.map_outcome_of_tokens {rs : List Reading} {ts : List Token}
    (h : tokens rs = .ok ts) : rs.map outcome = ts.map .ok := by
  induction rs generalizing ts with
  | nil =>
    cases h
    rfl
  | cons r rs ih =>
    cases ho : r.outcome with
    | error e =>
      simp only [tokens, ho] at h
      cases h
    | ok t =>
      simp only [tokens, ho] at h
      cases hrest : tokens rs with
      | error e =>
        rw [hrest] at h
        cases h
      | ok us =>
        rw [hrest] at h
        cases h
        rw [List.map_cons, List.map_cons, ho, ih hrest]

/-! ### Spelled lexemes -/

/-- A text that is made of the texts of lexemes, with blanks around them and between any two. -/
inductive Spells : List Char → List Lexeme → Prop where
  | nil {blanks : List Char} (hb : ∀ b ∈ blanks, isBlank b = true) : Spells blanks []
  | cons {blanks rest : List Char} {l : Lexeme} {ls : List Lexeme}
      (hb : ∀ b ∈ blanks, isBlank b = true) (hl : l.Stable) (he : Lexeme.Ends rest)
      (hr : Spells rest ls) : Spells (blanks ++ (l.text.toList ++ rest)) (l :: ls)

/-- A text is read as the lexemes that it spells, and then the end. -/
lemma Cursor.tokenize_of_spells {c : Cursor} {ls : List Lexeme} (h : Spells c.rest ls)
    (hk : ∀ l ∈ ls, l.kind ≠ .eof) :
    ∃ ts, c.tokenize = .ok ts ∧ ts.map Token.toLexeme = ls ++ [Lexeme.ending] := by
  generalize hcs : c.rest = cs at h
  induction h generalizing c with
  | @nil blanks hb =>
    have hend : c.rest.dropWhile isBlank = [] := by
      rw [hcs, List.dropWhile_eq_nil_iff]
      exact hb
    obtain ⟨t, ht, hl, -⟩ := nextToken_of_end hend
    refine ⟨[t], tokenize_of_eof ht (congrArg Lexeme.kind hl), by simp [hl]⟩
  | @cons blanks rest l ls hb hl he hr ih =>
    obtain ⟨char, chars, htext, hchar, hscan⟩ := hl
    rw [htext] at hcs
    have hdrop : c.rest.dropWhile isBlank = char :: (chars ++ rest) := by
      rw [hcs, List.dropWhile_append_of_pos hb]
      simp [hchar]
    obtain ⟨t, ht, htl, hnext⟩ := nextToken_of_cons hdrop (hscan rest he)
    rw [List.drop_succ_cons, List.drop_left] at hnext
    obtain ⟨hkl, hkls⟩ := List.forall_mem_cons.mp hk
    obtain ⟨us, hus, hmap⟩ := ih hkls hnext
    have hkt : t.kind ≠ .eof := by
      rw [show t.kind = l.kind from congrArg Lexeme.kind htl]
      exact hkl
    refine ⟨t :: us, ?_, by simp [htl, hmap]⟩
    rw [tokenize_of_ne_eof ht hkt, hus]
    rfl

end Barnamaj

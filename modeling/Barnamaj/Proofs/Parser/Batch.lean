import Barnamaj.Proofs.Parser.Comparison
import Barnamaj.Proofs.Parser.Readings

/-!
# Parsing what was read before

A parser pulls its tokens from the text one at a time. It finds the same if the text was read before
as a whole and the tokens are handed to it in a list (`parseTokens`). If the text cannot be read as
a whole, the parser still sees all tokens in front of the lexical fault: it stops at one of them, or
it gets to the fault.
-/

namespace Barnamaj

/-- What was read before, in the order of the readings. An end token stays at the end, and where
there is none, one is read there. -/
instance : Supply (List (Except LexicalError Token)) where
  read
    | [] => .ok ⟨.eof, "EOF", .absent, ⟨1, 1⟩⟩
    | outcome :: _ => outcome
  rest
    | [] => []
    | .ok t :: outcomes => if t.kind = .eof then .ok t :: outcomes else outcomes
    | .error _ :: outcomes => outcomes
  size := List.length
  size_rest_le s := by
    rcases s with _ | ⟨_ | t, outcomes⟩
    · exact Nat.le_refl _
    · exact Nat.le_succ _
    · by_cases hk : t.kind = .eof
      · simp [hk]
      · simp [hk]
  size_rest_lt s h := by
    rcases s with _ | ⟨_ | t, outcomes⟩
    · exact absurd rfl (h _ rfl)
    · exact Nat.lt_succ_self _
    · simp [h t rfl]

/-- The tree of a list of tokens, or the first fault in it. -/
def parseTokens (ts : List Token) : Except ParseError Program :=
  parseFrom (ts.map Except.ok : List (Except LexicalError Token))

section

variable {t : Token} {outcomes : List (Except LexicalError Token)}

lemma rest_cons_of_eof (hk : t.kind = .eof) :
    Supply.rest (.ok t :: outcomes : List (Except LexicalError Token)) = .ok t :: outcomes :=
  if_pos hk

lemma rest_cons_of_ne_eof (hk : t.kind ≠ .eof) :
    Supply.rest (.ok t :: outcomes : List (Except LexicalError Token)) = outcomes :=
  if_neg hk

end

/-! ### A text and its readings -/

namespace Cursor

lemma outcomes_of_error {c : Cursor} {e : LexicalError} (h : c.nextToken.outcome = .error e) :
    c.outcomes = .error e :: c.nextToken.next.outcomes := by
  rw [outcomes, readings, if_neg (by simp [Reading.isEnd, h]), List.map_cons, h]
  rfl

lemma outcomes_of_eof {c : Cursor} {t : Token} (h : c.nextToken.outcome = .ok t)
    (hk : t.kind = .eof) : c.outcomes = [.ok t] := by
  rw [outcomes, readings_of_eof h hk, List.map_singleton, h]

lemma outcomes_of_ne_eof {c : Cursor} {t : Token} (h : c.nextToken.outcome = .ok t)
    (hk : t.kind ≠ .eof) : c.outcomes = .ok t :: c.nextToken.next.outcomes := by
  rw [outcomes, readings_of_ne_eof h hk, List.map_cons, h]
  rfl

/-- The readings of a text are a supply of the same tokens and faults as the text. -/
lemma read_rest_outcomes (c : Cursor) :
    Supply.read c.outcomes = c.nextToken.outcome ∧
      Supply.rest c.outcomes = c.nextToken.next.outcomes := by
  cases h : c.nextToken.outcome with
  | error e =>
    rw [outcomes_of_error h]
    exact ⟨rfl, rfl⟩
  | ok t =>
    by_cases hk : t.kind = .eof
    · have hagain : c.nextToken.next.outcomes = [.ok t] :=
        outcomes_of_eof ((congrArg Reading.outcome (nextToken_of_eof h hk)).trans h) hk
      rw [outcomes_of_eof h hk, hagain]
      exact ⟨rfl, rest_cons_of_eof hk⟩
    · rw [outcomes_of_ne_eof h hk]
      exact ⟨rfl, rest_cons_of_ne_eof hk⟩

end Cursor

/-- A text side by side with its readings. -/
def Correspondence.ofReadings : Correspondence Cursor (List (Except LexicalError Token)) where
  token := Eq
  supply c s := s = c.outcomes
  excused _ := False
  toLexeme_eq h := congrArg Token.toLexeme h
  read := by
    rintro c s rfl
    obtain ⟨hread, hrest⟩ := c.read_rest_outcomes
    refine Or.inr ⟨hrest, ?_⟩
    rw [hread]
    cases h : c.nextToken.outcome with
    | ok t => exact Or.inl ⟨t, t, h, rfl, rfl⟩
    | error l => exact Or.inr ⟨l, h, rfl⟩

/-- Whether a parser pulls from the text or from its readings makes no difference. -/
lemma parse_eq_parseFrom_outcomes (source : String) :
    parse source = parseFrom (Cursor.ofSource source).outcomes := by
  have hsupply : Correspondence.ofReadings.supply (.ofSource source)
      (Cursor.ofSource source).outcomes := rfl
  exact Correspondence.ofReadings.parseFrom_eq hsupply rfl fun _ he => he

/-- A text that can be read is parsed as the list of its tokens. -/
lemma parse_eq_parseTokens {source : String} {ts : List Token} (h : tokenize source = .ok ts) :
    parse source = parseTokens ts := by
  rw [parse_eq_parseFrom_outcomes, Cursor.outcomes, Reading.map_outcome_of_tokens h, parseTokens]

/-! ### Readings and tokens -/

/-- Where reading a text fails, tokens were read and then the fault. -/
lemma Reading.exists_tokens_of_error {rs : List Reading} {e : LexicalError}
    (h : tokens rs = .error e) :
    ∃ ks : List Token, (untilFault rs).map outcome = ks.map .ok ++ [.error e] ∧
      ks.map .ok ++ [.error e] <+: rs.map outcome := by
  induction rs with
  | nil => cases h
  | cons r rs ih =>
    cases ho : r.outcome with
    | error e' =>
      simp only [tokens, ho] at h
      cases h
      exact ⟨[], by simp [untilFault, ho], by simp [ho]⟩
    | ok t =>
      simp only [tokens, ho] at h
      cases hrest : tokens rs with
      | ok us =>
        rw [hrest] at h
        cases h
      | error e' =>
        rw [hrest] at h
        cases h
        obtain ⟨ks, huntil, hprefix⟩ := ih hrest
        refine ⟨t :: ks, ?_, ?_⟩
        · simp [untilFault, ho, huntil]
        · simpa [ho] using hprefix

/-- What was read before a lexical fault stands before it. -/
lemma Cursor.Behind.before_of_fault {c : Cursor} {before : List Char} {e : LexicalError}
    {ks : List Token} (hc : Behind before c) (h : ks.map .ok ++ [.error e] <+: c.outcomes) :
    ∀ t ∈ ks, t.position.Before e.position := by
  have hpairs := hc.pairwise_outcomes.sublist h.sublist
  rw [List.pairwise_append] at hpairs
  intro t ht
  exact hpairs.2.2 (.ok t) (List.mem_map_of_mem ht) (.error e) (List.mem_singleton_self _)

/-! ### Texts that cannot be read as a whole -/

variable {source : String} {e : LexicalError} {ks us : List Token}

/-- A lexical fault that a parser reports is the one that reading the whole text reports. -/
lemma tokenize_of_parse_lexical (h : parse source = .error (.lexical e)) :
    tokenize source = .error e := by
  obtain ⟨r, hr, ho⟩ := exists_reading_of_parse_error h
  simp only at ho
  cases ht : tokenize source with
  | ok ts =>
    have hmem : Except.error e ∈ (Cursor.ofSource source).outcomes :=
      List.mem_map.mpr ⟨r, Reading.untilFault_subset _ hr, ho⟩
    rw [Cursor.outcomes, Reading.map_outcome_of_tokens ht] at hmem
    simp at hmem
  | error e' =>
    obtain ⟨ks, huntil, -⟩ := Reading.exists_tokens_of_error ht
    have hmem := List.mem_map_of_mem (f := Reading.outcome) hr
    rw [huntil, ho] at hmem
    obtain rfl : e = e' := by simpa using hmem
    rfl

/-- What is read up to a lexical fault, side by side with tokens that go on differently from the
fault on. The fault itself is excused. -/
def Correspondence.upToFault :
    Correspondence (List (Except LexicalError Token)) (List (Except LexicalError Token)) where
  token := Eq
  supply s s' := ∃ (ks us : List Token) (e : LexicalError) (rest : List (Except LexicalError Token)),
    s = ks.map .ok ++ .error e :: rest ∧ s' = (ks ++ us).map .ok
  excused e := ∃ l, e = .lexical l
  toLexeme_eq h := congrArg Token.toLexeme h
  read := by
    rintro s s' ⟨ks, us, e, rest, rfl, rfl⟩
    cases ks with
    | nil => exact Or.inl ⟨e, rfl, e, rfl⟩
    | cons k ks =>
      refine Or.inr ⟨?_, Or.inl ⟨k, k, rfl, rfl, rfl⟩⟩
      by_cases hk : k.kind = .eof
      · refine ⟨k :: ks, us, e, rest, rest_cons_of_eof hk, rest_cons_of_eof hk⟩
      · exact ⟨ks, us, e, rest, rest_cons_of_ne_eof hk, rest_cons_of_ne_eof hk⟩

/-- A parser that would go on from the tokens in front of a lexical fault gets to the fault. -/
lemma parse_of_fault {tree : Program} (h : tokenize source = .error e)
    (hks : ks.map .ok ++ [.error e] <+: (Cursor.ofSource source).outcomes) (hus : ks <+: us)
    (hp : parseTokens us = .ok tree) : parse source = .error (.lexical e) := by
  obtain ⟨rest, hrest⟩ := hks
  obtain ⟨vs, rfl⟩ := hus
  have hsupply : Correspondence.upToFault.supply (Cursor.ofSource source).outcomes
      ((ks ++ vs).map .ok) := ⟨ks, vs, e, rest, by rw [← hrest]; simp, rfl⟩
  rcases Correspondence.upToFault.parseFrom_cases hsupply with
    ⟨_, hl, l, rfl⟩ | ⟨tree', _, hok, -⟩ | ⟨_, e', -, herror, -⟩
  · rw [← parse_eq_parseFrom_outcomes] at hl
    have hl' := tokenize_of_parse_lexical hl
    rw [h] at hl'
    cases hl'
    exact hl
  · rw [← parse_eq_parseFrom_outcomes] at hok
    obtain ⟨n, ts, hts, -⟩ := exists_tokenize_of_parse hok
    rw [h] at hts
    cases hts
  · rw [parseTokens, herror] at hp
    cases hp

/-- A parser that does not get to a lexical fault stops at a token that is read before it. -/
lemma parse_cases_of_fault (h : tokenize source = .error e)
    (hks : (Reading.untilFault (Cursor.ofSource source).readings).map Reading.outcome =
      ks.map .ok ++ [.error e]) :
    parse source = .error (.lexical e) ∨
      ∃ g, parse source = .error (.grammar g) ∧ g.token ∈ ks := by
  cases hp : parse source with
  | ok tree =>
    obtain ⟨n, ts, hts, -⟩ := exists_tokenize_of_parse hp
    rw [h] at hts
    cases hts
  | error f =>
    cases f with
    | lexical l =>
      have hl := tokenize_of_parse_lexical hp
      rw [h] at hl
      cases hl
      exact Or.inl rfl
    | grammar g =>
      obtain ⟨r, hr, ho⟩ := exists_reading_of_parse_error hp
      have hmem := List.mem_map_of_mem (f := Reading.outcome) hr
      rw [hks, show r.outcome = .ok g.token from ho] at hmem
      exact Or.inr ⟨g, rfl, by simpa using hmem⟩

/-- Pulling tokens from a text agrees with reading it as a whole. If the text can be read, it is
parsed as the list of its tokens is. A text that has a tree can be read, and a lexical fault that
the parser reports is the one that reading reports. If reading stops at a fault behind some tokens,
the parser reports this fault or stops at one of these tokens, which stands before the fault; it
does report the fault if the tokens start a list that can be parsed. -/
theorem parse_agrees_with_tokenize (source : String) :
    (∀ ts, tokenize source = .ok ts → parse source = parseTokens ts) ∧
    (∀ tree, parse source = .ok tree → ∃ ts, tokenize source = .ok ts) ∧
    (∀ e, parse source = .error (.lexical e) → tokenize source = .error e) ∧
    (∀ e, tokenize source = .error e →
      ∃ ks : List Token, ks.map .ok ++ [.error e] <+: (Cursor.ofSource source).outcomes ∧
        (parse source = .error (.lexical e) ∨
          ∃ g, parse source = .error (.grammar g) ∧ g.token ∈ ks ∧
            g.token.position.Before e.position) ∧
        ∀ us tree, ks <+: us → parseTokens us = .ok tree →
          parse source = .error (.lexical e)) := by
  refine ⟨fun ts => parse_eq_parseTokens, fun tree h => ?_, fun e => tokenize_of_parse_lexical,
    fun e h => ?_⟩
  · obtain ⟨n, ts, hts, -⟩ := exists_tokenize_of_parse h
    exact ⟨ts, hts⟩
  · obtain ⟨ks, huntil, hks⟩ := Reading.exists_tokens_of_error h
    refine ⟨ks, hks, ?_, fun us tree hus hp => parse_of_fault h hks hus hp⟩
    rcases parse_cases_of_fault h huntil with hl | ⟨g, hg, hmem⟩
    · exact Or.inl hl
    · have hbefore := (Cursor.behind_ofSource source).before_of_fault hks g.token hmem
      exact Or.inr ⟨g, hg, hmem, hbefore⟩

end Barnamaj

import Barnamaj.Proofs.Token.Tokenize
import Mathlib.Data.List.DropRight

/-!
# Texts are cut into tokens and blanks

The place behind a text is found by counting in it (`Position.after`). A cursor keeps this count
while it moves (`Cursor.Behind`), and every reader moves over exactly the characters of the lexeme
that it finds (`Scan.Covers`). So the lexemes of a text, with blanks in front of each and at the
end, are the whole text, and every token carries the place behind all that stands in front of it.
-/

namespace Barnamaj

open Text

/-! ### Places -/

namespace Position

/-- The place behind a text: one line more than the text has line ends, and one column more than
there are characters behind the last of them. -/
def after (before : List Char) : Position :=
  ⟨1 + before.count '\n', 1 + (before.rtakeWhile (· ≠ '\n')).length⟩

/-- One place comes before another: on an earlier line, or further left on the same line. -/
def Before (p q : Position) : Prop :=
  p.line < q.line ∨ p.line = q.line ∧ p.column < q.column

variable {p q r : Position} {before : List Char} {c : Char}

lemma after_concat_newline : after (before ++ ['\n']) = ⟨(after before).line + 1, 1⟩ := by
  simp only [after, List.count_append, List.count_singleton_self, List.rtakeWhile_concat,
    Position.mk.injEq]
  constructor
  · push_cast
    omega
  · simp

lemma after_concat (hc : c ≠ '\n') :
    after (before ++ [c]) = ⟨(after before).line, (after before).column + 1⟩ := by
  have hcount : [c].count '\n' = 0 := by simp [hc]
  simp only [after, List.count_append, hcount, List.rtakeWhile_concat, Position.mk.injEq]
  constructor
  · simp
  · simp [hc]
    omega

lemma Before.trans (h : p.Before q) (h' : q.Before r) : p.Before r := by
  simp only [Before] at *
  omega

lemma Before.ne (h : p.Before q) : p ≠ q := by
  rintro rfl
  simp only [Before] at h
  omega

lemma after_before_concat (before : List Char) (c : Char) :
    (after before).Before (after (before ++ [c])) := by
  by_cases hc : c = '\n'
  · subst hc
    rw [after_concat_newline]
    exact Or.inl (Int.lt_succ _)
  · rw [after_concat hc]
    exact Or.inr ⟨rfl, Int.lt_succ _⟩

/-- Behind more text there is a later place. -/
lemma after_before_append (before : List Char) {more : List Char} (hm : more ≠ []) :
    (after before).Before (after (before ++ more)) := by
  induction more generalizing before with
  | nil => exact absurd rfl hm
  | cons c more ih =>
    have hstep := after_before_concat before c
    rw [List.append_cons]
    by_cases hmore : more = []
    · rwa [hmore, List.append_nil]
    · exact hstep.trans (ih _ hmore)

end Position

/-! ### Cursors -/

lemma take_length_takeWhile (p : Char → Bool) (cs : List Char) :
    cs.take (cs.takeWhile p).length = cs.takeWhile p :=
  (List.prefix_iff_eq_take.mp (List.takeWhile_prefix p)).symm

namespace Cursor

variable {c : Cursor} {before : List Char}

/-- The cursor has counted the text in front of it. -/
structure Behind (before : List Char) (c : Cursor) : Prop where
  offset : c.offset = before.length
  position : c.position = .after before

lemma behind_ofSource (source : String) : Behind [] (ofSource source) := by
  exact ⟨rfl, rfl⟩

lemma Behind.step (h : Behind before c) : Behind (before ++ c.rest.take 1) c.step := by
  obtain ⟨hoffset, hposition⟩ := h
  cases hr : c.rest with
  | nil =>
    have hstep : c.step = c := by simp only [Cursor.step, hr]
    rw [hstep, List.take_nil, List.append_nil]
    exact ⟨hoffset, hposition⟩
  | cons char rest =>
    rw [List.take_succ_cons, List.take_zero]
    by_cases hc : char = '\n'
    · subst hc
      simp only [Cursor.step, hr, ↓reduceIte]
      refine ⟨by simp [hoffset], ?_⟩
      rw [Position.after_concat_newline, ← hposition]
      rfl
    · simp only [Cursor.step, hr, if_neg hc]
      refine ⟨by simp [hoffset], ?_⟩
      rw [Position.after_concat hc, ← hposition]
      rfl

lemma Behind.advance (h : Behind before c) (n : Nat) :
    Behind (before ++ c.rest.take n) (c.advance n) := by
  induction n generalizing c before with
  | zero => simpa [Cursor.advance] using h
  | succ n ih =>
    have hstep := ih h.step
    rwa [rest_step, List.append_assoc, ← List.take_add, Nat.add_comm 1 n] at hstep

/-- The blanks that are skipped in front of a token. -/
def blanks (c : Cursor) : List Char := c.rest.takeWhile isBlank

lemma isBlank_of_mem_blanks {x : Char} (h : x ∈ c.blanks) : isBlank x = true :=
  List.mem_takeWhile_imp h

lemma blanks_append_rest (c : Cursor) : c.blanks ++ c.skipBlanks.rest = c.rest := by
  rw [rest_skipBlanks]
  exact List.takeWhile_append_dropWhile

lemma Behind.skipBlanks (h : Behind before c) : Behind (before ++ c.blanks) c.skipBlanks := by
  have := h.advance c.blanks.length
  rwa [blanks, take_length_takeWhile] at this

end Cursor

/-! ### Readers -/

/-- A reader that finds a lexeme in a text has read the characters of the lexeme. -/
def Scan.Covers (s : Scan) (cs : List Char) : Prop :=
  ∀ l, s.outcome = .ok l → cs.take s.length = l.text.toList

namespace Lexeme

variable {c : Char} {cs rest : List Char}

lemma covers_scanWord (cs : List Char) : (scanWord cs).Covers cs := by
  intro l h
  cases h
  rw [text_ofWord, String.toList_ofList]
  exact take_length_takeWhile _ cs

lemma covers_scanNumber (cs : List Char) : (scanNumber cs).Covers cs := by
  intro l h
  simp only [scanNumber] at h ⊢
  split at h
  · next more hdrop =>
    have hcs : cs = cs.takeWhile isDigit ++ '.' :: more := by
      rw [← hdrop, List.takeWhile_append_dropWhile]
    rw [(ofReal_eq_ok h).2, String.toList_ofList]
    generalize cs.takeWhile isDigit = whole at hcs
    rw [hcs]
    simp only [Nat.add_assoc, List.take_length_add_append, Nat.add_comm 1, List.take_succ_cons,
      take_length_takeWhile]
  · rw [(ofInteger_eq_ok h).2, String.toList_ofList]
    exact take_length_takeWhile _ cs

lemma covers_scanString (rest : List Char) : (scanString ('"' :: rest)).Covers ('"' :: rest) := by
  intro l h
  simp only [scanString] at h ⊢
  split at h
  · next more hdrop =>
    have hrest : rest = rest.takeWhile isStringPart ++ '"' :: more := by
      rw [← hdrop, List.takeWhile_append_dropWhile]
    cases h
    generalize rest.takeWhile isStringPart = body at hrest
    rw [hrest]
    simp [String.toList_append, List.take_length_add_append]
  · cases h

lemma covers_scanCharacter (rest : List Char) :
    (scanCharacter (characterMark :: rest)).Covers (characterMark :: rest) := by
  intro l h
  cases rest with
  | nil => cases h
  | cons c rest =>
    simp only [scanCharacter] at h ⊢
    split_ifs at h ⊢ with hc hm
    cases h
    cases rest with
    | nil => cases hm
    | cons d rest =>
      cases hm
      rw [String.toList_ofList]
      rfl

lemma take_two_of_head? {d : Char} (h : rest.head? = some d) : (c :: rest).take 2 = [c, d] := by
  obtain ⟨more, rfl⟩ := List.head?_eq_some_iff.mp h
  rfl

lemma covers_scanSymbol (c : Char) (rest : List Char) : (scanSymbol c rest).Covers (c :: rest) := by
  intro l h
  unfold scanSymbol at h ⊢
  split at h
  case h_11 =>
    split at h
    · cases h
      rw [String.toList_ofList]
      rfl
    · cases h
  case h_4 | h_6 =>
    cases h
    rfl
  case h_8 | h_10 => cases h
  all_goals
    next hd =>
    cases h
    exact take_two_of_head? hd

lemma covers_scanToken (c : Char) (rest : List Char) : (scanToken (c :: rest)).Covers (c :: rest) := by
  simp only [scanToken]
  split_ifs with hl hd hq hm
  · exact covers_scanWord _
  · exact covers_scanNumber _
  · subst hq
    exact covers_scanString rest
  · subst hm
    exact covers_scanCharacter rest
  · exact covers_scanSymbol c rest

end Lexeme

/-! ### One token -/

namespace Cursor

variable {c : Cursor} {before : List Char} {t : Token} {ts : List Token}

lemma position_of_nextToken (h : c.nextToken.outcome = .ok t) :
    t.position = c.skipBlanks.position := by
  simp only [nextToken, read] at h
  split at h
  · cases h
    rfl
  · cases h

/-- A token stands behind the blanks, and the cursor then stands behind its lexeme. -/
lemma covers_nextToken (h : c.nextToken.outcome = .ok t) (hk : t.kind ≠ .eof) :
    ∃ n, c.nextToken.next = c.skipBlanks.advance n ∧ c.skipBlanks.rest.take n = t.lexeme.toList := by
  refine ⟨_, rfl, ?_⟩
  cases hr : c.skipBlanks.rest with
  | nil =>
    simp only [nextToken, read, hr, Lexeme.scanToken, Lexeme.ending] at h
    cases h
    exact absurd rfl hk
  | cons char rest =>
    simp only [nextToken, read, hr] at h
    split at h
    · next l hl =>
      cases h
      exact Lexeme.covers_scanToken char rest l hl
    · cases h

lemma rest_eq_of_nextToken (h : c.nextToken.outcome = .ok t) (hk : t.kind ≠ .eof) :
    c.rest = (c.blanks ++ t.lexeme.toList) ++ c.nextToken.next.rest := by
  obtain ⟨n, hn, htake⟩ := covers_nextToken h hk
  rw [hn, rest_advance, ← htake, List.append_assoc, List.take_append_drop, blanks_append_rest]

lemma Behind.nextToken (hc : Behind before c) (h : c.nextToken.outcome = .ok t)
    (hk : t.kind ≠ .eof) :
    Behind (before ++ (c.blanks ++ t.lexeme.toList)) c.nextToken.next := by
  obtain ⟨n, hn, htake⟩ := covers_nextToken h hk
  rw [hn, ← htake, ← List.append_assoc]
  exact hc.skipBlanks.advance n

/-- The end is only found where nothing but blanks is left. -/
lemma rest_skipBlanks_of_eof (h : c.nextToken.outcome = .ok t) (hk : t.kind = .eof) :
    c.skipBlanks.rest = [] := by
  cases hr : c.skipBlanks.rest with
  | nil => rfl
  | cons char rest =>
    simp only [Cursor.nextToken, read, hr] at h
    split at h
    · next l hl =>
      cases h
      exact absurd hk (Lexeme.formed_of_scanToken hl).kind_ne_eof
    · cases h

lemma blanks_of_eof (h : c.nextToken.outcome = .ok t) (hk : t.kind = .eof) : c.blanks = c.rest := by
  rw [← blanks_append_rest c, rest_skipBlanks_of_eof h hk, List.append_nil]

end Cursor

/-! ### Whole texts -/

/-- The text of tokens, each with the blanks in front of it. -/
def spelled (pieces : List (List Char × Token)) : List Char :=
  pieces.flatMap fun (blanks, t) => blanks ++ t.lexeme.toList

/-- A text that stands behind another one, cut into tokens, each with the blanks in front of it, and
the blanks in front of the end. -/
structure Tiling (before text : List Char) (pieces : List (List Char × Token)) (last : List Char)
    (ending : Token) : Prop where
  text_eq : text = spelled pieces ++ last
  blank : ∀ blanks ∈ pieces.map Prod.fst ++ [last], ∀ x ∈ blanks, isBlank x = true
  position : ∀ front blanks t back, pieces = front ++ (blanks, t) :: back →
    t.position = .after (before ++ (spelled front ++ blanks))
  ending_position : ending.position = .after (before ++ text)

namespace Tiling

variable {before text last blanks : List Char} {pieces : List (List Char × Token)}
  {t ending : Token}

lemma nil (hb : ∀ x ∈ text, isBlank x = true) (hp : ending.position = .after (before ++ text)) :
    Tiling before text [] text ending := by
  refine ⟨rfl, by simpa using hb, fun front blanks t back h => ?_, hp⟩
  simp at h

lemma cons (hb : ∀ x ∈ blanks, isBlank x = true) (hp : t.position = .after (before ++ blanks))
    (h : Tiling (before ++ (blanks ++ t.lexeme.toList)) text pieces last ending) :
    Tiling before ((blanks ++ t.lexeme.toList) ++ text) ((blanks, t) :: pieces) last ending := by
  constructor
  · rw [h.text_eq]
    simp [spelled]
  · rw [List.map_cons, List.cons_append, List.forall_mem_cons]
    exact ⟨hb, h.blank⟩
  · intro front blanks' t' back heq
    cases front with
    | nil =>
      cases heq
      exact hp
    | cons piece front =>
      cases heq
      rw [h.position front blanks' t' back rfl]
      simp [spelled]
  · rw [h.ending_position, List.append_assoc]

end Tiling

namespace Cursor

variable {c : Cursor} {before : List Char} {t : Token} {ts : List Token}

/-- The tokens of a text, and the blanks between them, are the whole text. -/
lemma exists_tiling (hc : Behind before c) (h : c.tokenize = .ok ts) :
    ∃ pieces last ending, ts = pieces.map Prod.snd ++ [ending] ∧
      Tiling before c.rest pieces last ending := by
  induction ts generalizing c before with
  | nil =>
    obtain ⟨t, us, heq, -⟩ := tokenize_eq_ok h
    cases heq
  | cons t ts ih =>
    obtain ⟨_, _, heq, ht, ⟨hk, rfl⟩ | ⟨hk, hts⟩⟩ := tokenize_eq_ok h
    · cases heq
      have hrest := blanks_of_eof ht hk
      refine ⟨[], c.rest, t, rfl, .nil (fun x hx => ?_) ?_⟩
      · exact isBlank_of_mem_blanks (hrest ▸ hx)
      · rw [position_of_nextToken ht, hc.skipBlanks.position, hrest]
    · cases heq
      obtain ⟨pieces, last, ending, rfl, htiling⟩ := ih (hc.nextToken ht hk) hts
      refine ⟨(c.blanks, t) :: pieces, last, ending, rfl, ?_⟩
      rw [rest_eq_of_nextToken ht hk]
      refine htiling.cons (fun x hx => isBlank_of_mem_blanks hx) ?_
      rw [position_of_nextToken ht, hc.skipBlanks.position]

lemma formed_of_tokenize (h : c.tokenize = .ok ts) :
    ∀ t ∈ ts, t.kind ≠ .eof → t.toLexeme.Formed := by
  induction ts generalizing c with
  | nil => simp
  | cons t ts ih =>
    obtain ⟨_, _, heq, ht, hts⟩ := tokenize_eq_ok h
    cases heq
    rw [List.forall_mem_cons]
    refine ⟨formed_of_nextToken ht, ?_⟩
    rcases hts with ⟨-, rfl⟩ | ⟨-, hts⟩
    · simp
    · exact ih hts

end Cursor

/-! ### Readings behind faults -/

/-- The reading was made where the first text ends and the second one starts, which is not with a
blank. -/
structure Reading.MadeAt (before rest : List Char) (r : Reading) : Prop where
  isBlank_head : ∀ x ∈ rest.head?, isBlank x = false
  outcome : match r.outcome with
    | .ok t => (Lexeme.scanToken rest).outcome = .ok t.toLexeme ∧ t.position = .after before
    | .error e => (Lexeme.scanToken rest).outcome = .error e.fault ∧ e.position = .after before

namespace Cursor

variable {c : Cursor} {before : List Char}

/-- Behind the blanks there is no blank. -/
lemma isBlank_head?_skipBlanks {x : Char} (hx : x ∈ c.skipBlanks.rest.head?) :
    isBlank x = false := by
  have hhead := List.head?_dropWhile_not isBlank c.rest
  rw [← rest_skipBlanks, Option.mem_def.mp hx] at hhead
  exact hhead

lemma Behind.madeAt_nextToken (hc : Behind before c) :
    c.nextToken.MadeAt (before ++ c.blanks) c.skipBlanks.rest := by
  have hposition := hc.skipBlanks.position
  refine ⟨fun x hx => isBlank_head?_skipBlanks hx, ?_⟩
  simp only [Cursor.nextToken, read]
  cases ho : (Lexeme.scanToken c.skipBlanks.rest).outcome with
  | ok l => exact ⟨rfl, hposition⟩
  | error fault => exact ⟨rfl, hposition⟩

/-- Every reading of a text is made at a place of the text. -/
lemma Behind.of_mem_readings (hc : Behind before c) {r : Reading} (hr : r ∈ c.readings) :
    ∃ skipped rest, c.rest = skipped ++ rest ∧ r.MadeAt (before ++ skipped) rest := by
  -- each reading but the last leaves less of the text
  induction hn : c.rest.length using Nat.strongRecOn generalizing c before with
  | _ n ih =>
    have hfirst : ∃ skipped rest, c.rest = skipped ++ rest ∧
        c.nextToken.MadeAt (before ++ skipped) rest :=
      ⟨c.blanks, c.skipBlanks.rest, (blanks_append_rest c).symm, hc.madeAt_nextToken⟩
    rw [readings] at hr
    split_ifs at hr with hend
    · rw [List.mem_singleton] at hr
      exact hr ▸ hfirst
    rcases List.mem_cons.mp hr with rfl | hr
    · exact hfirst
    obtain ⟨k, hk⟩ : ∃ k, c.nextToken.next = c.skipBlanks.advance k := ⟨_, rfl⟩
    have hlt := nextToken_lt (by simpa using hend)
    rw [hk] at hr hlt
    obtain ⟨skipped, rest, hrest, hmade⟩ := ih _ (hn ▸ hlt) (hc.skipBlanks.advance k) hr rfl
    refine ⟨c.blanks ++ (c.skipBlanks.rest.take k ++ skipped), rest, ?_, ?_⟩
    · rw [rest_advance] at hrest
      rw [List.append_assoc, List.append_assoc, ← hrest, List.take_append_drop, blanks_append_rest]
    · simpa using hmade

end Cursor

/-! ### The order of readings -/

/-- Where a token or a fault was read. -/
def Reading.place : Except LexicalError Token → Position
  | .ok t => t.position
  | .error e => e.position

lemma Reading.MadeAt.place_eq {before rest : List Char} {r : Reading} (h : r.MadeAt before rest) :
    place r.outcome = .after before := by
  have houtcome := h.outcome
  cases ho : r.outcome with
  | ok t =>
    simp only [ho] at houtcome
    exact houtcome.2
  | error e =>
    simp only [ho] at houtcome
    exact houtcome.2

namespace Cursor

variable {c : Cursor} {before : List Char} {ts : List Token}

/-- A reading that does not find the end moves the cursor over some of the text. -/
lemma exists_next_eq_advance (h : c.nextToken.isEnd = false) :
    ∃ k, c.nextToken.next = c.skipBlanks.advance k ∧ c.skipBlanks.rest.take k ≠ [] := by
  refine ⟨_, rfl, ?_⟩
  cases hr : c.skipBlanks.rest with
  | nil =>
    simp only [nextToken, read, hr, Lexeme.scanToken, Lexeme.ending, Reading.isEnd] at h
    cases h
  | cons char rest =>
    have hpos := Lexeme.length_scanToken_pos char rest
    simp only [ne_eq, List.take_eq_nil_iff, reduceCtorEq, or_false]
    omega

/-- Whatever is read from a text is read before all that is behind it. -/
lemma Behind.pairwise_outcomes (hc : Behind before c) :
    c.outcomes.Pairwise fun x y => (Reading.place x).Before (Reading.place y) := by
  -- each reading but the last leaves less of the text
  induction hn : c.rest.length using Nat.strongRecOn generalizing c before with
  | _ n ih =>
    rw [outcomes, readings]
    split_ifs with hend
    · exact List.pairwise_singleton _ _
    · have hend' : c.nextToken.isEnd = false := by simpa using hend
      obtain ⟨k, hk, hmore⟩ := exists_next_eq_advance hend'
      have hlt := nextToken_lt hend'
      rw [hk] at hlt ⊢
      have hnext := hc.skipBlanks.advance k
      refine .cons (fun x hx => ?_) (ih _ (hn ▸ hlt) hnext rfl)
      obtain ⟨r, hr, rfl⟩ := List.mem_map.mp hx
      obtain ⟨skipped, rest, -, hmade⟩ := hnext.of_mem_readings hr
      rw [hc.madeAt_nextToken.place_eq, hmade.place_eq, List.append_assoc]
      exact Position.after_before_append _ (List.append_ne_nil_of_left_ne_nil hmore _)

/-- No token occurs twice in a text, because each has a place of its own. -/
lemma nodup_of_tokenize (hc : Behind before c) (h : c.tokenize = .ok ts) : ts.Nodup := by
  have hpairs := hc.pairwise_outcomes
  rw [outcomes, Reading.map_outcome_of_tokens h, List.pairwise_map] at hpairs
  refine hpairs.imp fun hbefore heq => ?_
  exact hbefore.ne (congrArg Token.position heq)

end Cursor

/-! ### Values of quoted literals -/

/-- The mark on both sides of a literal of a kind that is quoted. -/
def TokenKind.mark : TokenKind → String
  | .stringLiteral => "\""
  | _ => "`"

/-- What stands between the marks of a string or of a character is its value. -/
lemma Lexeme.Formed.exists_body {l : Lexeme} (h : l.Formed)
    (hk : l.kind ∈ [TokenKind.stringLiteral, .charLiteral]) :
    ∃ body, l.text = l.kind.mark ++ body ++ l.kind.mark ∧ l.value = .text body := by
  -- none of the other kinds of lexemes is quoted
  have hunquoted : ∀ k ∈ TokenKind.keywords.map Prod.snd ++ TokenKind.symbols.map Prod.snd ++
      operators.map Prod.fst, k ∉ [TokenKind.stringLiteral, .charLiteral] := by
    decide
  cases h with
  | @word c cs _ _ =>
    rcases kind_ofWord (String.ofList (c :: cs)) with hw | hw
    · rw [hw] at hk
      exact absurd hk (by decide)
    · exact absurd hk (hunquoted _ (List.mem_append_left _ (List.mem_append_left _ hw)))
  | integer _ _ hl => rw [(ofInteger_eq_ok hl).1] at hk; exact absurd hk (by decide)
  | real _ _ _ hl => rw [(ofReal_eq_ok hl).1] at hk; exact absurd hk (by decide)
  | string _ => exact ⟨_, rfl, rfl⟩
  | @character c _ =>
    refine ⟨_, String.toList_injective ?_, rfl⟩
    simp [TokenKind.mark, characterMark]
  | symbol hk' =>
    have hmem := mem_symbols_of_lookup hk'
    exact absurd hk (hunquoted _ (List.mem_append_left _ (List.mem_append_right _ hmem)))
  | operator hk' =>
    have hmem := List.mem_map_of_mem (f := Prod.fst) hk'
    exact absurd hk (hunquoted _ (List.mem_append_right _ hmem))

/-- The tokens of a text, in their order and with blanks around them, are the whole text. Each of
them carries the place behind the text in front of it, and the end token the place behind the whole
text. No other token is an end token, and what is quoted is the value of a string or of a
character. -/
theorem tokenize_lossless {source : String} {ts : List Token} (h : tokenize source = .ok ts) :
    ∃ (pieces : List (List Char × Token)) (last : List Char) (ending : Token),
      ts = pieces.map Prod.snd ++ [ending] ∧
      source.toList = spelled pieces ++ last ∧
      (∀ blanks ∈ pieces.map Prod.fst ++ [last], ∀ x ∈ blanks, isBlank x = true) ∧
      (∀ front blanks t back, pieces = front ++ (blanks, t) :: back →
        t.position = .after (spelled front ++ blanks)) ∧
      ending.position = .after source.toList ∧
      ending.kind = .eof ∧ (∀ t ∈ pieces.map Prod.snd, t.kind ≠ .eof) ∧
      (∀ t ∈ ts, t.kind = .stringLiteral →
        ∃ body, t.lexeme = "\"" ++ body ++ "\"" ∧ t.value = .text body) ∧
      (∀ t ∈ ts, t.kind = .charLiteral →
        ∃ body, t.lexeme = "`" ++ body ++ "`" ∧ t.value = .text body) := by
  have hquoted : ∀ t ∈ ts, t.kind ∈ [TokenKind.stringLiteral, .charLiteral] →
      ∃ body, t.lexeme = t.kind.mark ++ body ++ t.kind.mark ∧ t.value = .text body := by
    intro t ht hk
    have hne : t.kind ≠ .eof := ne_of_mem_of_not_mem hk (by decide)
    exact (Cursor.formed_of_tokenize h t ht hne).exists_body hk
  obtain ⟨us, e, hts, hending, hus⟩ := Cursor.endsOnce_of_tokenize h
  obtain ⟨pieces, last, ending, rfl, htiling⟩ :=
    Cursor.exists_tiling (Cursor.behind_ofSource source) h
  obtain ⟨rfl, heq⟩ := List.append_inj' hts rfl
  obtain rfl : ending = e := by simpa using heq
  refine ⟨pieces, last, ending, rfl, htiling.text_eq, htiling.blank, htiling.position,
    htiling.ending_position, hending, hus, fun t ht hk => ?_, fun t ht hk => ?_⟩
  · obtain ⟨body, hlexeme, hvalue⟩ := hquoted t ht (by simp [hk])
    rw [hk] at hlexeme
    exact ⟨body, hlexeme, hvalue⟩
  · obtain ⟨body, hlexeme, hvalue⟩ := hquoted t ht (by simp [hk])
    rw [hk] at hlexeme
    exact ⟨body, hlexeme, hvalue⟩

theorem quoted_literals_lossless :
    ∃ (pieces : List (List Char × Token)) (last : List Char) (ending : Token),
      tokenize "س=\"ab\"\n  `c` " = .ok (pieces.map Prod.snd ++ [ending]) ∧
      "س=\"ab\"\n  `c` ".toList = spelled pieces ++ last ∧
      (∀ front blanks t back, pieces = front ++ (blanks, t) :: back →
        t.position = .after (spelled front ++ blanks)) ∧
      ending.position = ⟨2, 7⟩ := by
  have h : tokenize "س=\"ab\"\n  `c` " = .ok
      [⟨.identifier, "س", .text "س", ⟨1, 1⟩⟩, ⟨.assign, "=", .absent, ⟨1, 2⟩⟩,
        ⟨.stringLiteral, "\"ab\"", .text "ab", ⟨1, 3⟩⟩, ⟨.charLiteral, "`c`", .text "c", ⟨2, 3⟩⟩,
        ⟨.eof, "EOF", .absent, ⟨2, 7⟩⟩] := by
    decide +kernel
  obtain ⟨pieces, last, ending, hts, htext, -, hposition, hending, -⟩ := tokenize_lossless h
  refine ⟨pieces, last, ending, hts ▸ h, htext, hposition, ?_⟩
  rw [hending]
  decide +kernel

end Barnamaj

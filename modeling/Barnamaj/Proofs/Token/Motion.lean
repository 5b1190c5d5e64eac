import Barnamaj.Proofs.Token.LongestMatch
import Barnamaj.Proofs.Token.Tiling
import Mathlib.Logic.Function.Iterate

/-!
# Cursors move forward only

Whatever is done with a cursor moves it over some of the characters in front of it, also when it
fails (`Cursor.exists_after_eq_advance`). So its offset, line and column count the text behind it
(`Cursor.Within`), however it has been used. Reading a token moves it over one character at least,
unless only blanks are left. So reading on, also behind faults, comes to the end of the text and
stays there.
-/

namespace Barnamaj

open Text

/-! ### Calls -/

/-- The readers of single lexemes. -/
inductive Reader where
  | word
  | number
  | string
  | character

/-- What a reader makes of the front of a text. -/
def Reader.scan : Reader → List Char → Scan
  | .word => Lexeme.scanWord
  | .number => Lexeme.scanNumber
  | .string => Lexeme.scanString
  | .character => Lexeme.scanCharacter

namespace Cursor

/-- What is done with a cursor from outside: look at the character in front of it, move over it, skip
blanks, read a token or all of them, or apply a reader, whatever stands there, which gives what it
finds the position it is told. -/
inductive Call where
  | look
  | step
  | skipBlanks
  | nextToken
  | tokenize
  | read (reader : Reader) (p : Position)

variable (c : Cursor)

/-- The cursor after a call, also after one that fails. -/
def after : Call → Cursor
  | .look => c
  | .step => c.step
  | .skipBlanks => c.skipBlanks
  | .nextToken => c.nextToken.next
  | .tokenize => c.afterTokenize
  | .read reader p => (c.read reader.scan p).next

/-- The cursor after some calls, one after the other. -/
def afterAll (calls : List Call) : Cursor :=
  calls.foldl after c

/-- The cursor stands in a text: it has the rest of the text in front of it, and has counted the
characters and the line ends behind it, and the characters behind the last of these. -/
structure Within (source : String) : Prop where
  offset_le : c.offset ≤ source.length
  rest_eq : c.rest = source.toList.drop c.offset
  line_eq : c.line = 1 + (source.toList.take c.offset).count '\n'
  column_eq : c.column = 1 + ((source.toList.take c.offset).rtakeWhile (· ≠ '\n')).length

/-! ### Moves -/

lemma advance_add (m n : ℕ) : c.advance (m + n) = (c.advance m).advance n := by
  induction m generalizing c with
  | zero => simp [advance]
  | succ m ih =>
    rw [Nat.succ_add]
    exact ih c.step

lemma offset_step : c.step.offset = c.offset + min 1 c.rest.length := by
  cases hr : c.rest with
  | nil => simp [step, hr]
  | cons char rest =>
    simp only [step, hr]
    split <;> simp

lemma offset_advance (n : ℕ) : (c.advance n).offset = c.offset + min n c.rest.length := by
  induction n generalizing c with
  | zero => simp [advance]
  | succ n ih =>
    rw [advance, ih, offset_step, rest_step, List.length_drop]
    omega

lemma offset_le_advance (n : ℕ) : c.offset ≤ (c.advance n).offset := by
  rw [offset_advance]
  exact Nat.le_add_right _ _

lemma exists_next_nextToken_eq : ∃ n, c.nextToken.next = c.advance n := by
  refine ⟨c.blanks.length + (Lexeme.scanToken c.skipBlanks.rest).length, ?_⟩
  rw [advance_add]
  rfl

/-- Reading all tokens goes on behind every token but the end token, and stops behind a fault. -/
lemma afterTokenize_eq :
    c.afterTokenize = c.nextToken.next ∨ c.nextToken.isEnd = false ∧
      c.afterTokenize = c.nextToken.next.afterTokenize := by
  rw [afterTokenize, readings]
  split_ifs with hend
  · left
    cases ho : c.nextToken.outcome <;> simp [Reading.untilFault, ho]
  · cases ho : c.nextToken.outcome with
    | error e =>
      left
      simp [Reading.untilFault, ho]
    | ok t =>
      right
      refine ⟨by simpa using hend, ?_⟩
      simp only [Reading.untilFault, ho, List.getLast?_cons, Option.map_some, Option.getD_some,
        afterTokenize]
      cases (Reading.untilFault c.nextToken.next.readings).getLast? <;> rfl

lemma exists_afterTokenize_eq : ∃ n, c.afterTokenize = c.advance n := by
  -- each token that reading goes on behind leaves less of the text
  induction hn : c.rest.length using Nat.strongRecOn generalizing c with
  | _ n ih =>
    obtain ⟨m, hm⟩ := c.exists_next_nextToken_eq
    rcases c.afterTokenize_eq with heq | ⟨hend, heq⟩
    · exact ⟨m, heq.trans hm⟩
    · obtain ⟨k, hk⟩ := ih _ (hn ▸ nextToken_lt hend) c.nextToken.next rfl
      refine ⟨m + k, ?_⟩
      rw [heq, hk, hm, advance_add]

/-- A call moves the cursor over some of the characters in front of it. -/
lemma exists_after_eq_advance (call : Call) : ∃ n, c.after call = c.advance n := by
  cases call with
  | look => exact ⟨0, rfl⟩
  | step => exact ⟨1, rfl⟩
  | skipBlanks => exact ⟨_, rfl⟩
  | nextToken => exact c.exists_next_nextToken_eq
  | tokenize => exact c.exists_afterTokenize_eq
  | read reader p => exact ⟨_, rfl⟩

lemma exists_afterAll_eq_advance (calls : List Call) : ∃ n, c.afterAll calls = c.advance n := by
  induction calls generalizing c with
  | nil => exact ⟨0, rfl⟩
  | cons call calls ih =>
    obtain ⟨m, hm⟩ := c.exists_after_eq_advance call
    obtain ⟨n, hn⟩ := ih (c.after call)
    refine ⟨m + n, ?_⟩
    rw [advance_add, ← hm, ← hn]
    rfl

variable {c}

/-- A cursor that has counted the text in front of it stands in the whole text. -/
lemma Behind.within {before : List Char} (h : Behind before c) {source : String}
    (hs : source.toList = before ++ c.rest) : c.Within source := by
  obtain ⟨hoffset, hposition⟩ := h
  have htake : source.toList.take c.offset = before := by rw [hs, hoffset, List.take_left]
  have hline : (c.line : ℤ) = 1 + before.count '\n' := congrArg Position.line hposition
  have hcolumn : (c.column : ℤ) = 1 + (before.rtakeWhile (· ≠ '\n')).length :=
    congrArg Position.column hposition
  constructor
  · rw [← String.length_toList, hs, hoffset, List.length_append]
    exact Nat.le_add_right _ _
  · rw [hs, hoffset, List.drop_left]
  · rw [htake]
    exact_mod_cast hline
  · rw [htake]
    exact_mod_cast hcolumn

lemma within_advance (source : String) (n : ℕ) : ((ofSource source).advance n).Within source := by
  apply ((behind_ofSource source).advance n).within
  rw [rest_advance, List.nil_append, List.take_append_drop]
  rfl

end Cursor

/-- However a cursor has been used on a text, also by calls that have failed, it stands in this text
and has counted the characters, the lines and the columns behind it. No call moves it back. -/
theorem cursor_counts_text (source : String) (calls : List Cursor.Call) :
    ((Cursor.ofSource source).afterAll calls).Within source ∧
    ∀ more : List Cursor.Call, ((Cursor.ofSource source).afterAll calls).offset ≤
      ((Cursor.ofSource source).afterAll (calls ++ more)).offset := by
  constructor
  · obtain ⟨n, hn⟩ := (Cursor.ofSource source).exists_afterAll_eq_advance calls
    rw [hn]
    exact Cursor.within_advance source n
  · intro more
    obtain ⟨n, hn⟩ := ((Cursor.ofSource source).afterAll calls).exists_afterAll_eq_advance more
    have happend : (Cursor.ofSource source).afterAll (calls ++ more) =
        ((Cursor.ofSource source).afterAll calls).afterAll more := List.foldl_append
    rw [happend, hn]
    exact Cursor.offset_le_advance _ n

-- the line end counts as the opening quote, and neither reader finds an end
example : (Cursor.ofSource "\nس`").afterAll [.read .string ⟨7, 0⟩, .read .character ⟨-1, 5⟩] =
    { rest := [], offset := 3, line := 2, column := 3 } := by
  decide

/-! ### Readings -/

namespace Cursor

/-- The cursor after a number of readings, one after the other, also behind faults. -/
def afterReadings (c : Cursor) (n : ℕ) : Cursor :=
  (fun c => c.nextToken.next)^[n] c

variable {c : Cursor}

/-- The end is found if only blanks are left. -/
lemma isEnd_nextToken_iff : c.nextToken.isEnd = true ↔ ∀ x ∈ c.rest, isBlank x = true := by
  have hblank : c.skipBlanks.rest = [] ↔ ∀ x ∈ c.rest, isBlank x = true := by
    rw [rest_skipBlanks, List.dropWhile_eq_nil_iff]
  rw [← hblank]
  constructor
  · intro hend
    cases ho : c.nextToken.outcome with
    | error e => simp [Reading.isEnd, ho] at hend
    | ok t => exact rest_skipBlanks_of_eof ho (by simpa [Reading.isEnd, ho] using hend)
  · intro hr
    rw [nextToken_of_nil hr]
    rfl

/-- At the end the cursor stands behind the blanks, and the end token has this place. -/
lemma nextToken_of_isEnd (h : c.nextToken.isEnd = true) :
    c.nextToken.next.rest = [] ∧ c.nextToken.next.offset = c.offset + c.rest.length ∧
      c.nextToken.outcome = .ok ⟨.eof, "EOF", .absent, c.nextToken.next.position⟩ := by
  have hblanks := isEnd_nextToken_iff.mp h
  have hr : c.skipBlanks.rest = [] := by rwa [rest_skipBlanks, List.dropWhile_eq_nil_iff]
  rw [nextToken_of_nil hr]
  refine ⟨hr, ?_, rfl⟩
  rw [skipBlanks, offset_advance, List.takeWhile_eq_self_iff.mpr hblanks, Nat.min_self]

/-- Elsewhere there is something to read behind the blanks, be it a token or a fault. -/
lemma offset_skipBlanks_lt (h : c.nextToken.isEnd = false) :
    c.skipBlanks.offset < c.nextToken.next.offset := by
  obtain ⟨k, hk, hmore⟩ := exists_next_eq_advance h
  have hlength : 0 < min k c.skipBlanks.rest.length := by
    rw [← List.length_take]
    exact List.length_pos_iff.mpr hmore
  rw [hk, offset_advance]
  exact Nat.lt_add_of_pos_right hlength

/-- Elsewhere a reading moves the cursor, also when it finds a fault. -/
lemma offset_lt_nextToken (h : c.nextToken.isEnd = false) :
    c.offset < c.nextToken.next.offset :=
  (c.offset_le_advance _).trans_lt (offset_skipBlanks_lt h)

/-- Behind the end the same end is found again. -/
lemma nextToken_next_of_isEnd (h : c.nextToken.isEnd = true) :
    c.nextToken.next.nextToken = ⟨c.nextToken.outcome, c.nextToken.next⟩ := by
  obtain ⟨hrest, -, hout⟩ := nextToken_of_isEnd h
  generalize c.nextToken.next = e at hrest hout ⊢
  have hskip : e.skipBlanks = e := by simp [skipBlanks, hrest, advance]
  have hagain := nextToken_of_nil (c := e) (by rw [hskip, hrest])
  rw [hagain, hskip, hout]

/-- Readings one after the other, up to the first that finds the end, are all that can be read from a
cursor on. There are as many as there are characters, and one more, at most. -/
lemma exists_readings_eq (c : Cursor) :
    ∃ k ≤ c.rest.length, (c.afterReadings k).nextToken.isEnd = true ∧
      (∀ j < k, (c.afterReadings j).nextToken.isEnd = false) ∧
      c.readings = (List.range (k + 1)).map fun j => (c.afterReadings j).nextToken := by
  fun_induction readings c with
  | case1 c hend => exact ⟨0, Nat.zero_le _, hend, by simp, rfl⟩
  | case2 c hend ih =>
    obtain ⟨k, hk, hlast, hbefore, hreadings⟩ := ih
    have hend' : c.nextToken.isEnd = false := by simpa using hend
    refine ⟨k + 1, hk.trans_lt (nextToken_lt hend'), hlast, fun j hj => ?_, ?_⟩
    · cases j with
      | zero => exact hend'
      | succ j => exact hbefore j (Nat.lt_of_succ_lt_succ hj)
    · rw [hreadings, List.range_succ_eq_map (n := k + 1), List.map_cons, List.map_map]
      rfl

/-- Once the end has been found, nothing changes any more. -/
lemma nextToken_afterReadings_of_isEnd {k : ℕ} (h : (c.afterReadings k).nextToken.isEnd = true)
    {j : ℕ} (hj : k < j) :
    (c.afterReadings j).nextToken =
      ⟨(c.afterReadings k).nextToken.outcome, c.afterReadings j⟩ := by
  have hagain := nextToken_next_of_isEnd h
  have hnext : c.afterReadings (k + 1) = (c.afterReadings k).nextToken.next :=
    Function.iterate_succ_apply' _ k c
  rw [← hnext] at hagain
  have hfixed : c.afterReadings j = c.afterReadings (k + 1) := by
    obtain ⟨i, rfl⟩ := Nat.exists_eq_add_of_le' hj
    rw [afterReadings, Function.iterate_add_apply]
    exact Function.iterate_fixed (congrArg Reading.next hagain) i
  rw [hfixed, hagain]

end Cursor

/-- A reading finds the end, if only blanks are left, and then the cursor stands at the end of the
text. Otherwise it moves the cursor, also when it finds a fault. So readings one after the other come
to the end of a text after as many readings as the text has characters, and one more, at most. From
then on every reading finds the same end token and leaves the cursor where it is. -/
theorem readings_reach_end :
    (∀ c : Cursor,
      ((∀ x ∈ c.rest, isBlank x = true) ∧ c.nextToken.next.rest = [] ∧
        c.nextToken.next.offset = c.offset + c.rest.length ∧
        c.nextToken.outcome = .ok ⟨.eof, "EOF", .absent, c.nextToken.next.position⟩) ∨
      (c.nextToken.isEnd = false ∧ c.offset < c.nextToken.next.offset)) ∧
    ∀ source : String, ∃ k ≤ source.length, ∃ t : Token, t.kind = .eof ∧
      (∀ j < k, ((Cursor.ofSource source).afterReadings j).nextToken.isEnd = false) ∧
      ((Cursor.ofSource source).afterReadings k).nextToken.outcome = .ok t ∧
      (∀ j > k, ((Cursor.ofSource source).afterReadings j).nextToken =
        ⟨.ok t, (Cursor.ofSource source).afterReadings j⟩) ∧
      (Cursor.ofSource source).readings =
        (List.range (k + 1)).map fun j => ((Cursor.ofSource source).afterReadings j).nextToken := by
  constructor
  · intro c
    cases hend : c.nextToken.isEnd with
    | true => exact Or.inl ⟨Cursor.isEnd_nextToken_iff.mp hend, Cursor.nextToken_of_isEnd hend⟩
    | false => exact Or.inr ⟨rfl, Cursor.offset_lt_nextToken hend⟩
  · intro source
    obtain ⟨k, hk, hend, hbefore, hreadings⟩ := (Cursor.ofSource source).exists_readings_eq
    obtain ⟨-, -, hout⟩ := Cursor.nextToken_of_isEnd hend
    refine ⟨k, ?_, _, rfl, hbefore, hout, fun j hj => ?_, hreadings⟩
    · rw [← String.length_toList]
      exact hk
    · rw [← hout]
      exact Cursor.nextToken_afterReadings_of_isEnd hend hj

end Barnamaj

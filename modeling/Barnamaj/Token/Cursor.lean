import Barnamaj.Diagnostic
import Barnamaj.Text.Character
import Barnamaj.Token.Lexeme

/-!
# Reading tokens

A `Cursor` is a place in a source text together with the characters after it. Reading a token moves
the cursor, also when the reading fails, so that one can go on behind a fault. `Cursor.readings`
lists what is read in this way up to the end of the text; it exists because every reading but the
last moves the cursor (`nextToken_lt`).
-/

namespace Barnamaj

open Text

/-- A place in a source text: the characters after it, and the offset, line and column. -/
structure Cursor where
  rest : List Char
  offset : Nat := 0
  line : Nat := 1
  column : Nat := 1
deriving DecidableEq

/-- A fault of a lexeme, with the place where the lexeme starts. -/
structure LexicalError where
  fault : LexicalFault
  position : Position
deriving DecidableEq

/-- The report of a lexical error. -/
def LexicalError.diagnostic (e : LexicalError) : Diagnostic :=
  .located .lexical e.fault.text e.position

/-- What was read at a cursor, and the cursor after it. -/
structure Reading where
  outcome : Except LexicalError Token
  next : Cursor

/-- Whether a reading found the end of the text. -/
def Reading.isEnd (r : Reading) : Bool :=
  match r.outcome with
  | .ok t => t.kind == .eof
  | .error _ => false

namespace Cursor

/-- The cursor at the start of a source text. -/
def ofSource (source : String) : Cursor :=
  { rest := source.toList }

/-- The line and column of a cursor. -/
def position (c : Cursor) : Position :=
  ⟨c.line, c.column⟩

/-- Move over one character, if there is one. -/
def step (c : Cursor) : Cursor :=
  match c.rest with
  | [] => c
  | char :: rest =>
    if char = '\n' then
      { rest, offset := c.offset + 1, line := c.line + 1, column := 1 }
    else
      { rest, offset := c.offset + 1, line := c.line, column := c.column + 1 }

/-- Move over a number of characters, or to the end of the text. -/
def advance : Nat → Cursor → Cursor
  | 0, c => c
  | n + 1, c => advance n c.step

/-- Move over blanks, line ends included. -/
def skipBlanks (c : Cursor) : Cursor :=
  c.advance (c.rest.takeWhile isBlank).length

/-- Apply a reader of lexemes at a cursor, giving what it finds a position of its own. -/
def read (scan : List Char → Scan) (p : Position) (c : Cursor) : Reading :=
  let found := scan c.rest
  { outcome := match found.outcome with
      | .ok lexeme => .ok ⟨lexeme.kind, lexeme.text, lexeme.value, p⟩
      | .error fault => .error ⟨fault, p⟩
    next := c.advance found.length }

/-- Read the next token, after the blanks in front of it. At the end of the text this is the end
token, again and again. -/
def nextToken (c : Cursor) : Reading :=
  let start := c.skipBlanks
  start.read Lexeme.scanToken start.position

/-! ### Progress -/

@[simp] theorem rest_step (c : Cursor) : c.step.rest = c.rest.drop 1 := by
  cases h : c.rest with
  | nil => simp [step, h]
  | cons char rest =>
    simp only [step, h]
    split <;> simp

@[simp] theorem rest_advance (n : Nat) (c : Cursor) : (c.advance n).rest = c.rest.drop n := by
  induction n generalizing c with
  | zero => simp [advance]
  | succ n ih => simp [advance, ih]

private theorem drop_length_takeWhile (p : Char → Bool) (cs : List Char) :
    cs.drop (cs.takeWhile p).length = cs.dropWhile p := by
  induction cs with
  | nil => rfl
  | cons c cs ih =>
    rw [List.takeWhile_cons, List.dropWhile_cons]
    split <;> simp_all

@[simp] theorem rest_skipBlanks (c : Cursor) :
    c.skipBlanks.rest = c.rest.dropWhile isBlank := by
  rw [skipBlanks, rest_advance, drop_length_takeWhile]

/-- Unless it finds the end of the text, reading a token moves the cursor. -/
theorem nextToken_lt {c : Cursor} (h : c.nextToken.isEnd = false) :
    c.nextToken.next.rest.length < c.rest.length := by
  have hle : (c.rest.dropWhile isBlank).length ≤ c.rest.length :=
    (List.dropWhile_sublist isBlank).length_le
  cases hs : c.rest.dropWhile isBlank with
  | nil =>
    simp [nextToken, read, hs, Lexeme.scanToken, Lexeme.ending, Reading.isEnd] at h
  | cons char rest =>
    have hpos := Lexeme.length_scanToken_pos char rest
    simp only [nextToken, read, rest_advance, rest_skipBlanks, hs, List.length_drop]
    simp only [hs, List.length_cons] at hle ⊢
    omega

/-! ### Whole texts -/

/-- Everything that is read from a cursor on, going on behind faults, up to the end token. -/
def readings (c : Cursor) : List Reading :=
  if c.nextToken.isEnd then [c.nextToken]
  else c.nextToken :: readings c.nextToken.next
termination_by c.rest.length
decreasing_by exact nextToken_lt (by simp_all)

end Cursor

/-- The readings up to and including the first fault. -/
def Reading.untilFault : List Reading → List Reading
  | [] => []
  | r :: rest =>
    match r.outcome with
    | .ok _ => r :: untilFault rest
    | .error _ => [r]

/-- The tokens of a list of readings, or the first fault among them. -/
def Reading.tokens : List Reading → Except LexicalError (List Token)
  | [] => .ok []
  | r :: rest =>
    match r.outcome with
    | .ok t => (tokens rest).map (t :: ·)
    | .error e => .error e

/-- The tokens from a cursor on, the end token included, or the first fault. -/
def Cursor.tokenize (c : Cursor) : Except LexicalError (List Token) :=
  Reading.tokens c.readings

/-- Where a cursor stands after `tokenize`: at the end of the text or behind the first fault. -/
def Cursor.afterTokenize (c : Cursor) : Cursor :=
  ((Reading.untilFault c.readings).getLast?.map Reading.next).getD c

/-- The tokens of a source text, the end token included, or its first lexical fault. -/
def tokenize (source : String) : Except LexicalError (List Token) :=
  (Cursor.ofSource source).tokenize

/-! ### Supplies of tokens

Whoever pulls tokens one at a time need not know where they come from. A `Supply` says what is read
next and what is left after it, also behind a fault, and has a size that every reading but that of
the end makes smaller. A place in a source text is a supply.
-/

/-- A supply of tokens. -/
class Supply (σ : Type) where
  /-- What is read next. -/
  read : σ → Except LexicalError Token
  /-- What is left behind that, be it a token or a fault. -/
  rest : σ → σ
  /-- A measure of what there is to read. -/
  size : σ → Nat
  size_rest_le (s : σ) : size (rest s) ≤ size s
  size_rest_lt (s : σ) : (∀ t, read s = .ok t → t.kind ≠ .eof) → size (rest s) < size s

namespace Cursor

theorem size_nextToken_le (c : Cursor) : c.nextToken.next.rest.length ≤ c.rest.length := by
  simp only [nextToken, read, rest_advance, rest_skipBlanks, List.length_drop]
  exact Nat.le_trans (Nat.sub_le _ _) (List.dropWhile_sublist Text.isBlank).length_le

theorem size_nextToken_lt (c : Cursor)
    (h : ∀ t, c.nextToken.outcome = .ok t → t.kind ≠ .eof) :
    c.nextToken.next.rest.length < c.rest.length := by
  apply nextToken_lt
  cases ho : c.nextToken.outcome with
  | ok t => simp [Reading.isEnd, ho, h t ho]
  | error e => simp [Reading.isEnd, ho]

end Cursor

/-- The tokens of a source text from a place on. -/
instance : Supply Cursor where
  read c := c.nextToken.outcome
  rest c := c.nextToken.next
  size c := c.rest.length
  size_rest_le := Cursor.size_nextToken_le
  size_rest_lt := Cursor.size_nextToken_lt

end Barnamaj

import Barnamaj.Text.Character
import Barnamaj.Token.Basic

/-!
# Lexemes

The readers of single lexemes. Each looks at the front of a list of characters and says how many of
them it read and what it found there, a lexeme or a fault. `scanToken` chooses the reader by the
first character; it always reads at least one character, unless there is none
(`length_scanToken_pos`).
-/

namespace Barnamaj

open Text Decimal

/-- What can be wrong with a lexeme. -/
inductive LexicalFault where
  | invalidNumber (lexeme : String)
  | unterminatedString
  | unterminatedCharacter
  | malformedCharacter
  | incompleteOperator (c : Char)
  | unknownCharacter (c : Char)
deriving DecidableEq

/-- The text of a fault. -/
def LexicalFault.text : LexicalFault → String
  | .invalidNumber lexeme => "Invalid number format: " ++ lexeme
  | .unterminatedString => "Unterminated string literal."
  | .unterminatedCharacter => "Unterminated character literal."
  | .malformedCharacter =>
    "Character literal must contain exactly one character and be terminated by `."
  | .incompleteOperator c => "Invalid token: " ++ c.toString
  | .unknownCharacter c => "Unknown character: '" ++ c.toString ++ "'"

/-- A piece of the source text with its kind and value. -/
structure Lexeme where
  kind : TokenKind
  text : String
  value : Value
deriving DecidableEq

/-- What a reader made of the front of a text. -/
structure Scan where
  /-- The number of characters read. -/
  length : Nat
  /-- The lexeme found there, or what is wrong with it. -/
  outcome : Except LexicalFault Lexeme

namespace Lexeme

/-! ### Words -/

/-- The characters that continue a word. -/
def isWordPart (c : Char) : Bool :=
  isLetter c || isDigit c

/-- A word is a keyword if it is spelled like one as a whole, and a name otherwise. -/
def ofWord (word : String) : Lexeme :=
  match TokenKind.keywords.lookup word with
  | some kind => ⟨kind, word, (TokenKind.truthValues.lookup kind).elim .absent .bool⟩
  | none => ⟨.identifier, word, .text word⟩

/-- Read a word: the longest run of letters and digits, which may be empty. -/
def scanWord (cs : List Char) : Scan :=
  let word := cs.takeWhile isWordPart
  ⟨word.length, .ok (ofWord (String.ofList word))⟩

/-! ### Numbers -/

/-- The largest integer constant, one below the thirty-first power of two. -/
def maxInteger : Nat := 2147483647

/-- The greatest number of digits of an integer constant, leading zeros included. -/
def maxDigits : Nat := 4300

/-- A run of digits is an integer constant if it is neither empty nor too long and its value is in
range. -/
def ofInteger (digits : List Char) : Except LexicalFault Lexeme :=
  let lexeme := String.ofList digits
  if digits.isEmpty || decide (maxDigits < digits.length) then .error (.invalidNumber lexeme)
  else if maxInteger < numeral digits then .error (.invalidNumber lexeme)
  else .ok ⟨.integerLiteral, lexeme, .int (numeral digits)⟩

/-- Digits around a point are a real constant, unless there are none on either side. -/
def ofReal (whole fraction : List Char) : Except LexicalFault Lexeme :=
  let lexeme := String.ofList (whole ++ '.' :: fraction)
  if whole.isEmpty && fraction.isEmpty then .error (.invalidNumber lexeme)
  else .ok ⟨.realLiteral, lexeme,
    .real (.ofDecimal false (numeral (whole ++ fraction)) (-fraction.length))⟩

/-- Read a number: a run of digits and, if a point follows, the point and a second run. -/
def scanNumber (cs : List Char) : Scan :=
  let whole := cs.takeWhile isDigit
  match cs.dropWhile isDigit with
  | '.' :: rest =>
    let fraction := rest.takeWhile isDigit
    ⟨whole.length + 1 + fraction.length, ofReal whole fraction⟩
  | _ => ⟨whole.length, ofInteger whole⟩

/-! ### Strings and characters -/

/-- The characters that may stand inside a string. -/
def isStringPart (c : Char) : Bool :=
  c != '"' && c != '\n'

/-- Read a string: the opening quote, whatever character stands there, and everything up to the
closing quote on the same line. -/
def scanString : List Char → Scan
  | [] => ⟨0, .error .unterminatedString⟩
  | _ :: rest =>
    let body := rest.takeWhile isStringPart
    match rest.dropWhile isStringPart with
    | '"' :: _ =>
      ⟨body.length + 2,
        .ok ⟨.stringLiteral, "\"" ++ String.ofList body ++ "\"", .text (String.ofList body)⟩⟩
    | _ => ⟨body.length + 1, .error .unterminatedString⟩

/-- The mark on both sides of a character constant. -/
def characterMark : Char := '\x60'

/-- Read a character: the opening mark, whatever character stands there, exactly one character of
the same line, and the closing mark. -/
def scanCharacter : List Char → Scan
  | [] => ⟨0, .error .unterminatedCharacter⟩
  | [_] => ⟨1, .error .unterminatedCharacter⟩
  | _ :: c :: rest =>
    if c = '\n' then ⟨1, .error .unterminatedCharacter⟩
    else if rest.head? = some characterMark then
      ⟨3, .ok ⟨.charLiteral, String.ofList [characterMark, c, characterMark],
        .text (String.ofList [c])⟩⟩
    else ⟨2, .error .malformedCharacter⟩

/-! ### Symbols -/

/-- A symbol that denotes no value. -/
def symbol (kind : TokenKind) (text : String) : Scan :=
  ⟨text.length, .ok ⟨kind, text, .absent⟩⟩

/-- Read the longest symbol that starts with a given character. -/
def scanSymbol (c : Char) (rest : List Char) : Scan :=
  match c, rest.head? with
  | '=', some '=' => symbol .eq "=="
  | '=', some '>' => symbol .gte "=>"
  | '=', some '<' => symbol .lte "=<"
  | '=', _ => symbol .assign "="
  | '!', some '=' => symbol .neq "!="
  | '!', _ => symbol .not "!"
  | '&', some '&' => symbol .and "&&"
  | '&', _ => ⟨1, .error (.incompleteOperator '&')⟩
  | '|', some '|' => symbol .or "||"
  | '|', _ => ⟨1, .error (.incompleteOperator '|')⟩
  | c, _ =>
    match TokenKind.symbols.lookup c with
    | some kind => ⟨1, .ok ⟨kind, String.ofList [c], .absent⟩⟩
    | none => ⟨1, .error (.unknownCharacter c)⟩

/-! ### Any lexeme -/

/-- The lexeme at the end of the text. -/
def ending : Lexeme := ⟨.eof, "EOF", .absent⟩

/-- Read the lexeme at the front of a text that starts with no blank. -/
def scanToken : List Char → Scan
  | [] => ⟨0, .ok ending⟩
  | c :: rest =>
    if isLetter c then scanWord (c :: rest)
    else if isDigit c then scanNumber (c :: rest)
    else if c = '"' then scanString (c :: rest)
    else if c = characterMark then scanCharacter (c :: rest)
    else scanSymbol c rest

/-! ### Every reader makes progress -/

theorem length_scanWord_pos {c : Char} (rest : List Char) (h : isLetter c = true) :
    0 < (scanWord (c :: rest)).length := by
  simp [scanWord, isWordPart, h]

theorem length_scanNumber_pos {c : Char} (rest : List Char) (h : isDigit c = true) :
    0 < (scanNumber (c :: rest)).length := by
  simp only [scanNumber, List.takeWhile_cons, h, ↓reduceIte]
  split <;> simp only [List.length_cons] <;> omega

theorem length_scanString_pos (c : Char) (rest : List Char) :
    0 < (scanString (c :: rest)).length := by
  simp only [scanString]
  split <;> simp

theorem length_scanCharacter_pos (c : Char) (rest : List Char) :
    0 < (scanCharacter (c :: rest)).length := by
  cases rest with
  | nil => simp [scanCharacter]
  | cons d rest =>
    simp only [scanCharacter]
    split
    · simp
    · split <;> simp

theorem length_scanSymbol_pos (c : Char) (rest : List Char) :
    0 < (scanSymbol c rest).length := by
  unfold scanSymbol
  split <;> (try split) <;> simp [symbol, String.length]

/-- A reader takes at least one character of a text that is not empty. -/
theorem length_scanToken_pos (c : Char) (rest : List Char) :
    0 < (scanToken (c :: rest)).length := by
  simp only [scanToken]
  split
  · next h => exact length_scanWord_pos rest h
  split
  · next h => exact length_scanNumber_pos rest h
  split
  · exact length_scanString_pos c rest
  split
  · exact length_scanCharacter_pos c rest
  · exact length_scanSymbol_pos c rest

end Lexeme

end Barnamaj

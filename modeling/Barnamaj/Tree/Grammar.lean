import Barnamaj.Diagnostic
import Barnamaj.Token.Cursor

/-!
# Faults of the grammar

What a parser reports when a token does not fit. Where one kind of token alone would have fitted,
the fault is an `Expectation`, which names that kind and says what it was needed for.
-/

namespace Barnamaj

/-- A place of the grammar that only one kind of token can fill. -/
inductive Expectation where
  | programStart
  | programName
  | programNameEnd
  | blockStart
  | blockEnd
  | programEnd
  | endOfFile
  | assignmentSign
  | printOpening
  | printClosing
  | readOpening
  | readClosing
  | variableName
  | closingParenthesis
deriving DecidableEq

/-- The kind of token that fills a place. -/
def Expectation.kind : Expectation → TokenKind
  | .programStart => .programKw
  | .programName => .identifier
  | .programNameEnd => .semicolon
  | .blockStart => .lbrace
  | .blockEnd => .rbrace
  | .programEnd => .dot
  | .endOfFile => .eof
  | .assignmentSign => .assign
  | .printOpening => .lparen
  | .printClosing => .rparen
  | .readOpening => .lparen
  | .readClosing => .rparen
  | .variableName => .identifier
  | .closingParenthesis => .rparen

/-- What a place needs, in words. -/
def Expectation.text : Expectation → String
  | .programStart => "Program must start with 'برنامج'"
  | .programName => "Expected program name (identifier)"
  | .programNameEnd => "Expected ';' after program name"
  | .blockStart => "Expected '\x7b' to start statement list"
  | .blockEnd => "Expected '\x7d' to end statement list"
  | .programEnd => "Program must end with '.'"
  | .endOfFile => "Expected end of file"
  | .assignmentSign => "Expected '=' for assignment"
  | .printOpening => "Expected '(' after 'اطبع'"
  | .printClosing => "Expected ')' after print list"
  | .readOpening => "Expected '(' after 'اقرأ'"
  | .readClosing => "Expected ')' after variable name"
  | .variableName => "Expected variable identifier"
  | .closingParenthesis => "Expected ')' to close expression"

/-- Why a token does not fit. -/
inductive GrammarFault where
  | missing (place : Expectation)
  | unseparated
  | noStatement
  | noFactor
  | nestedTooDeeply
  | tooHigh
deriving DecidableEq

/-- A token that does not fit. -/
structure GrammarError where
  fault : GrammarFault
  token : Token
deriving DecidableEq

namespace GrammarError

/-- The text of a grammar error. -/
def text (e : GrammarError) : String :=
  match e.fault with
  | .missing place =>
    place.text ++ ". Expected " ++ place.kind.name ++ ", got " ++ e.token.kind.name
  | .unseparated => "Expected ';' to separate statements"
  | .noStatement => "Unexpected token while parsing statement: " ++ e.token.lexeme
  | .noFactor => "Unexpected token while parsing factor: " ++ e.token.lexeme
  | .nestedTooDeeply => "Expression nested too deeply"
  | .tooHigh => "Expression nested too deeply"

/-- The one kind that would have fitted. -/
def expected (e : GrammarError) : Option TokenKind :=
  match e.fault with
  | .missing place => some place.kind
  | _ => none

end GrammarError

/-- Why a source text has no tree. -/
inductive ParseError where
  | lexical (e : LexicalError)
  | grammar (e : GrammarError)
deriving DecidableEq

/-- The report of a parse error. -/
def ParseError.diagnostic : ParseError → Diagnostic
  | .lexical e => e.diagnostic
  | .grammar e => .parsing e.text e.token e.expected

end Barnamaj

/-!
# Kinds of tokens

The closed family of token kinds: keywords, names, literals, operators, delimiters and the end of
the text. Each kind has a name, under which it appears in messages and outlines.
-/

namespace Barnamaj

/-- The kind of a token. -/
inductive TokenKind where
  | programKw | constKw | typeKw | varKw | procedureKw | listKw | recordKw | fromKw | readKw
  | printKw | ifKw | thenKw | elseKw | repeatKw | toKw | addKw | whileKw | continueKw | untilKw
  | byValueKw | byRefKw | integerKw | realKw | booleanKw | charKw | stringKw | trueKw | falseKw
  | identifier
  | integerLiteral | realLiteral | charLiteral | stringLiteral
  | assign | eq | neq | lt | gt | lte | gte | plus | minus | multiply | divide | intDivide
  | modulo | power | and | or | not
  | semicolon | comma | colon | dot | lparen | rparen | lbrace | rbrace | lbracket | rbracket
  | eof
deriving DecidableEq, Inhabited

namespace TokenKind

/-- The name under which a kind is shown. -/
def name : TokenKind → String
  | .programKw => "PROGRAM_KW"
  | .constKw => "CONST_KW"
  | .typeKw => "TYPE_KW"
  | .varKw => "VAR_KW"
  | .procedureKw => "PROCEDURE_KW"
  | .listKw => "LIST_KW"
  | .recordKw => "RECORD_KW"
  | .fromKw => "FROM_KW"
  | .readKw => "READ_KW"
  | .printKw => "PRINT_KW"
  | .ifKw => "IF_KW"
  | .thenKw => "THEN_KW"
  | .elseKw => "ELSE_KW"
  | .repeatKw => "REPEAT_KW"
  | .toKw => "TO_KW"
  | .addKw => "ADD_KW"
  | .whileKw => "WHILE_KW"
  | .continueKw => "CONTINUE_KW"
  | .untilKw => "UNTIL_KW"
  | .byValueKw => "BY_VALUE_KW"
  | .byRefKw => "BY_REF_KW"
  | .integerKw => "INTEGER_KW"
  | .realKw => "REAL_KW"
  | .booleanKw => "BOOLEAN_KW"
  | .charKw => "CHAR_KW"
  | .stringKw => "STRING_KW"
  | .trueKw => "TRUE_KW"
  | .falseKw => "FALSE_KW"
  | .identifier => "IDENTIFIER"
  | .integerLiteral => "INTEGER_LITERAL"
  | .realLiteral => "REAL_LITERAL"
  | .charLiteral => "CHAR_LITERAL"
  | .stringLiteral => "STRING_LITERAL"
  | .assign => "ASSIGN"
  | .eq => "EQ"
  | .neq => "NEQ"
  | .lt => "LT"
  | .gt => "GT"
  | .lte => "LTE"
  | .gte => "GTE"
  | .plus => "PLUS"
  | .minus => "MINUS"
  | .multiply => "MULTIPLY"
  | .divide => "DIVIDE"
  | .intDivide => "INT_DIVIDE"
  | .modulo => "MODULO"
  | .power => "POWER"
  | .and => "AND"
  | .or => "OR"
  | .not => "NOT"
  | .semicolon => "SEMICOLON"
  | .comma => "COMMA"
  | .colon => "COLON"
  | .dot => "DOT"
  | .lparen => "LPAREN"
  | .rparen => "RPAREN"
  | .lbrace => "LBRACE"
  | .rbrace => "RBRACE"
  | .lbracket => "LBRACKET"
  | .rbracket => "RBRACKET"
  | .eof => "EOF"

/-- Every kind, in the order of their numbers. -/
def all : List TokenKind :=
  [.programKw, .constKw, .typeKw, .varKw, .procedureKw, .listKw, .recordKw, .fromKw, .readKw,
   .printKw, .ifKw, .thenKw, .elseKw, .repeatKw, .toKw, .addKw, .whileKw, .continueKw, .untilKw,
   .byValueKw, .byRefKw, .integerKw, .realKw, .booleanKw, .charKw, .stringKw, .trueKw, .falseKw,
   .identifier, .integerLiteral, .realLiteral, .charLiteral, .stringLiteral, .assign, .eq, .neq,
   .lt, .gt, .lte, .gte, .plus, .minus, .multiply, .divide, .intDivide, .modulo, .power, .and,
   .or, .not, .semicolon, .comma, .colon, .dot, .lparen, .rparen, .lbrace, .rbrace, .lbracket,
   .rbracket, .eof]

/-- The kind with a given name. -/
def ofName? (s : String) : Option TokenKind :=
  all.find? (·.name == s)

theorem mem_all (k : TokenKind) : k ∈ all := by
  cases k <;> decide

/-! ### Classes of kinds -/

/-- The operators of which an expression holds at most one per level. -/
def relational : List TokenKind :=
  [.eq, .neq, .lt, .gt, .lte, .gte, .and, .or]

/-- The operators that join terms, which also serve as signs. -/
def additive : List TokenKind :=
  [.plus, .minus]

/-- The operators that join factors. -/
def multiplicative : List TokenKind :=
  [.multiply, .divide, .intDivide, .modulo, .power]

/-- The kinds that stand for a constant. -/
def literal : List TokenKind :=
  [.integerLiteral, .realLiteral, .charLiteral, .stringLiteral, .trueKw, .falseKw]

/-! ### Spellings -/

/-- The keywords of the language. A word ends at the first blank, so the spelling in two words is
never met in a source text. -/
def keywords : List (String × TokenKind) :=
  [("برنامج", .programKw),
   ("ثابت", .constKw),
   ("نوع", .typeKw),
   ("متغير", .varKw),
   ("إجراء", .procedureKw),
   ("قائمة", .listKw),
   ("سجل", .recordKw),
   ("من", .fromKw),
   ("اقرأ", .readKw),
   ("اطبع", .printKw),
   ("إذا", .ifKw),
   ("فإن", .thenKw),
   ("وإلا", .elseKw),
   ("كرر", .repeatKw),
   ("إلى", .toKw),
   ("أضف", .addKw),
   ("ماطال", .whileKw),
   ("استمر", .continueKw),
   ("عد", .repeatKw),
   ("حتى", .untilKw),
   ("بالقيمة", .byValueKw),
   ("بالمرجع", .byRefKw),
   ("صحيح", .integerKw),
   ("حقيقي", .realKw),
   ("منطقي", .booleanKw),
   ("حرفي", .charKw),
   ("خيط رمزي", .stringKw),
   ("صح", .trueKw),
   ("خطأ", .falseKw)]

/-- The truth values that two of the keywords denote. -/
def truthValues : List (TokenKind × Bool) :=
  [(.trueKw, true), (.falseKw, false)]

/-- The symbols that no further character can extend. -/
def symbols : List (Char × TokenKind) :=
  [('.', .dot),
   (':', .colon),
   (';', .semicolon),
   (',', .comma),
   ('(', .lparen),
   (')', .rparen),
   ('{', .lbrace),
   ('}', .rbrace),
   ('[', .lbracket),
   (']', .rbracket),
   ('<', .lt),
   ('>', .gt),
   ('+', .plus),
   ('-', .minus),
   ('*', .multiply),
   ('/', .divide),
   ('\\', .intDivide),
   ('%', .modulo),
   ('^', .power)]

end TokenKind

end Barnamaj

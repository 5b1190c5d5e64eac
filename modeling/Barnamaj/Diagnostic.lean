import Barnamaj.Token.Basic

/-!
# Diagnostics

What a stage reports to the user: its origin, the text of the fault and, where there is one, the
place. A report of the parser also carries the token it stopped at and, where one kind alone would
have done, that kind.
-/

namespace Barnamaj

/-- The stage, or the rule of a stage, that reports a fault. -/
inductive Origin where
  | general
  | internal
  | semantic
  | duplicate
  | lexical
  | parsing (token : Token) (expected : Option TokenKind)
deriving DecidableEq, Inhabited

/-- The word under which faults of an origin are reported. -/
def Origin.category : Origin → String
  | .general => "Internal"
  | .internal => "Internal"
  | .semantic => "Semantic"
  | .duplicate => "Semantic"
  | .lexical => "Lexical"
  | .parsing _ _ => "Syntax"

/-- A fault as it is reported to the user. -/
structure Diagnostic where
  origin : Origin
  text : String
  line : Option Int := none
  column : Option Int := none
deriving DecidableEq, Inhabited

namespace Diagnostic

/-- A report with a place. -/
def located (origin : Origin) (text : String) (p : Position) : Diagnostic :=
  { origin, text, line := some p.line, column := some p.column }

/-- A report of the parser, placed at the token it stopped at. -/
def parsing (text : String) (token : Token) (expected : Option TokenKind) : Diagnostic :=
  located (.parsing token expected) text token.position

/-- The full text of a report. The place is given only when both coordinates are known. -/
def message (d : Diagnostic) : String :=
  match d.line, d.column with
  | some line, some column =>
    d.origin.category ++ " Error at Line " ++ toString line ++ ", Column " ++ toString column ++
      ": " ++ d.text
  | _, _ => d.origin.category ++ " Error: " ++ d.text

end Diagnostic

end Barnamaj

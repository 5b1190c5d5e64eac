import Barnamaj.Decimal.Layout
import Barnamaj.Text.Quoted
import Barnamaj.Token.Kind

/-!
# Tokens

A token is a lexeme with its kind, the value it denotes and the place where it starts. Tokens and
trees that are handed in from outside may carry any integers for a place, and any value.
-/

namespace Barnamaj

open Decimal (Binary64)

/-- A place in a source text: a line and a column, both counted from one. -/
structure Position where
  line : Int
  column : Int
deriving DecidableEq, Inhabited

/-! ### Values -/

/-- What a token, a literal or a constant operand carries: nothing, a truth value, an integer, a
real or a text. -/
inductive Value where
  | absent
  | bool (b : Bool)
  | int (n : Int)
  | real (r : Binary64)
  | text (s : String)
deriving DecidableEq, Inhabited

namespace Value

/-- A value as it stands in a listing. -/
def toText : Value → String
  | .absent => "None"
  | .bool b => if b then "True" else "False"
  | .int n => toString n
  | .real r => r.text
  | .text s => s

/-- A value with texts quoted, so that its kind shows, as it stands in an outline. -/
def inspect : Value → String
  | .text s => Text.quoted s
  | v => v.toText

end Value

/-! ### Tokens -/

/-- A token of a source text. -/
structure Token where
  kind : TokenKind
  lexeme : String
  value : Value
  position : Position
deriving DecidableEq, Inhabited

namespace Token

/-- The place of a token as `line:column`. -/
def place (t : Token) : String :=
  toString t.position.line ++ ":" ++ toString t.position.column

/-- A token as it stands in a token listing. -/
def describe (t : Token) : String :=
  "[" ++ t.kind.name ++ "] " ++ t.lexeme ++ " at (" ++ t.place ++ ")"

/-- A token with its lexeme quoted. -/
def inspect (t : Token) : String :=
  "Token(" ++ t.kind.name ++ ", " ++ Text.quoted t.lexeme ++ ", " ++ t.place ++ ")"

end Token

end Barnamaj

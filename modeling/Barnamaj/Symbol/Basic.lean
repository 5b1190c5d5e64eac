import Barnamaj.Diagnostic

/-!
# Symbols

A symbol is a name with a data type. It stands for a type or for a variable; both live in one
name space, and remember the level of the scope they belong to. What is reported about names is a
`SemanticFault`: a name defined twice, used without a declaration, or standing where no name or no
such node belongs.
-/

namespace Barnamaj

/-- The data types. -/
inductive DataType where
  | unknown
  | integer
  | real
  | boolean
  | char
  | string
  | record
  | list
  | procedure
deriving DecidableEq, Inhabited

namespace DataType

/-- The name of a data type. -/
def name : DataType → String
  | .unknown => "UNKNOWN"
  | .integer => "INTEGER"
  | .real => "REAL"
  | .boolean => "BOOLEAN"
  | .char => "CHAR"
  | .string => "STRING"
  | .record => "RECORD"
  | .list => "LIST"
  | .procedure => "PROCEDURE"

/-- Every data type, in the order of their numbers. -/
def all : List DataType :=
  [.unknown, .integer, .real, .boolean, .char, .string, .record, .list, .procedure]

/-- The data type with a given name. -/
def ofName? (s : String) : Option DataType :=
  all.find? (·.name == s)

/-- The types that have a name in the language. -/
def builtin : List (String × DataType) :=
  [("صحيح", .integer),
   ("حقيقي", .real),
   ("منطقي", .boolean),
   ("حرفي", .char),
   ("خيط رمزي", .string)]

theorem mem_all (t : DataType) : t ∈ all := by
  cases t <;> decide

end DataType

/-- What a symbol stands for. -/
inductive SymbolKind where
  | type
  | var
deriving DecidableEq, Inhabited

namespace SymbolKind

/-- The name of a kind of symbol. -/
def name : SymbolKind → String
  | .type => "TYPE"
  | .var => "VARIABLE"

/-- Every kind of symbol, in the order of their numbers. -/
def all : List SymbolKind :=
  [.type, .var]

end SymbolKind

/-- A name with its data type, the level of its scope and what it stands for. -/
structure Symbol where
  name : String
  type : DataType
  level : Int
  kind : SymbolKind := .var
deriving DecidableEq, Inhabited

/-! ### Faults in the use of names -/

/-- What is wrong with a name or with its place in a tree. -/
inductive SemanticFault where
  | duplicate (name : String)
  | leavingGlobal
  | unknownType (name : String)
  | undeclared (name : String) (position : Position)
  | undeclaredForReading (name : String) (position : Position)
  | assignmentTarget (position : Position)
  | readTarget (position : Position)
  | unexpectedNode (form : String) (position : Position)
deriving DecidableEq

namespace SemanticFault

/-- The text of a semantic fault. -/
def text : SemanticFault → String
  | .duplicate name => "Symbol '" ++ name ++ "' is already defined in this scope."
  | .leavingGlobal => "cannot leave the global scope"
  | .unknownType name => "Unknown type '" ++ name ++ "'."
  | .undeclared name _ => "Variable '" ++ name ++ "' not declared."
  | .undeclaredForReading name _ => "Variable '" ++ name ++ "' not declared for reading."
  | .assignmentTarget _ => "Left side of assignment must be a variable."
  | .readTarget _ => "Read statement must target a variable."
  | .unexpectedNode form _ => "Unexpected node " ++ form

/-- The place of a fault in a tree. -/
def position? : SemanticFault → Option Position
  | .undeclared _ p => some p
  | .undeclaredForReading _ p => some p
  | .assignmentTarget p => some p
  | .readTarget p => some p
  | .unexpectedNode _ p => some p
  | _ => none

/-- The report of a semantic fault. -/
def diagnostic (f : SemanticFault) : Diagnostic :=
  { origin := match f with
      | .duplicate _ => .duplicate
      | _ => .semantic
    text := f.text
    line := f.position?.map Position.line
    column := f.position?.map Position.column }

end SemanticFault

end Barnamaj

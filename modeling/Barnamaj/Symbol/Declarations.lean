import Barnamaj.Symbol.Environment
import Barnamaj.Text.Character

/-!
# Declarations

The variables that are declared from outside before a program is checked: names with data types, in
the order in which the names first occur. A name given again keeps its place and takes the new
type. On the command line a declaration is spelled `NAME` or `NAME:TYPE`.
-/

namespace Barnamaj

/-- Names with data types, no name twice, in the order of their first occurrence. -/
abbrev Declarations := List (String × DataType)

namespace Declarations

/-- Add a name behind the others, or give it a new type where it stands. -/
def insert : Declarations → String → DataType → Declarations
  | [], name, type => [(name, type)]
  | (key, old) :: rest, name, type =>
    if key = name then (key, type) :: rest else (key, old) :: insert rest name type

/-- Add the entries of a list, one after the other. -/
def update (d : Declarations) (entries : List (String × DataType)) : Declarations :=
  entries.foldl (fun d (name, type) => d.insert name type) d

/-- The declarations that a list of entries amounts to. -/
def ofEntries (entries : List (String × DataType)) : Declarations :=
  update [] entries

/-- Declare variables one after the other in the innermost scope. A name that is defined there
already is left as it is; what became of each declaration is listed in their order. -/
def declareAll (env : Environment) :
    Declarations → Environment × List (Except SemanticFault Symbol)
  | [] => (env, [])
  | (name, type) :: rest =>
    match env.declare name type with
    | .ok next =>
      let (final, outcomes) := declareAll next rest
      (final, .ok (env.variableSymbol name type) :: outcomes)
    | .error f =>
      let (final, outcomes) := declareAll env rest
      (final, .error f :: outcomes)

/-! ### Declarations in words -/

/-- Why the text of a declaration declares nothing. -/
inductive Fault where
  | blankName (spec : String)
  | semantic (f : SemanticFault)
deriving DecidableEq

/-- The report of a declaration that declares nothing. -/
def Fault.diagnostic : Fault → Diagnostic
  | .blankName spec => { origin := .general, text := "bad declaration '" ++ spec ++ "'" }
  | .semantic f => f.diagnostic

/-- The type of a declared variable that is given none. -/
def defaultType : DataType := .integer

/-- The name and the type that a text declares. They are divided by the first colon, and blanks
around them do not count. -/
def ofSpec (spec : String) : Except Fault (String × DataType) :=
  let cs := spec.toList
  let name := Text.trimBlanks (cs.takeWhile (· != ':'))
  let type := Text.trimBlanks ((cs.dropWhile (· != ':')).drop 1)
  if name.isEmpty then .error (.blankName spec)
  else if type.isEmpty then .ok (String.ofList name, defaultType)
  else
    match Environment.initial.resolveType (String.ofList type) with
    | .ok t => .ok (String.ofList name, t)
    | .error f => .error (.semantic f)

/-- The declarations of several texts, or the first fault among them. -/
def ofSpecs (specs : List String) : Except Fault Declarations :=
  (specs.mapM ofSpec).map ofEntries

end Declarations

end Barnamaj

import Barnamaj.Symbol.Scope
import Barnamaj.Text.Character

/-!
# Open scopes

The scopes that are open at a point of a program, the innermost first. The outermost one is never
closed and starts with the names of the built-in types.
-/

namespace Barnamaj

/-- The open scopes: the innermost one and those around it, the nearest first. -/
structure Environment where
  scope : Scope
  outer : List Scope := []

namespace Environment

variable (env : Environment)

/-- The scope that every program starts in, with the built-in types as its symbols. -/
def globalScope : Scope :=
  { level := 0
    symbols := DataType.builtin.map fun (name, type) => { name, type, level := 0, kind := .type }
    nodup := by decide }

/-- The global scope alone. -/
def initial : Environment := { scope := globalScope }

/-- The symbol of a name in the nearest open scope that defines it. -/
def lookup (name : String) : Option Symbol :=
  Scope.lookupIn (env.scope :: env.outer) name

/-- Whether some open scope defines a name. -/
def declares (name : String) : Bool :=
  (env.lookup name).isSome

/-- Open a scope inside the innermost one. -/
def push : Environment :=
  { scope := { level := env.scope.level + 1 }, outer := env.scope :: env.outer }

/-- Close the innermost scope, unless it is the global one. -/
def pop : Except SemanticFault Environment :=
  match env.outer with
  | [] => .error .leavingGlobal
  | scope :: outer => .ok { scope, outer }

/-- A variable as it would be declared in the innermost scope. -/
def variableSymbol (name : String) (type : DataType) : Symbol :=
  { name, type, level := env.scope.level }

/-- Declare a variable in the innermost scope. -/
def declare (name : String) (type : DataType) : Except SemanticFault Environment :=
  (env.scope.define (env.variableSymbol name type)).map fun scope => { env with scope }

/-- The type of a type name: that of a type symbol, or else the one whose own name it spells in
any letter case. -/
def resolveType (name : String) : Except SemanticFault DataType :=
  let byName : Except SemanticFault DataType :=
    match DataType.ofName? (Text.capitals name) with
    | some type => .ok type
    | none => .error (.unknownType name)
  match env.lookup name with
  | some symbol => if symbol.kind = .type then .ok symbol.type else byName
  | none => byName

end Environment

end Barnamaj

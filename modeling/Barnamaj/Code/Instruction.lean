import Barnamaj.Token.Basic

/-!
# Instructions

Three-address code: an instruction has an operation, an optional result and up to two arguments.
An operand is a variable, a numbered temporary or a constant, and is shown by its name. Different
operands can have one name, and count as equal then.
-/

namespace Barnamaj

/-- The operations. -/
inductive OpCode where
  | add | sub | mul | div | idiv | mod | pow | and | or | not
  | eq | neq | lt | gt | lte | gte
  | assign
  | goto | ifGoto
  | read | print
  | call | ret | param
  | label
  | halt
deriving DecidableEq, Inhabited

namespace OpCode

/-- The name of an operation. -/
def name : OpCode → String
  | .add => "ADD"
  | .sub => "SUB"
  | .mul => "MUL"
  | .div => "DIV"
  | .idiv => "IDIV"
  | .mod => "MOD"
  | .pow => "POW"
  | .and => "AND"
  | .or => "OR"
  | .not => "NOT"
  | .eq => "EQ"
  | .neq => "NEQ"
  | .lt => "LT"
  | .gt => "GT"
  | .lte => "LTE"
  | .gte => "GTE"
  | .assign => "ASSIGN"
  | .goto => "GOTO"
  | .ifGoto => "IF_GOTO"
  | .read => "READ"
  | .print => "PRINT"
  | .call => "CALL"
  | .ret => "RETURN"
  | .param => "PARAM"
  | .label => "LABEL"
  | .halt => "HALT"

/-- Every operation, in the order of their numbers. -/
def all : List OpCode :=
  [.add, .sub, .mul, .div, .idiv, .mod, .pow, .and, .or, .not, .eq, .neq, .lt, .gt, .lte, .gte,
   .assign, .goto, .ifGoto, .read, .print, .call, .ret, .param, .label, .halt]

/-- The operation with a given name. -/
def ofName? (s : String) : Option OpCode :=
  all.find? (·.name == s)

/-- The operations of the operators. The signs share the operations of addition and subtraction,
with one argument. -/
def ofOperator : List (TokenKind × OpCode) :=
  [(.plus, .add),
   (.minus, .sub),
   (.multiply, .mul),
   (.divide, .div),
   (.intDivide, .idiv),
   (.modulo, .mod),
   (.power, .pow),
   (.and, .and),
   (.or, .or),
   (.not, .not),
   (.eq, .eq),
   (.neq, .neq),
   (.lt, .lt),
   (.gt, .gt),
   (.lte, .lte),
   (.gte, .gte)]

theorem mem_all (c : OpCode) : c ∈ all := by
  cases c <;> decide

end OpCode

/-- What an instruction refers to. -/
inductive Operand where
  | named (name : String)
  | temporary (index : Int)
  | constant (value : Value) (kind : Option TokenKind)
deriving DecidableEq, Inhabited

namespace Operand

/-- The name of an operand. Only string constants are quoted. -/
def name : Operand → String
  | .named name => name
  | .temporary index => "T_" ++ toString index
  | .constant value kind =>
    if kind = some .stringLiteral then "\"" ++ value.toText ++ "\"" else value.toText

/-- Operands of one name are the same. -/
def same (a b : Operand) : Bool :=
  a.name == b.name

/-- The number of different operands in a list. -/
def distinct (operands : List Operand) : Nat :=
  (operands.map name).eraseDups.length

/-- The value of a constant. -/
def value : Operand → Value
  | .constant value _ => value
  | _ => .absent

/-- The kind of literal that a constant comes from. -/
def kind : Operand → Option TokenKind
  | .constant _ kind => kind
  | _ => none

/-- Whether an operand is a temporary. -/
def isTemporary : Operand → Bool
  | .temporary _ => true
  | _ => false

/-- Whether an operand is a constant. -/
def isConstant : Operand → Bool
  | .constant _ _ => true
  | _ => false

end Operand

/-- An operation with its operands. -/
structure Instruction where
  op : OpCode
  result : Option Operand := none
  arg1 : Option Operand := none
  arg2 : Option Operand := none
deriving DecidableEq, Inhabited

namespace Instruction

/-- The operands of an instruction that are there. -/
def operands (i : Instruction) : List Operand :=
  [i.result, i.arg1, i.arg2].filterMap id

/-- An instruction as a text: its operation and its operands. -/
def text (i : Instruction) : String :=
  " ".intercalate (i.op.name :: i.operands.map Operand.name)

/-- The line of an instruction at an index: a label stands alone, anything else has its index. -/
def line (index : Nat) (i : Instruction) : String :=
  if i.op = .label then (i.result.map Operand.name).getD "None" ++ ":\n"
  else "\t" ++ toString index ++ ": " ++ i.text ++ "\n"

/-- The lines of a list of instructions, the first one at a given index. -/
def linesFrom (index : Nat) : List Instruction → List String
  | [] => []
  | i :: rest => i.line index :: linesFrom (index + 1) rest

/-- The listing of a list of instructions. -/
def listing (code : List Instruction) : String :=
  String.join (linesFrom 0 code)

end Instruction

end Barnamaj

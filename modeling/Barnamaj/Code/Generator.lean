import Barnamaj.Code.Instruction
import Barnamaj.Diagnostic
import Barnamaj.Tree.Basic

/-!
# Code generation

A generator appends instructions to a list and draws temporaries and labels from two counters. An
operation stores its result in a temporary of its own, after the code of its operands. A node that
has no code stops the generator where it stands.
-/

namespace Barnamaj

/-- Why a tree has no code. -/
inductive GenerationFault where
  | noOpCode (operator : Token)
  | noCode (form : String) (position : Position)
deriving DecidableEq

/-- The report of a tree without code. -/
def GenerationFault.diagnostic : GenerationFault → Diagnostic
  | .noOpCode t =>
    .located .internal ("Unsupported token type for OpCode: " ++ t.kind.name) t.position
  | .noCode form p =>
    .located .internal ("Code generation not implemented for node type: " ++ form) p

/-- The instructions so far, and how many temporaries and labels have been drawn. -/
structure Generator where
  instructions : List Instruction := []
  temporaries : Nat := 0
  labels : Nat := 0
deriving DecidableEq

/-- A step of a generator. A step that fails leaves what it has generated before. -/
abbrev Generate := EStateM GenerationFault Generator

namespace Generate

/-- Draw a fresh temporary. -/
def newTemporary : Generate Operand := fun g =>
  .ok (.temporary g.temporaries) { g with temporaries := g.temporaries + 1 }

/-- Draw a fresh label. -/
def newLabel : Generate String := fun g =>
  .ok ("L" ++ toString g.labels) { g with labels := g.labels + 1 }

/-- Append an instruction. -/
def emit (i : Instruction) : Generate Instruction := fun g =>
  .ok i { g with instructions := g.instructions ++ [i] }

/-- Append a label. -/
def emitLabel (name : String) : Generate Instruction :=
  emit { op := .label, result := some (.named name) }

/-- The operation of an operator. -/
def opCode (operator : Token) : Generate OpCode :=
  match OpCode.ofOperator.lookup operator.kind with
  | some op => return op
  | none => throw (.noOpCode operator)

/-- The code of an expression; the answer is the operand that holds its value. -/
def expression : Node → Generate Operand
  | .binary _ operator left right => do
    let a ← expression left
    let b ← expression right
    let result ← newTemporary
    let op ← opCode operator
    let _ ← emit { op, result := some result, arg1 := some a, arg2 := some b }
    return result
  | .unary _ operator operand => do
    let a ← expression operand
    let result ← newTemporary
    let op ← opCode operator
    let _ ← emit { op, result := some result, arg1 := some a }
    return result
  | .access _ name _ => return .named name
  | .literal _ kind value _ => return .constant value (some kind)
  | n => throw (.noCode n.form n.position)

/-- The variable that a target names. -/
def target : Node → Generate Operand
  | .access _ name _ => return .named name
  | .program _ name _ => return .named name
  | n => throw (.noCode n.form n.position)

/-- The code that prints items one after the other. -/
def printItems : List Node → Generate Unit
  | [] => return ()
  | item :: rest => do
    let value ← expression item
    let _ ← emit { op := .print, arg1 := some value }
    printItems rest

mutual

/-- The code of a statement. -/
def statement : Node → Generate Unit
  | .assignment _ goal e => do
    let value ← expression e
    let result ← target goal
    let _ ← emit { op := .assign, result := some result, arg1 := some value }
  | .print _ items _ => printItems items
  | .read _ goal _ => do
    let result ← target goal
    let _ ← emit { op := .read, result := some result }
  | .block _ nodes => statements nodes
  | .program p name body => throw (.noCode (Node.form (.program p name body)) p)
  | .binary p op left right => throw (.noCode (Node.form (.binary p op left right)) p)
  | .unary p op operand => throw (.noCode (Node.form (.unary p op operand)) p)
  | .access p name t => throw (.noCode (Node.form (.access p name t)) p)
  | .literal p kind value t => throw (.noCode (Node.form (.literal p kind value t)) p)
  | .bare p family => throw (.noCode (Node.form (.bare p family)) p)

/-- The code of several statements, one after the other. -/
def statements : List Node → Generate Unit
  | [] => return ()
  | n :: rest => do
    statement n
    statements rest

end

/-- The code of a whole program or block, which ends the run. The generator starts anew. -/
def code (tree : Node) : Generate (List Instruction) := do
  set ({} : Generator)
  statements tree.body.statements
  let _ ← emit { op := .halt }
  return (← get).instructions

end Generate

end Barnamaj

import Barnamaj.Symbol.Environment
import Barnamaj.Tree.Basic

/-!
# Uses of names

A tree is sound if every variable it assigns, reads or uses is declared, targets are variables, and
no node stands where a statement or an expression cannot be visited. The tree is visited in the
order of the source text and the first fault is reported.
-/

namespace Barnamaj

namespace Node

mutual

/-- Visit a statement or an expression, given which names are declared. -/
def check (declared : String → Bool) : Node → Except SemanticFault Unit
  | .assignment p target e =>
    match target with
    | .access q name _ =>
      if declared name then e.check declared else .error (.undeclared name q)
    | _ => .error (.assignmentTarget p)
  | .print _ items _ => checkAll declared items
  | .read p target _ =>
    match target with
    | .access q name _ =>
      if declared name then .ok () else .error (.undeclaredForReading name q)
    | _ => .error (.readTarget p)
  | .binary _ _ left right =>
    match left.check declared with
    | .ok _ => right.check declared
    | .error f => .error f
  | .unary _ _ operand => operand.check declared
  | .access p name _ => if declared name then .ok () else .error (.undeclared name p)
  | .literal _ _ _ _ => .ok ()
  | .block _ statements => checkAll declared statements
  | .program p name body => .error (.unexpectedNode (form (.program p name body)) p)
  | .bare p family => .error (.unexpectedNode (form (.bare p family)) p)

/-- Visit several nodes, one after the other, up to the first fault. -/
def checkAll (declared : String → Bool) : List Node → Except SemanticFault Unit
  | [] => .ok ()
  | n :: rest =>
    match n.check declared with
    | .ok _ => checkAll declared rest
    | .error f => .error f

end

end Node

/-- Check the uses of names in a program or a block against the open scopes. -/
def Environment.analyze (env : Environment) (tree : Node) : Except SemanticFault Unit :=
  Node.checkAll env.declares tree.body.statements

end Barnamaj

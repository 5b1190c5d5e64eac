import Barnamaj.Token.Basic

/-!
# Trees

The trees of the language: a program is a name and a list of statements, a statement assigns,
prints or reads, and an expression is built from constants and names by unary and binary
operators. The tokens of the source text stand in the tree, and give its nodes their positions.

A `Node` is a tree of the same forms, with nothing said about which form may stand where: an
expression may stand for a statement, a constant for the target of an assignment. The later stages
take such trees and report what does not fit. Every program is one (`Program.toNode`).
-/

namespace Barnamaj

/-! ### Programs -/

/-- An expression. -/
inductive Expression where
  | literal (token : Token)
  | access (token : Token)
  | unary (operator : Token) (operand : Expression)
  | binary (operator : Token) (left right : Expression)
deriving DecidableEq, Inhabited

/-- The height of an expression, counted in nodes; parentheses do not count. -/
def Expression.height : Expression → Nat
  | .literal _ => 1
  | .access _ => 1
  | .unary _ operand => operand.height + 1
  | .binary _ left right => max left.height right.height + 1

/-- What a print statement prints: a constant or a variable. -/
inductive PrintItem where
  | literal (token : Token)
  | access (token : Token)
deriving DecidableEq, Inhabited

/-- A statement. -/
inductive Statement where
  | assignment (target : Token) (expression : Expression)
  | print (keyword : Token) (items : List PrintItem)
  | read (keyword : Token) (target : Token)
deriving DecidableEq, Inhabited

/-- A program: where it and its body start, its name and its statements. -/
structure Program where
  position : Position
  name : String
  bodyPosition : Position
  statements : List Statement
deriving DecidableEq, Inhabited

/-! ### Loose trees -/

/-- The families of nodes that a node without contents can belong to. -/
inductive Family where
  | any
  | expression
  | statement
deriving DecidableEq, Inhabited

/-- A tree in which every form may stand in every place. -/
inductive Node where
  | program (position : Position) (name : String) (body : Node)
  | block (position : Position) (statements : List Node)
  | assignment (position : Position) (target expression : Node)
  | print (position : Position) (items : List Node) (token : Option Token)
  | read (position : Position) (target : Node) (token : Option Token)
  | binary (position : Position) (operator : Token) (left right : Node)
  | unary (position : Position) (operator : Token) (operand : Node)
  | access (position : Position) (name : String) (token : Option Token)
  | literal (position : Position) (kind : TokenKind) (value : Value) (token : Option Token)
  | bare (position : Position) (family : Family)
deriving Inhabited

namespace Node

/-- Where a node starts. -/
def position : Node → Position
  | .program p _ _ => p
  | .block p _ => p
  | .assignment p _ _ => p
  | .print p _ _ => p
  | .read p _ _ => p
  | .binary p _ _ _ => p
  | .unary p _ _ => p
  | .access p _ _ => p
  | .literal p _ _ _ => p
  | .bare p _ => p

/-- The name of a node's form. -/
def form : Node → String
  | .program _ _ _ => "Program"
  | .block _ _ => "StatementList"
  | .assignment _ _ _ => "Assignment"
  | .print _ _ _ => "Print"
  | .read _ _ _ => "Read"
  | .binary _ _ _ _ => "BinaryOp"
  | .unary _ _ _ => "UnaryOp"
  | .access _ _ _ => "VariableAccess"
  | .literal _ _ _ _ => "Literal"
  | .bare _ .any => "ASTNode"
  | .bare _ .expression => "Expression"
  | .bare _ .statement => "Statement"

/-- The body of a program; any other node is its own body. -/
def body : Node → Node
  | .program _ _ body => body
  | n => n

/-- The statements of a block; any other node is the one statement of itself. -/
def statements : Node → List Node
  | .block _ statements => statements
  | n => [n]

end Node

/-! ### Programs as loose trees -/

/-- The node of a constant. -/
def Token.literalNode (t : Token) : Node :=
  .literal t.position t.kind t.value (some t)

/-- The node of a variable. -/
def Token.accessNode (t : Token) : Node :=
  .access t.position t.lexeme (some t)

/-- An expression as a loose tree. -/
def Expression.toNode : Expression → Node
  | .literal t => t.literalNode
  | .access t => t.accessNode
  | .unary op operand => .unary op.position op operand.toNode
  | .binary op left right => .binary op.position op left.toNode right.toNode

/-- A printed item as a loose tree. -/
def PrintItem.toNode : PrintItem → Node
  | .literal t => t.literalNode
  | .access t => t.accessNode

/-- A statement as a loose tree. -/
def Statement.toNode : Statement → Node
  | .assignment target e => .assignment target.position target.accessNode e.toNode
  | .print keyword items => .print keyword.position (items.map PrintItem.toNode) (some keyword)
  | .read keyword target => .read keyword.position target.accessNode (some keyword)

/-- A program as a loose tree. -/
def Program.toNode (p : Program) : Node :=
  .program p.position p.name (.block p.bodyPosition (p.statements.map Statement.toNode))

end Barnamaj

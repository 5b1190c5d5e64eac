import Barnamaj.Tree.Basic

/-!
# Outlines

The outline of a tree lists its nodes in the order of the source text, one per line, each indented
by its depth. Positions are left out.
-/

namespace Barnamaj

/-- A line of an outline: a depth and a text. -/
structure OutlineLine where
  depth : Int
  text : String
deriving DecidableEq

/-- A line with its indentation, two spaces for each level; there is none below level zero. -/
def OutlineLine.render (l : OutlineLine) : String :=
  String.ofList (List.replicate (2 * l.depth.toNat) ' ') ++ l.text ++ "\n"

namespace Node

/-- What the line of a node says of the node itself. -/
def heading : Node → String
  | .program _ name _ => "Program: " ++ name
  | .binary _ op _ _ => "BinaryOp(" ++ op.lexeme ++ ")"
  | .unary _ op _ => "UnaryOp(" ++ op.lexeme ++ ")"
  | .access _ name _ => "VariableAccess(" ++ name ++ ")"
  | .literal _ kind value _ => "Literal(" ++ kind.name ++ ", " ++ value.inspect ++ ")"
  | n => n.form

mutual

/-- The lines of a tree, the root at the given depth. -/
def outline (depth : Int) : Node → List OutlineLine
  | n@(.program _ _ body) => ⟨depth, n.heading⟩ :: body.outline (depth + 1)
  | n@(.block _ statements) => ⟨depth, n.heading⟩ :: outlineAll (depth + 1) statements
  | n@(.assignment _ target e) =>
    ⟨depth, n.heading⟩ :: (target.outline (depth + 1) ++ e.outline (depth + 1))
  | n@(.print _ items _) => ⟨depth, n.heading⟩ :: outlineAll (depth + 1) items
  | n@(.read _ target _) => ⟨depth, n.heading⟩ :: target.outline (depth + 1)
  | n@(.binary _ _ left right) =>
    ⟨depth, n.heading⟩ :: (left.outline (depth + 1) ++ right.outline (depth + 1))
  | n@(.unary _ _ operand) => ⟨depth, n.heading⟩ :: operand.outline (depth + 1)
  | n@(.access _ _ _) => [⟨depth, n.heading⟩]
  | n@(.literal _ _ _ _) => [⟨depth, n.heading⟩]
  | n@(.bare _ _) => [⟨depth, n.heading⟩]

/-- The lines of several trees, one after the other. -/
def outlineAll (depth : Int) : List Node → List OutlineLine
  | [] => []
  | n :: rest => n.outline depth ++ outlineAll depth rest

end

/-- The outline of a tree as a text. -/
def dump (n : Node) (depth : Int) : String :=
  String.join ((n.outline depth).map OutlineLine.render)

end Node

end Barnamaj

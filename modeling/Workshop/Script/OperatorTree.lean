import Workshop.Script.Node

/-!
# Operator trees

A chain of operands with operators between them becomes a tree: operators of higher precedence
take their operands first, and among equals the left one does.  The chain is read from left to
right, and every operator is put into the right edge of the tree built so far.
-/

namespace Workshop

/-- A tree of operators over operands that are not looked into. -/
inductive OperatorTree where
  | operand (node : Node)
  | operation (operator : BinaryOperator) (left right : OperatorTree)

namespace OperatorTree

/-- Puts one more operator and its right operand behind a tree.  The operator goes below the
operators on the right edge that bind less tightly. -/
def push (operator : BinaryOperator) (last : Node) : OperatorTree → OperatorTree
  | operand node => operation operator (operand node) (operand last)
  | operation above left right =>
    if above.precedence < operator.precedence then operation above left (right.push operator last)
    else operation operator (operation above left right) (operand last)

/-- The tree of a chain: a first operand, then operators with their right operands. -/
def ofChain (first : Node) (tail : List (BinaryOperator × Node)) : OperatorTree :=
  tail.foldl (fun tree link => tree.push link.1 link.2) (operand first)

/-- The syntax tree of an operator tree. -/
def toNode : OperatorTree → Node
  | operand node => node
  | operation operator left right => .binary operator left.toNode right.toNode

end OperatorTree
end Workshop

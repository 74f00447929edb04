import Workshop.Script.Node

/-!
# Induction over syntax trees

Trees contain lists of trees and trees that may be missing.  The induction
principle of this module hides this nesting: to prove something of every tree,
it is enough to prove it of a node from the same fact about all its parts.

Main definitions:

- `Node.parts`: the nodes that a node is made of.
- `Node.StandsIn`: a node is found somewhere in a tree.

Main results:

- Theorem `Node.inductionOnParts`: induction over all parts of a node.
- Theorem `Node.forall_standsIn_iff`: what holds everywhere in a tree.
-/

namespace Workshop
namespace Node

/-- A property of all parts of a node holds of the node, hence of every tree.  A part that may be
missing is a member of an option. -/
@[induction_eliminator]
theorem inductionOnParts {motive : Node → Prop}
    (block : ∀ statements, (∀ node ∈ statements, motive node) → motive (block statements))
    (constant : ∀ name value, motive value → motive (constant name value))
    (declare : ∀ typeName name perPlayer initial, (∀ node ∈ initial, motive node) →
      motive (declare typeName name perPlayer initial))
    (useBank : ∀ domain bank, motive (useBank domain bank))
    (rule : ∀ name event conditions actions,
      (∀ nodes ∈ conditions, ∀ node ∈ nodes, motive node) → (∀ node ∈ actions, motive node) →
      motive (rule name event conditions actions))
    (assign : ∀ target receiver value, (∀ node ∈ receiver, motive node) → motive value →
      motive (assign target receiver value))
    (call : ∀ callee receiver arguments, motive callee → (∀ node ∈ receiver, motive node) →
      (∀ node ∈ arguments, motive node) → motive (call callee receiver arguments))
    (enumMember : ∀ enumName member, motive (enumMember enumName member))
    (negation : ∀ operand, motive operand → motive (negation operand))
    (binary : ∀ operator left right, motive left → motive right →
      motive (binary operator left right))
    (choice : ∀ condition thenBranch elseBranch, motive condition → motive thenBranch →
      (∀ node ∈ elseBranch, motive node) → motive (choice condition thenBranch elseBranch))
    (number : ∀ digits, motive (number digits))
    (text : ∀ body, motive (text body))
    (boolean : ∀ value, motive (boolean value))
    (player : motive player)
    (identifier : ∀ name receiver, (∀ node ∈ receiver, motive node) →
      motive (identifier name receiver))
    (node : Node) : motive node := by
  -- The recursor has one motive for each of the four shapes in which trees are nested.
  refine @Node.rec motive (fun nodes => ∀ node ∈ nodes, motive node)
    (fun part => ∀ node ∈ part, motive node)
    (fun part => ∀ nodes ∈ part, ∀ node ∈ nodes, motive node)
    block constant declare useBank rule assign call enumMember negation binary choice number text
    boolean player identifier ?_ ?_ ?_ ?_ ?_ ?_ node
  · intro node hmem
    cases hmem
  · intro head tail hhead htail node hmem
    rcases List.mem_cons.1 hmem with rfl | hmem
    · exact hhead
    · exact htail node hmem
  · intro node hmem
    cases hmem
  · intro part hpart node hmem
    cases hmem
    exact hpart
  · intro nodes hmem
    cases hmem
  · intro part hpart nodes hmem
    cases hmem
    exact hpart

/-! ## Parts of trees -/

/-- The nodes that a node is made of. -/
def parts : Node → List Node
  | block statements => statements
  | constant _ value => [value]
  | declare _ _ _ initial => initial.toList
  | useBank _ _ => []
  | rule _ _ conditions actions => conditions.getD [] ++ actions
  | assign _ receiver value => value :: receiver.toList
  | call callee receiver arguments => callee :: receiver.toList ++ arguments
  | enumMember _ _ => []
  | negation operand => [operand]
  | binary _ left right => [left, right]
  | choice condition thenBranch elseBranch => condition :: thenBranch :: elseBranch.toList
  | number _ => []
  | text _ => []
  | boolean _ => []
  | player => []
  | identifier _ receiver => receiver.toList

/-- A node is found somewhere in a tree. -/
inductive StandsIn : Node → Node → Prop
  | here (node : Node) : StandsIn node node
  | inPart {node part whole : Node} : part ∈ whole.parts → StandsIn node part → StandsIn node whole

theorem StandsIn.trans {inner node whole : Node} (hinner : inner.StandsIn node)
    (hnode : node.StandsIn whole) : inner.StandsIn whole := by
  induction hnode with
  | here => exact hinner
  | inPart hpart _ ih => exact .inPart hpart ih

/-- What holds everywhere in a tree holds of its root and everywhere in its parts. -/
theorem forall_standsIn_iff {p : Node → Prop} {node : Node} :
    (∀ inner : Node, inner.StandsIn node → p inner) ↔
      p node ∧ ∀ part ∈ node.parts, ∀ inner : Node, inner.StandsIn part → p inner := by
  constructor
  · intro hall
    exact ⟨hall node (.here node), fun part hpart inner hinner => hall inner (.inPart hpart hinner)⟩
  · rintro ⟨hself, hparts⟩ inner hinner
    cases hinner with
    | here => exact hself
    | inPart hpart hinner => exact hparts _ hpart inner hinner

end Node
end Workshop

import Workshop.Proofs.Printing.Words
import Workshop.Proofs.Tree
import Mathlib.Tactic.Tauto

/-!
# Proper trees

Not every tree is the tree of a script.  In a proper tree, all names, numbers
and texts are words of the language, receivers are names, calls or the player,
and the conditions of rules are operations.  What counts as a word is left open
here.

Main definitions:

- `Node.Fits`: what a node of a proper tree is made of.
- `Node.Proper`: every node of a tree fits.

Main results:

- Theorem `Node.Proper.attach`: a proper receiver can be attached to a proper
  chain.
-/

namespace Workshop
namespace Node

/-- Whether a member of the node can be asked for: it is a name, a call or the player. -/
def isReceiver : Node → Bool
  | identifier _ _ => true
  | call _ _ _ => true
  | player => true
  | _ => false

/-- Whether the node is an operator between two operands. -/
def isOperation : Node → Bool
  | binary _ _ _ => true
  | _ => false

/-- The words of a node are valid, its receiver is one, and its conditions are operations. -/
@[simp]
def Fits (valid : Word → Prop) : Node → Prop
  | constant name _ => valid ⟨.identifier, name⟩
  | declare typeName name _ _ =>
    (valid ⟨.identifier, typeName⟩ ∨ typeName = "var" ∨ typeName = "player") ∧
      valid ⟨.identifier, name⟩
  | rule name event conditions _ =>
    valid ⟨.string, name⟩ ∧ (valid ⟨.identifier, event⟩ ∨ valid ⟨.keyword, event⟩) ∧
      ∀ nodes ∈ conditions, ∀ node ∈ nodes, node.isOperation = true
  | assign target receiver _ =>
    valid ⟨.identifier, target⟩ ∧ ∀ node ∈ receiver, node.isReceiver = true
  | call _ receiver _ => ∀ node ∈ receiver, node.isReceiver = true
  | enumMember enumName member =>
    valid ⟨.identifier, enumName⟩ ∧ valid ⟨.keyword, member⟩ ∧ member ≠ "player"
  | number digits => valid ⟨.number, digits⟩
  | text body => valid ⟨.string, body⟩
  | identifier name receiver =>
    valid ⟨.identifier, name⟩ ∧ ∀ node ∈ receiver, node.isReceiver = true
  | _ => True

/-- Every node of a tree fits. -/
def Proper (valid : Word → Prop) (node : Node) : Prop :=
  ∀ inner : Node, inner.StandsIn node → inner.Fits valid

variable {valid : Word → Prop} {node value attached : Node} {name : String} {receiver : Option Node}

/-- A tree is proper if its root fits and its parts are proper. -/
theorem proper_iff : node.Proper valid ↔ node.Fits valid ∧ ∀ part ∈ node.parts, part.Proper valid :=
  forall_standsIn_iff

/-! ## Node by node -/

/-- Blocks of proper statements. -/
@[simp]
theorem proper_block {statements : List Node} :
    (block statements).Proper valid ↔ ∀ node ∈ statements, node.Proper valid := by
  rw [proper_iff]
  simp [parts]

/-- Constants with a name and a value. -/
@[simp]
theorem proper_constant :
    (constant name value).Proper valid ↔ valid ⟨.identifier, name⟩ ∧ value.Proper valid := by
  rw [proper_iff]
  simp [parts]

/-- Declarations with a type and a name. -/
@[simp]
theorem proper_declare {typeName : String} {perPlayer : Bool} {initial : Option Node} :
    (declare typeName name perPlayer initial).Proper valid ↔
      (valid ⟨.identifier, typeName⟩ ∨ typeName = "var" ∨ typeName = "player") ∧
        valid ⟨.identifier, name⟩ ∧ ∀ node ∈ initial, node.Proper valid := by
  rw [proper_iff]
  simp [parts, and_assoc]

@[simp]
theorem proper_useBank {domain : Domain} {bank : Bank} : (useBank domain bank).Proper valid := by
  rw [proper_iff]
  simp [parts]

/-- Rules with an event and operations. -/
@[simp]
theorem proper_rule {event : String} {conditions : Option (List Node)} {actions : List Node} :
    (rule name event conditions actions).Proper valid ↔
      valid ⟨.string, name⟩ ∧ (valid ⟨.identifier, event⟩ ∨ valid ⟨.keyword, event⟩) ∧
        (∀ nodes ∈ conditions, ∀ node ∈ nodes, node.isOperation = true ∧ node.Proper valid) ∧
        ∀ node ∈ actions, node.Proper valid := by
  rw [proper_iff]
  cases conditions with
  | none => simp [parts, and_assoc]
  | some nodes =>
      simp only [Fits, parts, Option.mem_some_iff, Option.getD_some, List.mem_append,
        forall_eq', or_imp, forall_and]
      tauto

/-- Assignments to a receiver. -/
@[simp]
theorem proper_assign {target : String} :
    (assign target receiver value).Proper valid ↔
      valid ⟨.identifier, target⟩ ∧
        (∀ node ∈ receiver, node.isReceiver = true ∧ node.Proper valid) ∧
        value.Proper valid := by
  rw [proper_iff]
  cases receiver with
  | none => simp [parts]
  | some node =>
      simp [parts]
      tauto

/-- Calls on a receiver. -/
@[simp]
theorem proper_call {callee : Node} {arguments : List Node} :
    (call callee receiver arguments).Proper valid ↔
      callee.Proper valid ∧
        (∀ node ∈ receiver, node.isReceiver = true ∧ node.Proper valid) ∧
        ∀ node ∈ arguments, node.Proper valid := by
  rw [proper_iff]
  cases receiver with
  | none => simp [parts]
  | some node =>
      simp [parts]
      tauto

/-- Members of enumerations. -/
@[simp]
theorem proper_enumMember {enumName member : String} :
    (enumMember enumName member).Proper valid ↔
      valid ⟨.identifier, enumName⟩ ∧ valid ⟨.keyword, member⟩ ∧ member ≠ "player" := by
  rw [proper_iff]
  simp [parts]

@[simp]
theorem proper_negation {operand : Node} :
    (negation operand).Proper valid ↔ operand.Proper valid := by
  rw [proper_iff]
  simp [parts]

@[simp]
theorem proper_binary {operator : BinaryOperator} {left right : Node} :
    (binary operator left right).Proper valid ↔ left.Proper valid ∧ right.Proper valid := by
  rw [proper_iff]
  simp [parts]

/-- Choices between proper trees. -/
@[simp]
theorem proper_choice {condition thenBranch : Node} {elseBranch : Option Node} :
    (choice condition thenBranch elseBranch).Proper valid ↔
      condition.Proper valid ∧ thenBranch.Proper valid ∧
        ∀ node ∈ elseBranch, node.Proper valid := by
  rw [proper_iff]
  simp [parts]

@[simp]
theorem proper_number {digits : String} :
    (number digits).Proper valid ↔ valid ⟨.number, digits⟩ := by
  rw [proper_iff]
  simp [parts]

@[simp]
theorem proper_text {body : String} : (text body).Proper valid ↔ valid ⟨.string, body⟩ := by
  rw [proper_iff]
  simp [parts]

@[simp]
theorem proper_boolean {value : Bool} : (boolean value).Proper valid := by
  rw [proper_iff]
  simp [parts]

@[simp]
theorem proper_player : player.Proper valid := by
  rw [proper_iff]
  simp [parts]

/-- Names with a receiver. -/
@[simp]
theorem proper_identifier :
    (identifier name receiver).Proper valid ↔
      valid ⟨.identifier, name⟩ ∧
        ∀ node ∈ receiver, node.isReceiver = true ∧ node.Proper valid := by
  rw [proper_iff]
  cases receiver with
  | none => simp [parts]
  | some node => simp [parts, and_assoc]

/-! ## Chains and conditions -/

/-- Attaches a receiver in the place of a receiver that may be missing. -/
def attachIn (receiver : Node) (wrap : Node → Node) : Option Node → Except Node Node
  | none => .ok (wrap receiver)
  | some inner => (attach receiver inner).map wrap

/-- A receiver that can be one is put in the place of another. -/
theorem exists_of_attachIn {receiver : Node} {wrap : Node → Node} {slot : Option Node}
    (hreceiver : receiver.isReceiver = true ∧ receiver.Proper valid)
    (hslot : ∀ inner ∈ slot, inner.isReceiver = true ∧ inner.Proper valid)
    (hlonger : ∀ inner ∈ slot, ∀ longer, inner.Proper valid → attach receiver inner = .ok longer →
      longer.Proper valid ∧ (inner.isReceiver = true → longer.isReceiver = true))
    (hattach : attachIn receiver wrap slot = .ok attached) :
    ∃ longer, attached = wrap longer ∧ longer.isReceiver = true ∧ longer.Proper valid := by
  cases slot with
  | none =>
      cases hattach
      exact ⟨receiver, rfl, hreceiver⟩
  | some inner =>
      rw [attachIn] at hattach
      cases hinner : attach receiver inner with
      | error node =>
          rw [hinner] at hattach
          cases hattach
      | ok longer =>
          rw [hinner] at hattach
          cases hattach
          have hproper := hlonger inner rfl longer (hslot inner rfl).2 hinner
          exact ⟨longer, rfl, hproper.2 (hslot inner rfl).1, hproper.1⟩

/-- A proper receiver can be attached to a proper chain.  What it has been attached to can be a
receiver if it could be one before. -/
theorem Proper.attach {receiver chain : Node}
    (hreceiver : receiver.isReceiver = true ∧ receiver.Proper valid) (hchain : chain.Proper valid)
    (hattach : attach receiver chain = .ok attached) :
    attached.Proper valid ∧ (chain.isReceiver = true → attached.isReceiver = true) := by
  induction chain generalizing attached with
  | identifier name slot ih =>
      rw [proper_identifier] at hchain
      have hin : attachIn receiver (fun inner => identifier name (some inner)) slot =
          .ok attached := by
        cases slot <;> exact hattach
      rcases exists_of_attachIn hreceiver hchain.2 (fun inner hmem _ => ih inner hmem) hin with
        ⟨longer, rfl, hlonger⟩
      exact ⟨proper_identifier.2 ⟨hchain.1, by simpa using hlonger⟩, fun _ => rfl⟩
  | call callee slot arguments _ ih _ =>
      rw [proper_call] at hchain
      have hin : attachIn receiver (fun inner => call callee (some inner) arguments) slot =
          .ok attached := by
        cases slot <;> exact hattach
      rcases exists_of_attachIn hreceiver hchain.2.1 (fun inner hmem _ => ih inner hmem) hin with
        ⟨longer, rfl, hlonger⟩
      exact ⟨proper_call.2 ⟨hchain.1, by simpa using hlonger, hchain.2.2⟩, fun _ => rfl⟩
  | assign target slot value ih _ =>
      rw [proper_assign] at hchain
      have hin : attachIn receiver (fun inner => assign target (some inner) value) slot =
          .ok attached := by
        cases slot <;> exact hattach
      rcases exists_of_attachIn hreceiver hchain.2.1 (fun inner hmem _ => ih inner hmem) hin with
        ⟨longer, rfl, hlonger⟩
      exact ⟨proper_assign.2 ⟨hchain.1, by simpa using hlonger, hchain.2.2⟩,
        fun hno => by cases hno⟩
  | _ => cases hattach

/-- Conditions are operations. -/
theorem isOperation_asCondition (node : Node) : node.asCondition.isOperation = true := by
  cases node <;> rfl

/-- Conditions made from proper trees are proper. -/
theorem Proper.asCondition (hnode : node.Proper valid) : node.asCondition.Proper valid := by
  cases node with
  | binary operator left right => exact hnode
  | _ => exact proper_binary.2 ⟨hnode, proper_boolean⟩

end Node
end Workshop

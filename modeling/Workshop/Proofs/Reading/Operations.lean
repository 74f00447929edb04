import Workshop.Proofs.Printing.Printer
import Workshop.Proofs.Reading.Completeness
import Workshop.Proofs.Reading.Operands

/-!
# Reading operations

Operands with operators between them are read as one expression, whatever the
operands are and however many of them there are.  This module puts the tree that
is read in relation to the chain of operators.

Main definitions:

- `Operand`: an operand with its words, which can be written and read.
- `chainWords`, `chainText`: the words of operands with operators between them,
  and a text that is made of them.

Main results:

- Theorem `derivable_chain`: operands with operators between them form the
  expression that is the tree of their chain, so that they can stand in
  parentheses and as arguments, and operands are nested to any depth.
- Theorem `holds_chainText`: the text is lexed into these words.
- Theorem `parse_operations`: a text that consists of operands and operators is
  one statement, the tree of which is the only one that respects precedence.
-/

namespace Workshop

open TokenStream

/-! ## Operators between operands -/

/-- An operand, with the words that it is written with.  Names are no keywords, and numbers are made
of digits. -/
structure Operand where
  words : List Word
  node : Node
  isOperand : IsOperand words node
  isValid : ∀ word ∈ words, word.isValid = true

/-- The words of operators, each with its right operand behind it. -/
def tailWords (links : List (BinaryOperator × Operand)) : List Word :=
  links.flatMap fun link => ⟨.operator, link.1.symbol⟩ :: link.2.words

/-- The words of operands with operators between them. -/
def chainWords (first : Operand) (links : List (BinaryOperator × Operand)) : List Word :=
  first.words ++ tailWords links

/-- Operators with the nodes of their right operands. -/
def nodeLinks (links : List (BinaryOperator × Operand)) : List Link :=
  links.map fun link => (link.1, link.2.node)

section Chains

variable {links : List (BinaryOperator × Operand)} {next : Option Word}

/-- Behind an operand comes an operator, or what follows the whole chain. -/
theorem endsOperand_tailWords (hnext : ∀ word ∈ next, word.EndsOperand)
    (links : List (BinaryOperator × Operand)) :
    ∀ word ∈ firstOf (tailWords links) next, word.EndsOperand := by
  cases links with
  | nil => exact hnext
  | cons link links =>
      rintro _ ⟨⟩
      exact link.1.endsOperand_symbol

/-- Operators follow one after the other, each with its right operand. -/
theorem derivesLinks_tailWords (hnext : ∀ word ∈ next, word.EndsOperand)
    (links : List (BinaryOperator × Operand)) :
    DerivesLinks (nodeLinks links) (tailWords links) next := by
  induction links with
  | nil => exact .nil
  | cons link links ih => exact .cons (link.2.isOperand (endsOperand_tailWords hnext links)) ih

/-- Operands with operators between them form the tree of their chain. -/
theorem derivable_chain (first : Operand) (links : List (BinaryOperator × Operand)) :
    Derivable (.expression (OperatorTree.ofChain first.node (nodeLinks links)).toNode)
      (chainWords first links) none := by
  have hend : ∀ word ∈ (none : Option Word), word.EndsOperand := by simp
  have hordered := OperatorTree.isOrdered_ofChain first.node (nodeLinks links)
  rcases hordered.derivable (OperatorTree.inOrder_ofChain _ _)
    (first.isOperand (endsOperand_tailWords hend links)) (derivesLinks_tailWords hend links) with
    ⟨sites, htree⟩
  exact ⟨sites, (Derives.operation htree (by simp)).withoutCall (by simp)⟩

end Chains

/-! ## Texts -/

/-- The text of operands with operators between them.  On both sides of an operator there is a
blank. -/
def chainText (first : Operand) (links : List (BinaryOperator × Operand)) : String :=
  layout (first.words.map Piece.tight ++ links.flatMap fun link =>
    Piece.apart ⟨.operator, link.1.symbol⟩ :: spaced (link.2.words.map Piece.tight))

theorem BinaryOperator.isValid_symbol (operator : BinaryOperator) :
    (Word.mk .operator operator.symbol).isValid = true := by
  cases operator <;> decide

/-- The words of the text are those of the operands and operators. -/
theorem holds_chainText (first : Operand) (links : List (BinaryOperator × Operand)) :
    Holds (TokenStream.ofSource .standard (chainText first links)) (chainWords first links) := by
  have htight (words : List Word) : (words.map Piece.tight).map Piece.word = words := by
    simp [Function.comp_def]
  have hvalid (operand : Operand) : AllValid (operand.words.map Piece.tight) :=
    List.forall_mem_map.2 operand.isValid
  have hall : AllValid (first.words.map Piece.tight ++ links.flatMap fun link =>
      Piece.apart ⟨.operator, link.1.symbol⟩ :: spaced (link.2.words.map Piece.tight)) := by
    refine (hvalid first).append fun piece hpiece => ?_
    rcases List.mem_flatMap.1 hpiece with ⟨link, _, hlink⟩
    exact AllValid.cons link.1.isValid_symbol (hvalid link.2).spaced piece hlink
  rcases lex_layout hall with ⟨hfault, hwords⟩
  refine ⟨hwords.trans ?_, hfault⟩
  rw [List.map_append, htight, List.map_flatMap, chainWords, tailWords]
  simp only [List.map_cons, map_word_spaced, htight, Piece.apart]

/-- Operands with operators between them, written with any space, are read as the tree of their
chain. -/
theorem parse_of_holds {first : Operand} {links : List (BinaryOperator × Operand)}
    {source : String}
    (hsource : Holds (TokenStream.ofSource .standard source) (chainWords first links)) :
    Script.parse source =
      .ok (.block [(OperatorTree.ofChain first.node (nodeLinks links)).toNode]) := by
  rcases derivable_chain first links with ⟨sites, hchain⟩
  have hscript := DerivesScript.last hchain
  rw [← hsource.1] at hscript
  exact hscript.parse_eq hsource.2

/-- A text that consists of operands with operators between them is one statement, however its words
are spaced.  Its tree is made of the operands and operators in their order and respects precedence;
of all such trees it is the only one, so that it is also found by cutting at the rightmost of the
weakest operators. -/
theorem parse_operations (first : Operand) (links : List (BinaryOperator × Operand)) :
    ∃ tree : OperatorTree,
      Script.parse (chainText first links) = .ok (.block [tree.toNode]) ∧
      (∀ source, Holds (TokenStream.ofSource .standard source) (chainWords first links) →
        Script.parse source = .ok (.block [tree.toNode])) ∧
      tree.inOrder = (first.node, nodeLinks links) ∧ tree.IsOrdered ∧
      (∀ other : OperatorTree, other.inOrder = (first.node, nodeLinks links) → other.IsOrdered →
        other = tree) ∧
      tree = OperatorTree.ofWeakest first.node (nodeLinks links) := by
  have hinOrder := OperatorTree.inOrder_ofChain first.node (nodeLinks links)
  have hordered := OperatorTree.isOrdered_ofChain first.node (nodeLinks links)
  refine ⟨.ofChain first.node (nodeLinks links), parse_of_holds (holds_chainText first links),
    fun source => parse_of_holds, hinOrder, hordered, ?_, ?_⟩
  · exact fun other hchain hother => hother.eq hordered (hchain.trans hinOrder.symm)
  · exact (OperatorTree.ofWeakest_eq_ofChain _ _).symm

/-- A name as an operand. -/
def nameOperand (text : String) (hname : isName text = true) : Operand :=
  ⟨_, _, .name (.name text), List.forall_mem_singleton.2 hname⟩

/-- A number as an operand. -/
def numberOperand (digits : String) (hdigits : isNumeral digits = true) : Operand :=
  ⟨_, _, .number digits, List.forall_mem_singleton.2 hdigits⟩

theorem isExpression_sum {name digits : String} (hname : isName name = true)
    (hdigits : isNumeral digits = true) :
    IsExpression [⟨.identifier, name⟩, ⟨.operator, "+"⟩, ⟨.number, digits⟩]
      (.binary .add (.identifier name none) (.number digits)) :=
  ⟨none, derivable_chain (nameOperand name hname) [(.add, numberOperand digits hdigits)]⟩

/-- A name can be called. -/
theorem callable_name (text : String) :
    Derivable (.primary (.identifier text none)) [.name text] (some (.operator "(")) :=
  ⟨_, .name (.name text) (by simp [Word.EndsName])⟩

/-- The argument in the calls of the sample. -/
theorem isExpression_argument (digits : String) :
    ∀ argument ∈ [digits], IsExpression [⟨.number, argument⟩] (.number argument) := by
  intro argument _
  exact ⟨none, ((IsOperand.number argument (by simp)).operation (by simp)).withoutCall (by simp)⟩

/-- A call of what a method of a team gives. -/
theorem isOperand_memberCall :
    IsOperand [.name "team", .operator ".", .name "pick", .operator "(", ⟨.number, "1"⟩,
        .operator ")", .operator "(", ⟨.number, "2"⟩, .operator ")"]
      (.call (.call (.identifier "pick" none) (some (.identifier "team" none)) [.number "1"]) none
        [.number "2"]) := by
  rcases Derivable.call (callable_name "pick") (isExpression_argument "1")
    (by simp : some (Word.operator "(") ≠ some (.operator ".")) with ⟨sites, hpick⟩
  exact IsOperand.call ⟨_, .member (.name "team") hpick (by simp) rfl⟩ (isExpression_argument "2")

/-- A call of a member that is spelled like a keyword. -/
theorem isOperand_enumCall :
    IsOperand [.name "Team", .operator ".", .keyword "rule", .operator "(", ⟨.number, "1"⟩,
        .operator ")"]
      (.call (.enumMember "Team" "rule") none [.number "1"]) :=
  IsOperand.call ⟨_, .enumMember (by decide)⟩ (isExpression_argument "1")

/-- Operators between a number, a sum in parentheses, a member of a call, a method, a call of what
a method gives, and a member that is spelled like a keyword, as it is and called. -/
def sampleLinks : List (BinaryOperator × Operand) :=
  [(.sub, numberOperand "2" (by decide)),
    (.mul, ⟨_, _, .parenthesised (@isExpression_sum "x" "1" (by decide) (by decide)),
      by decide⟩),
    (.sub, ⟨_, _, .attach (@IsReceiver.call _ _ _ [([_, _, _], _)] Prod.fst Prod.snd
      (callable_name "pick") (List.forall_mem_singleton.2
        (@isExpression_sum "y" "3" (by decide) (by decide)))) (.name (.name "best")) rfl,
      by decide⟩),
    (.rem, ⟨_, _, .attach (.name .player) (@IsOperand.call _ _ _ ([] : List (List Word × Node))
      Prod.fst Prod.snd (callable_name "rank") (by simp)) rfl, by decide⟩),
    (.add, ⟨_, _, isOperand_memberCall, by decide⟩),
    (.eq, ⟨_, _, .enumMember "Team" (by decide : "rule" ≠ "player"), by decide⟩),
    (.or, ⟨_, _, isOperand_enumCall, by decide⟩)]

/-- Equal operators are taken from left to right, products before sums, and comparisons last. -/
theorem parse_operations_sample :
    chainText (nameOperand "a" (by decide)) sampleLinks =
      "a - 2 * (x+1) - pick(y+3).best % player.rank() + team.pick(1)(2) == " ++
        "Team.rule || Team.rule(1)" ∧
    ∃ tree : OperatorTree,
      Script.parse ("a - 2 * (x+1) - pick(y+3).best % player.rank() + team.pick(1)(2) == " ++
        "Team.rule || Team.rule(1)") = .ok (.block [tree.toNode]) ∧
      tree.inOrder = (.identifier "a" none, nodeLinks sampleLinks) ∧ tree.IsOrdered ∧
      (∀ other : OperatorTree, other.inOrder = (.identifier "a" none, nodeLinks sampleLinks) →
        other.IsOrdered → other = tree) ∧
      tree = OperatorTree.ofWeakest (.identifier "a" none) (nodeLinks sampleLinks) := by
  have htext : chainText (nameOperand "a" (by decide)) sampleLinks =
      "a - 2 * (x+1) - pick(y+3).best % player.rank() + team.pick(1)(2) == " ++
        "Team.rule || Team.rule(1)" := by decide +kernel
  rcases parse_operations (nameOperand "a" (by decide)) sampleLinks with ⟨tree, hparse, _, htree⟩
  rw [htext] at hparse
  exact ⟨htext, tree, hparse, htree⟩

end Workshop

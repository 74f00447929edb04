import Workshop.Proofs.Printing.Words
import Workshop.Proofs.Tree

/-!
# The printed form of a script

Every script has one canonical text.  Operands that contain an operator, a
negation or a choice are put in parentheses, and receivers stand before a dot.

Main definitions:

- `Node.pieces`: the words of a node, with the blanks between them.
- `Node.isPrintable`: whether all names, numbers and strings in a tree can be
  written, and every part stands where the language allows it.
- `printProgram`: the text of a program.

Main result: Theorem `Node.isValid_pieces`: a printable tree is made of words
that can be read.
-/

namespace Workshop

/-! ## Words of scripts -/

namespace Word

/-- A name, or a keyword if the text is reserved. -/
def ofText (text : String) : Word :=
  if Vocabulary.standard.isKeyword text then keyword text else name text

end Word

namespace Piece

/-- A word directly behind the one before it. -/
@[simp]
def tight (word : Word) : Piece := ⟨false, word⟩

/-- A word with a blank before it. -/
@[simp]
def apart (word : Word) : Piece := ⟨true, word⟩

end Piece

open Piece Word

/-- The same words with a blank before the first of them. -/
def spaced : List Piece → List Piece
  | [] => []
  | piece :: rest => { piece with spaced := true } :: rest

/-- Spacing keeps the words. -/
@[simp]
theorem map_word_spaced (pieces : List Piece) :
    (spaced pieces).map Piece.word = pieces.map Piece.word := by
  cases pieces <;> rfl

/-- Several items with a separator between them. -/
def joined (separator : String) : List (List Piece) → List Piece
  | [] => []
  | [item] => item
  | item :: rest => item ++ tight (operator separator) :: spaced (joined separator rest)

/-- Statements between braces. -/
def braced (items : List (List Piece)) : List Piece :=
  tight (operator "\x7b") :: (spaced (joined ";" items) ++ [apart (operator "\x7d")])

/-- Items between parentheses. -/
def parenthesised (separator : String) (items : List (List Piece)) : List Piece :=
  tight (operator "(") :: (joined separator items ++ [tight (operator ")")])

/-- A receiver with the dot behind it. -/
@[simp]
def receiverPieces : Option (List Piece) → List Piece
  | none => []
  | some receiver => receiver ++ [tight (operator ".")]

/-- A first value with the equals sign before it. -/
@[simp]
def initialPieces : Option (List Piece) → List Piece
  | none => []
  | some value => apart (operator "=") :: spaced value

/-- The other branch of a choice. -/
@[simp]
def elsePieces : Option (List Piece) → List Piece
  | none => []
  | some branch => apart (keyword "else") :: spaced branch

/-- The conditions of a rule. -/
@[simp]
def conditionPieces : Option (List (List Piece)) → List Piece
  | none => []
  | some conditions => apart (keyword "if") :: spaced (parenthesised ";" conditions)

namespace Node

/-- Whether an operand has to be put in parentheses. -/
def isCompound : Node → Bool
  | negation _ | binary _ _ _ | choice _ _ _ => true
  | _ => false

/-- The words of an operand, given those of the expression. -/
def operandPieces (node : Node) (pieces : List Piece) : List Piece :=
  if node.isCompound then parenthesised "," [pieces] else pieces

mutual

/-- The words of a node. -/
@[simp]
def pieces : Node → List Piece
  | block statements => braced (listPieces statements)
  | constant name value =>
    tight (keyword "const") :: apart (.name name) :: initialPieces (some value.pieces)
  | declare typeName name perPlayer initial =>
    tight (ofText typeName) ::
      ((if perPlayer then
        [apart (keyword "player"), tight (operator "."), tight (.name name)]
      else [apart (.name name)]) ++ initialPieces (optionPieces initial))
  | useBank domain bank =>
    [tight (keyword "usevar"), apart (keyword domain.keyword), apart (.name bank.text)]
  | rule name event conditions actions =>
    [tight (keyword "rule"), apart ⟨.string, name⟩, tight (operator ":"), apart (.name "Event"),
      tight (operator "."), tight (ofText event)] ++
      (parenthesised "," [] ++
        (conditionPieces
          (match conditions with
            | none => none
            | some conditions => some (listPieces conditions)) ++
          spaced (braced (listPieces actions))))
  | assign target receiver value =>
    receiverPieces (optionPieces receiver) ++
      tight (.name target) :: initialPieces (some value.pieces)
  | call callee receiver arguments =>
    receiverPieces (optionPieces receiver) ++
      (callee.pieces ++ parenthesised "," (listPieces arguments))
  | enumMember enumName member =>
    [tight (.name enumName), tight (operator "."), tight (keyword member)]
  | negation operand => tight (operator "!") :: operandPieces operand operand.pieces
  | binary operator left right =>
    operandPieces left left.pieces ++
      apart (.operator operator.symbol) :: spaced (operandPieces right right.pieces)
  | choice condition thenBranch elseBranch =>
    tight (keyword "if") ::
      (spaced (operandPieces condition condition.pieces) ++
        (spaced thenBranch.pieces ++ elsePieces (optionPieces elseBranch)))
  | number digits => [tight ⟨.number, digits⟩]
  | text body => [tight ⟨.string, body⟩]
  | boolean value => [tight (keyword (if value then "true" else "false"))]
  | player => [tight (keyword "player")]
  | identifier name receiver =>
    receiverPieces (optionPieces receiver) ++ [tight (.name name)]
termination_by structural node => node

/-- The words of several nodes. -/
@[simp]
def listPieces : List Node → List (List Piece)
  | [] => []
  | node :: rest => node.pieces :: listPieces rest
termination_by structural nodes => nodes

/-- The words of a node that may be missing. -/
@[simp]
def optionPieces : Option Node → Option (List Piece)
  | none => none
  | some node => some node.pieces
termination_by structural node => node

end

/-! ## Trees that can be printed -/

/-- Whether a node is an expression, not a statement that has no value. -/
def isExpression : Node → Bool
  | constant _ _ | declare _ _ _ _ | useBank _ _ | rule _ _ _ _ | assign _ _ _ => false
  | _ => true

/-- Whether a node can be a receiver: a name, a call or the player. -/
def isChain : Node → Bool
  | identifier _ _ | call _ _ _ | player => true
  | _ => false

def isBlock : Node → Bool
  | block _ => true
  | _ => false

def isBinary : Node → Bool
  | binary _ _ _ => true
  | _ => false

/-- Whether a node is a plain name, which can be called. -/
def isCallee : Node → Bool
  | identifier name none => isName name
  | _ => false

mutual

/-- Whether a tree can be printed and read. -/
def isPrintable : Node → Bool
  | block statements => arePrintable statements
  | constant name value => isName name && value.isExpression && value.isPrintable
  | declare typeName name _ initial =>
    (isName typeName || typeName == "var" || typeName == "player") && isName name &&
      initial.all isExpression && isPrintableOption initial
  | useBank _ _ => true
  | rule name event conditions actions =>
    isLiteral name && (isName event || Vocabulary.standard.isKeyword event) &&
      (match conditions with
        | none => true
        | some conditions => conditions.all isBinary && arePrintable conditions) &&
      arePrintable actions
  | assign target receiver value =>
    isName target && receiver.all isChain && isPrintableOption receiver && value.isExpression &&
      value.isPrintable
  | call callee receiver arguments =>
    callee.isCallee && receiver.all isChain && isPrintableOption receiver &&
      arguments.all isExpression && arePrintable arguments
  | enumMember enumName member =>
    isName enumName && Vocabulary.standard.isKeyword member && member != "player"
  | negation operand => operand.isExpression && operand.isPrintable
  | binary _ left right =>
    left.isExpression && left.isPrintable && right.isExpression && right.isPrintable
  | choice condition thenBranch elseBranch =>
    condition.isExpression && condition.isPrintable && thenBranch.isBlock &&
      thenBranch.isPrintable && elseBranch.all isBlock && isPrintableOption elseBranch
  | number digits => isNumeral digits
  | text body => isLiteral body
  | boolean _ | player => true
  | identifier name receiver => isName name && receiver.all isChain && isPrintableOption receiver
termination_by structural node => node

/-- Whether several trees can be printed and read. -/
def arePrintable : List Node → Bool
  | [] => true
  | node :: rest => node.isPrintable && arePrintable rest
termination_by structural nodes => nodes

/-- Whether a tree that may be missing can be printed and read. -/
def isPrintableOption : Option Node → Bool
  | none => true
  | some node => node.isPrintable
termination_by structural node => node

end

/-- When a rule is printable. -/
theorem isPrintable_rule (name event : String) (conditions : Option (List Node))
    (actions : List Node) :
    (rule name event conditions actions).isPrintable =
      (isLiteral name && (isName event || Vocabulary.standard.isKeyword event) &&
        conditions.all (fun conditions => conditions.all isBinary && arePrintable conditions) &&
        arePrintable actions) := by
  cases conditions <;> rfl

/-- Nodes are printable one by one. -/
theorem arePrintable_iff {nodes : List Node} :
    arePrintable nodes = true ↔ ∀ node ∈ nodes, node.isPrintable = true := by
  induction nodes with
  | nil => simp [arePrintable]
  | cons node rest ih => simp [arePrintable, ih]

/-- A missing part is printable. -/
theorem isPrintableOption_iff {node : Option Node} :
    isPrintableOption node = true ↔ ∀ part ∈ node, part.isPrintable = true := by
  cases node <;> simp [isPrintableOption]

/-- What holds of printable nodes. -/
theorem forall_of_arePrintable {P : Node → Prop} {nodes : List Node}
    (ih : ∀ node ∈ nodes, node.isPrintable = true → P node)
    (hprintable : arePrintable nodes = true) : ∀ node ∈ nodes, P node :=
  fun node hmem => ih node hmem (arePrintable_iff.1 hprintable node hmem)

/-- The same for a part that may be missing. -/
theorem forall_of_isPrintableOption {P : Node → Prop} {node : Option Node}
    (ih : ∀ part ∈ node, part.isPrintable = true → P part)
    (hprintable : isPrintableOption node = true) : ∀ part ∈ node, P part :=
  fun part hmem => ih part hmem (isPrintableOption_iff.1 hprintable part hmem)

/-- Nodes are printed one by one. -/
theorem listPieces_eq_map (nodes : List Node) : listPieces nodes = nodes.map pieces := by
  induction nodes with
  | nil => rfl
  | cons node rest ih => simp [listPieces, ih]

/-- The pieces of a rule. -/
theorem pieces_rule (name event : String) (conditions : Option (List Node))
    (actions : List Node) :
    (rule name event conditions actions).pieces =
      [tight (keyword "rule"), apart ⟨.string, name⟩, tight (operator ":"), apart (.name "Event"),
        tight (operator "."), tight (ofText event)] ++
        (parenthesised "," [] ++
          (conditionPieces (conditions.map listPieces) ++
            spaced (braced (listPieces actions)))) := by
  cases conditions <;> rfl

end Node

/-- The text of a program. -/
def printProgram (statements : List Node) : String :=
  layout (joined ";" (Node.listPieces statements))

/-! ## All words can be read -/

/-- Whether all words can be written and read. -/
def AllValid (pieces : List Piece) : Prop :=
  ∀ piece ∈ pieces, piece.word.isValid = true

namespace AllValid

theorem nil : AllValid [] := by
  simp [AllValid]

theorem cons {piece : Piece} {pieces : List Piece} (hword : piece.word.isValid = true)
    (hpieces : AllValid pieces) : AllValid (piece :: pieces) :=
  List.forall_mem_cons.2 ⟨hword, hpieces⟩

/-- Valid pieces behind valid pieces. -/
theorem append {first second : List Piece} (hfirst : AllValid first) (hsecond : AllValid second) :
    AllValid (first ++ second) :=
  List.forall_mem_append.2 ⟨hfirst, hsecond⟩

/-- Spacing keeps pieces valid. -/
theorem spaced {pieces : List Piece} (hpieces : AllValid pieces) :
    AllValid (Workshop.spaced pieces) := by
  cases pieces with
  | nil => exact nil
  | cons piece rest =>
      obtain ⟨hword, hrest⟩ := List.forall_mem_cons.1 hpieces
      exact cons hword hrest

/-- So does joining. -/
theorem joined {separator : String} {items : List (List Piece)}
    (hseparator : (operator separator).isValid = true) (hitems : ∀ item ∈ items, AllValid item) :
    AllValid (Workshop.joined separator items) := by
  fun_induction Workshop.joined separator items with
  | case1 => exact nil
  | case2 item => exact hitems item (by simp)
  | case3 item rest _ ih =>
      rw [List.forall_mem_cons] at hitems
      exact hitems.1.append (cons hseparator (ih hitems.2).spaced)

/-- So do braces. -/
theorem braced {items : List (List Piece)} (hitems : ∀ item ∈ items, AllValid item) :
    AllValid (Workshop.braced items) := by
  have hstatements := (@joined ";" items rfl hitems).spaced
  exact cons rfl (hstatements.append (cons rfl nil))

/-- So do parentheses. -/
theorem parenthesised {separator : String} {items : List (List Piece)}
    (hseparator : (operator separator).isValid = true) (hitems : ∀ item ∈ items, AllValid item) :
    AllValid (Workshop.parenthesised separator items) :=
  cons rfl ((joined hseparator hitems).append (cons rfl nil))

/-- Names and keywords are valid. -/
theorem ofText {text : String}
    (hword : isName text = true ∨ Vocabulary.standard.isKeyword text = true) :
    (Word.ofText text).isValid = true := by
  unfold Word.ofText
  split
  · rename_i hkeyword
    exact hkeyword
  · rename_i hname
    exact hword.resolve_right hname

end AllValid

/-- Banks have names. -/
theorem isName_bank (bank : Bank) : isName bank.text = true := by
  obtain ⟨index⟩ := bank
  revert index
  decide

namespace Node

/-- The pieces of an operand are valid. -/
theorem allValid_operandPieces (node : Node) {pieces : List Piece} (hpieces : AllValid pieces) :
    AllValid (operandPieces node pieces) := by
  unfold operandPieces
  split
  · exact AllValid.parenthesised rfl (by simpa using hpieces)
  · exact hpieces

/-- So are those of a receiver. -/
theorem allValid_receiverPieces {receiver : Option Node}
    (hreceiver : ∀ node ∈ receiver, AllValid node.pieces) :
    AllValid (receiverPieces (optionPieces receiver)) := by
  cases receiver with
  | none => exact .nil
  | some receiver => exact (hreceiver receiver rfl).append (.cons rfl .nil)

/-- So are those of a first value. -/
theorem allValid_initialPieces {initial : Option Node}
    (hinitial : ∀ node ∈ initial, AllValid node.pieces) :
    AllValid (initialPieces (optionPieces initial)) := by
  cases initial with
  | none => exact .nil
  | some initial => exact .cons rfl (hinitial initial rfl).spaced

/-- So are those of a list. -/
theorem allValid_listPieces {nodes : List Node} (hnodes : ∀ node ∈ nodes, AllValid node.pieces) :
    ∀ item ∈ listPieces nodes, AllValid item := by
  rw [listPieces_eq_map]
  simpa using hnodes

/-- A printable tree is made of words that can be read. -/
theorem isValid_pieces {node : Node} (hprintable : node.isPrintable = true) :
    AllValid node.pieces := by
  induction node with
  | block statements ih =>
      exact .braced (allValid_listPieces (forall_of_arePrintable ih hprintable))
  | constant name value ih =>
      simp only [isPrintable, Bool.and_eq_true] at hprintable
      obtain ⟨⟨hname, _⟩, hvalue⟩ := hprintable
      exact .cons rfl (.cons hname (.cons rfl (ih hvalue).spaced))
  | declare typeName name perPlayer initial ih =>
      simp only [isPrintable, Bool.and_eq_true, Bool.or_eq_true, beq_iff_eq] at hprintable
      obtain ⟨⟨⟨htype, hname⟩, _⟩, hinitial⟩ := hprintable
      have hword : (ofText typeName).isValid = true := by
        apply AllValid.ofText
        rcases htype with (htype | rfl) | rfl
        · exact .inl htype
        · exact .inr rfl
        · exact .inr rfl
      refine .cons hword (.append ?_
        (allValid_initialPieces (forall_of_isPrintableOption ih hinitial)))
      cases perPlayer
      · exact .cons hname .nil
      · exact .cons rfl (.cons rfl (.cons hname .nil))
  | useBank domain bank =>
      refine .cons rfl (.cons ?_ (.cons ?_ .nil))
      · cases domain <;> rfl
      · exact isName_bank bank
  | rule name event conditions actions ihconditions ihactions =>
      simp only [isPrintable_rule, Bool.and_eq_true, Bool.or_eq_true] at hprintable
      obtain ⟨⟨⟨hname, hevent⟩, hconditions⟩, hactions⟩ := hprintable
      rw [pieces_rule]
      refine .append (.cons rfl (.cons hname (.cons rfl (.cons rfl (.cons rfl
        (.cons (AllValid.ofText hevent) .nil)))))) (.append (.parenthesised rfl (by simp))
          (.append ?_ ?_))
      · cases conditions with
        | none => exact .nil
        | some conditions =>
            simp only [Option.all_some, Bool.and_eq_true] at hconditions
            refine .cons rfl (AllValid.spaced (.parenthesised rfl (allValid_listPieces ?_)))
            exact forall_of_arePrintable (ihconditions conditions rfl) hconditions.2
      · refine AllValid.spaced (.braced (allValid_listPieces ?_))
        exact forall_of_arePrintable ihactions hactions
  | assign target receiver value ihreceiver ihvalue =>
      simp only [isPrintable, Bool.and_eq_true] at hprintable
      obtain ⟨⟨⟨⟨hname, _⟩, hreceiver⟩, _⟩, hvalue⟩ := hprintable
      have hpieces := allValid_receiverPieces (forall_of_isPrintableOption ihreceiver hreceiver)
      exact hpieces.append (.cons hname (.cons rfl (ihvalue hvalue).spaced))
  | call callee receiver arguments ihcallee ihreceiver iharguments =>
      simp only [isPrintable, Bool.and_eq_true] at hprintable
      obtain ⟨⟨⟨⟨hcallee, _⟩, hreceiver⟩, _⟩, harguments⟩ := hprintable
      have hname : callee.isPrintable = true := by
        unfold isCallee at hcallee
        split at hcallee
        · simpa [isPrintable, isPrintableOption] using hcallee
        · cases hcallee
      have hpieces := allValid_receiverPieces (forall_of_isPrintableOption ihreceiver hreceiver)
      refine hpieces.append ((ihcallee hname).append (.parenthesised rfl (allValid_listPieces ?_)))
      exact forall_of_arePrintable iharguments harguments
  | enumMember enumName member =>
      simp only [isPrintable, Bool.and_eq_true] at hprintable
      exact .cons hprintable.1.1 (.cons rfl (.cons hprintable.1.2 .nil))
  | negation operand ih =>
      simp only [isPrintable, Bool.and_eq_true] at hprintable
      exact .cons rfl (allValid_operandPieces operand (ih hprintable.2))
  | binary operator left right ihleft ihright =>
      simp only [isPrintable, Bool.and_eq_true] at hprintable
      obtain ⟨⟨⟨_, hleft⟩, _⟩, hright⟩ := hprintable
      refine .append (allValid_operandPieces left (ihleft hleft))
        (.cons ?_ (allValid_operandPieces right (ihright hright)).spaced)
      cases operator <;> rfl
  | choice condition thenBranch elseBranch ihcondition ihthen ihelse =>
      simp only [isPrintable, Bool.and_eq_true] at hprintable
      obtain ⟨⟨⟨⟨⟨_, hcondition⟩, _⟩, hthen⟩, _⟩, helse⟩ := hprintable
      refine .cons rfl (.append (allValid_operandPieces condition (ihcondition hcondition)).spaced
        (.append (ihthen hthen).spaced ?_))
      cases elseBranch with
      | none => exact .nil
      | some elseBranch => exact .cons rfl (ihelse elseBranch rfl helse).spaced
  | number digits => exact .cons hprintable .nil
  | text body => exact .cons hprintable .nil
  | boolean value => cases value <;> exact .cons rfl .nil
  | player => exact .cons rfl .nil
  | identifier name receiver ih =>
      simp only [isPrintable, Bool.and_eq_true] at hprintable
      obtain ⟨⟨hname, _⟩, hreceiver⟩ := hprintable
      have hpieces := allValid_receiverPieces (forall_of_isPrintableOption ih hreceiver)
      exact hpieces.append (.cons hname .nil)

end Node
end Workshop

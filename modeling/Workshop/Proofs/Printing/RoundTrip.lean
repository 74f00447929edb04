import Workshop.Proofs.Printing.Printer
import Workshop.Proofs.Reading.Completeness
import Workshop.Proofs.Reading.Operands

/-!
# Reading printed scripts

Reading undoes printing.  The text of a program is lexed into the words that it
was made of, and in the grammar these words stand for the same tree again.

Main results:

- Theorem `Node.readsBack`: the words of a printable node stand for the node, as
  a statement, as an operand and as a receiver.
- Theorem `parse_printProgram`: parsing the text of a printable program gives
  the program.
-/

namespace Workshop

open Word

/-! ## The words of nodes -/

/-- The words of joined pieces. -/
theorem map_word_joined (separator : String) (items : List (List Piece)) :
    (joined separator items).map Piece.word =
      joinedWords separator (items.map fun item => item.map Piece.word) := by
  fun_induction joined separator items with
  | case1 => rfl
  | case2 item => simp [joinedWords, separated]
  | case3 item rest hrest ih =>
      cases rest with
      | nil => exact absurd rfl hrest
      | cons next others =>
          simp only [List.map_append, List.map_cons, map_word_spaced, ih]
          simp [joinedWords, separated]

namespace Node

/-- The words of a node. -/
def words (node : Node) : List Word :=
  node.pieces.map Piece.word

/-- The words of a node where it is an operand. -/
def operandWords (node : Node) : List Word :=
  if node.isCompound then ⟨.operator, "("⟩ :: (node.words ++ [⟨.operator, ")"⟩]) else node.words

/-- The words of a receiver with the dot behind it. -/
@[simp]
def receiverWords : Option Node → List Word
  | none => []
  | some receiver => receiver.words ++ [⟨.operator, "."⟩]

/-- The words of an operand. -/
theorem map_word_operandPieces (node : Node) :
    (operandPieces node node.pieces).map Piece.word = node.operandWords := by
  unfold operandPieces operandWords
  split
  · simp [parenthesised, joined, words]
  · rfl

/-- The words of joined nodes. -/
theorem map_word_joined_listPieces (separator : String) (nodes : List Node) :
    (joined separator (listPieces nodes)).map Piece.word =
      joinedWords separator (nodes.map words) := by
  rw [map_word_joined, listPieces_eq_map, List.map_map]
  rfl

/-- The words of a block. -/
theorem words_block (statements : List Node) :
    (block statements).words = ⟨.operator, "\x7b"⟩ ::
      (joinedWords ";" (statements.map words) ++ [⟨.operator, "\x7d"⟩]) := by
  simp [words, braced, map_word_joined_listPieces]

/-- The words of a constant. -/
theorem words_constant (name : String) (value : Node) :
    (constant name value).words =
      ⟨.keyword, "const"⟩ :: ⟨.identifier, name⟩ :: ⟨.operator, "="⟩ :: value.words := by
  simp [words]

/-- The words of an assignment. -/
theorem words_assign (target : String) (receiver : Option Node) (value : Node) :
    (assign target receiver value).words =
      receiverWords receiver ++ ⟨.identifier, target⟩ :: ⟨.operator, "="⟩ :: value.words := by
  cases receiver <;> simp [words]

/-- The words of a call. -/
theorem words_call (callee : String) (receiver : Option Node) (arguments : List Node) :
    (call (identifier callee none) receiver arguments).words =
      receiverWords receiver ++ ⟨.identifier, callee⟩ :: ⟨.operator, "("⟩ ::
        (joinedWords "," (arguments.map words) ++ [⟨.operator, ")"⟩]) := by
  cases receiver <;> simp [words, parenthesised, map_word_joined_listPieces]

/-- The words of a name. -/
theorem words_identifier (name : String) (receiver : Option Node) :
    (identifier name receiver).words =
      receiverWords receiver ++ [⟨.identifier, name⟩] := by
  cases receiver <;> simp [words]

/-- The words of a negation. -/
theorem words_negation (operand : Node) :
    (negation operand).words = ⟨.operator, "!"⟩ :: operand.operandWords := by
  simp [words, map_word_operandPieces]

/-- The words of an operation. -/
theorem words_binary (operator : BinaryOperator) (left right : Node) :
    (binary operator left right).words =
      left.operandWords ++ ⟨.operator, operator.symbol⟩ :: right.operandWords := by
  simp [words, map_word_operandPieces]

/-- The words of a choice. -/
theorem words_choice (condition thenBranch : Node) (elseBranch : Option Node) :
    (choice condition thenBranch elseBranch).words = ⟨.keyword, "if"⟩ ::
      (condition.operandWords ++ (thenBranch.words ++
        elseBranch.elim [] fun elseBranch => ⟨.keyword, "else"⟩ :: elseBranch.words)) := by
  cases elseBranch <;> simp [words, map_word_operandPieces]

/-- The words of a declaration. -/
theorem words_declare (typeName name : String) (perPlayer : Bool) (initial : Option Node) :
    (declare typeName name perPlayer initial).words = declared (ofText typeName) perPlayer name ++
      initial.elim [] fun value => .operator "=" :: value.words := by
  cases initial <;> cases perPlayer <;> simp [words, declared]

/-- The words of the conditions of a rule. -/
def conditionWords : Option (List Node) → List Word
  | none => []
  | some nodes =>
    .keyword "if" :: .operator "(" :: (joinedWords ";" (nodes.map words) ++ [.operator ")"])

/-- The words of a rule. -/
theorem words_rule (name event : String) (conditions : Option (List Node))
    (actions : List Node) :
    (rule name event conditions actions).words =
      ruleHeader name (ofText event) ++ ([.operator ")"] ++
        (conditionWords conditions ++ .operator "\x7b" ::
          (joinedWords ";" (actions.map words) ++ [.operator "\x7d"]))) := by
  rw [words, pieces_rule]
  cases conditions <;> simp [conditionWords, ruleHeader, parenthesised, braced, joined,
    map_word_joined_listPieces]

end Node

/-! ## Reading nodes back -/

/-- The words of a node stand for the node, wherever they may occur. -/
structure ReadsBack (node : Node) : Prop where
  /-- As a statement or an expression. -/
  operation : Derivable (.operation node) node.words none
  /-- As an operand. -/
  operand : node.isExpression = true → IsOperand node.operandWords node
  /-- As the receiver of members. -/
  receiver : node.isChain = true → IsReceiver node.words node
  /-- As a branch of a choice. -/
  branch : node.isBlock = true → ∀ next : Option Word, (∀ word ∈ next, word.IsNoOperator) →
    next ≠ some (.operator "(") → Derivable (.expression node) node.words next

namespace ReadsBack

variable {node value : Node} {receiver : Option Node} {nodes : List Node}

/-- Every node is an expression up to its end. -/
theorem isExpression (hnode : ReadsBack node) : IsExpression node.words node :=
  ⟨none, hnode.operation.withoutCall (by simp)⟩

/-- A statement is an atom up to its end. -/
theorem ofStatement (hprimary : Derivable (.primary node) node.words none)
    (hexpression : node.isExpression = false) (hchain : node.isChain = false)
    (hblock : node.isBlock = false) : ReadsBack node where
  operation := (hprimary.withoutArguments (by simp)).operation (by simp)
  operand hyes := by simp [hexpression] at hyes
  receiver hyes := by simp [hchain] at hyes
  branch hyes := by simp [hblock] at hyes

/-- An expression that needs parentheses as an operand. -/
theorem ofCompound (hoperation : Derivable (.operation node) node.words none)
    (hcompound : node.isCompound = true) (hchain : node.isChain = false)
    (hblock : node.isBlock = false) : ReadsBack node where
  operation := hoperation
  operand _ := by
    rw [Node.operandWords, if_pos hcompound]
    exact .parenthesised ⟨none, hoperation.withoutCall (by simp)⟩
  receiver hyes := by simp [hchain] at hyes
  branch hyes := by simp [hblock] at hyes

/-- An operand that needs no parentheses, and is no block. -/
theorem ofOperand (hoperand : IsOperand node.words node) (hcompound : node.isCompound = false)
    (hreceiver : node.isChain = true → IsReceiver node.words node)
    (hblock : node.isBlock = false) : ReadsBack node where
  operation := (hoperand (by simp)).operation (by simp)
  operand _ := by
    rw [Node.operandWords, if_neg (by simp [hcompound])]
    exact hoperand
  receiver := hreceiver
  branch hyes := by simp [hblock] at hyes

/-- Nodes with semicolons between them form a list. -/
theorem items {closing : String} (hclosing : (Word.operator closing).EndsPhrase)
    (hnodes : ∀ node ∈ nodes, ReadsBack node) (next : Option Word) :
    Derivable (.items closing ";" true nodes)
      (joinedWords ";" (nodes.map Node.words) ++ [.operator closing]) next := by
  have hall : ∀ node ∈ nodes, IsExpression node.words (id node) :=
    fun node hmem => (hnodes node hmem).isExpression
  have hlist := Derivable.elements hclosing endsPhrase_semicolon hall next
  rwa [List.map_id] at hlist

/-! ### Names and calls -/

/-- Names are read back. -/
theorem name {word : Word} (hname : NameWord word node) (hwords : node.words = [word])
    (hcompound : node.isCompound = false) (hblock : node.isBlock = false) : ReadsBack node := by
  refine ofOperand ?_ hcompound (fun _ => ?_) hblock
  · rw [hwords]
    exact .name hname
  · rw [hwords]
    exact .name hname

/-- A member of a receiver.  The receiver is read first, and the member is attached to it. -/
theorem identifier (name : String) (hreceiver : ∀ node ∈ receiver, ReadsBack node)
    (hchain : ∀ node ∈ receiver, node.isChain = true) : ReadsBack (.identifier name receiver) := by
  cases receiver with
  | none => exact .name (.name name) (Node.words_identifier name none) rfl rfl
  | some receiver =>
      have hwords : (Node.identifier name (some receiver)).words =
          receiver.words ++ .operator "." :: [.name name] := by
        simp [Node.words_identifier]
      have hbefore := (hreceiver receiver rfl).receiver (hchain receiver rfl)
      refine ofOperand ?_ rfl (fun _ => ?_) rfl
      · rw [hwords]
        exact .attach hbefore (.name (.name name)) rfl
      · rw [hwords]
        exact .attach hbefore (.name (.name name)) rfl

/-- A call, with or without a receiver. -/
theorem call (callee : String) {arguments : List Node}
    (hreceiver : ∀ node ∈ receiver, ReadsBack node)
    (hchain : ∀ node ∈ receiver, node.isChain = true)
    (harguments : ∀ node ∈ arguments, ReadsBack node) :
    ReadsBack (.call (.identifier callee none) receiver arguments) := by
  have hcallee : Derivable (.primary (.identifier callee none)) [.name callee]
      (some (.operator "(")) := ⟨_, .name (.name callee) (by simp [EndsName])⟩
  have hlist : ∀ node ∈ arguments, IsExpression node.words (id node) :=
    fun node hmem => (harguments node hmem).isExpression
  have hoperand := IsOperand.call hcallee hlist
  have hmembers := IsReceiver.call hcallee hlist
  rw [List.map_id] at hoperand hmembers
  cases receiver with
  | none =>
      have hwords : (Node.call (.identifier callee none) none arguments).words =
          [.name callee] ++ argumentWords (arguments.map Node.words) := by
        simp [Node.words_call, argumentWords]
      refine ofOperand ?_ rfl (fun _ => ?_) rfl
      · rw [hwords]
        exact hoperand
      · rw [hwords]
        exact hmembers
  | some receiver =>
      have hwords : (Node.call (.identifier callee none) (some receiver) arguments).words =
          receiver.words ++ .operator "." :: .name callee ::
            argumentWords (arguments.map Node.words) := by
        simp [Node.words_call, argumentWords]
      have hbefore := (hreceiver receiver rfl).receiver (hchain receiver rfl)
      refine ofOperand ?_ rfl (fun _ => ?_) rfl
      · rw [hwords]
        exact .attach hbefore hoperand rfl
      · rw [hwords]
        exact .attach hbefore hmembers rfl

/-! ### Other nodes -/

/-- Blocks are read back. -/
theorem block {statements : List Node} (hstatements : ∀ node ∈ statements, ReadsBack node) :
    ReadsBack (.block statements) := by
  have hprimary (next : Option Word) :
      Derivable (.primary (.block statements)) (Node.block statements).words next := by
    rcases items endsPhrase_brace hstatements next with ⟨sites, hlist⟩
    exact (Derives.block hlist).of_words (Node.words_block statements).symm
  refine ⟨((hprimary none).withoutArguments (by simp)).operation (by simp), fun _ => ?_, ?_, ?_⟩
  · exact .of_primary fun next _ => hprimary next
  · intro hyes
    cases hyes
  · exact fun _ next hoperator hopening =>
      (((hprimary next).withoutArguments hopening).operation hoperator).withoutCall hopening

/-- Negations are read back. -/
theorem negation {operand : Node} (hoperand : ReadsBack operand)
    (hexpression : operand.isExpression = true) : ReadsBack (.negation operand) := by
  have hinner : Derivable (.expression operand) operand.operandWords none :=
    ((hoperand.operand hexpression (by simp)).operation (by simp)).withoutCall (by simp)
  rcases hinner with ⟨sites, hinner⟩
  have hprimary : Derivable (.primary (.negation operand)) (Node.negation operand).words none :=
    (Derives.negation hinner).of_words (Node.words_negation operand).symm
  exact ofCompound ((hprimary.withoutArguments (by simp)).operation (by simp)) rfl rfl rfl

/-- Operations are read back. -/
theorem binary (operator : BinaryOperator) {left right : Node} (hleft : ReadsBack left)
    (hleftExpression : left.isExpression = true) (hright : ReadsBack right)
    (hrightExpression : right.isExpression = true) : ReadsBack (.binary operator left right) := by
  have hends : ∀ word ∈ some (Word.operator operator.symbol), word.EndsOperand := by
    rintro _ ⟨⟩
    exact operator.endsOperand_symbol
  have hend : ∀ word ∈ (none : Option Word), word.EndsOperand := by simp
  rcases hleft.operand hleftExpression hends with ⟨sites, hfirst⟩
  rcases hright.operand hrightExpression hend with ⟨others, hsecond⟩
  have htree := Derives.binary (.single hfirst) (.single hsecond) (by simp) (by simp)
  exact ofCompound ((Derives.operation htree (by simp)).of_words
    (Node.words_binary operator left right).symm) rfl rfl rfl

/-- Choices are read back. -/
theorem choice {condition thenBranch : Node} {elseBranch : Option Node}
    (hcondition : ReadsBack condition) (hexpression : condition.isExpression = true)
    (hthen : ReadsBack thenBranch) (hthenBlock : thenBranch.isBlock = true)
    (helse : ∀ node ∈ elseBranch, ReadsBack node)
    (helseBlock : ∀ node ∈ elseBranch, node.isBlock = true) :
    ReadsBack (.choice condition thenBranch elseBranch) := by
  -- The condition ends at the brace of the first branch.
  have hbrace : EndsPhrase (.operator "\x7b") := endsPhrase_operator (by simp)
  have hfirst (next : Option Word) : firstOf thenBranch.words next = some (.operator "\x7b") := by
    cases thenBranch with
    | block statements => simp [Node.words_block]
    | _ => cases hthenBlock
  have hinner (next : Option Word) : Derivable (.expression condition) condition.operandWords
      (firstOf thenBranch.words next) := by
    rw [hfirst]
    exact IsExpression.before ⟨none, ((hcondition.operand hexpression (by simp)).operation
      (by simp)).withoutCall (by simp)⟩ hbrace
  have hprimary : Derivable (.primary (.choice condition thenBranch elseBranch))
      (Node.choice condition thenBranch elseBranch).words none := by
    rw [Node.words_choice]
    cases elseBranch with
    | none =>
        rcases hinner none with ⟨sites, hinner⟩
        rcases hthen.branch hthenBlock none (by simp) (by simp) with ⟨others, hthen⟩
        exact (Derives.choice hinner hthen (by simp)).of_words (by simp)
    | some elseBranch =>
        rcases hinner (some (.keyword "else")) with ⟨sites, hinner⟩
        rcases hthen.branch hthenBlock (some (.keyword "else")) (by simp [IsNoOperator])
          (by simp) with ⟨others, hthen⟩
        rcases (helse elseBranch rfl).branch (helseBlock elseBranch rfl) none (by simp)
          (by simp) with ⟨last, helse⟩
        exact (Derives.choiceElse hinner hthen helse).of_words (by simp)
  exact ofCompound ((hprimary.withoutArguments (by simp)).operation (by simp)) rfl rfl rfl

theorem text_ofText (text : String) : (ofText text).text = text := by
  unfold ofText
  split <;> rfl

/-- Declarations are read back. -/
theorem declare {typeName name : String} {perPlayer : Bool} {initial : Option Node}
    (htype : isName typeName = true ∨ typeName = "var" ∨ typeName = "player")
    (hinitial : ∀ node ∈ initial, ReadsBack node) :
    ReadsBack (.declare typeName name perPlayer initial) := by
  have hstarts : StartsWorded (ofText typeName) := by
    rcases htype with hname | rfl | rfl
    · rw [isName, Bool.and_eq_true, Bool.not_eq_true'] at hname
      rw [ofText, if_neg (by simp [hname.2])]
      exact .inl rfl
    · exact .inr (.inr rfl)
    · exact .inr (.inl rfl)
  refine ofStatement ?_ rfl rfl rfl
  rw [Node.words_declare]
  cases initial with
  | none =>
      have hdeclare : Derivable (.primary (.declare (ofText typeName).text name perPlayer none))
          (declared (ofText typeName) perPlayer name) none := ⟨_, .declare hstarts (by simp)⟩
      rw [text_ofText] at hdeclare
      simpa using hdeclare
  | some value =>
      rcases (hinitial value rfl).operation with ⟨sites, hvalue⟩
      have hdeclare : Derivable
          (.primary (.declare (ofText typeName).text name perPlayer (some value)))
          (declared (ofText typeName) perPlayer name ++ .operator "=" :: value.words) none :=
        ⟨_, .declareInitial hstarts hvalue⟩
      rw [text_ofText] at hdeclare
      exact hdeclare

/-- Conditions of a rule are comparisons already. -/
theorem conditions {conditions : Option (List Node)}
    (hconditions : ∀ list ∈ conditions, ∀ node ∈ list, ReadsBack node ∧ node.isBinary = true)
    (next : Option Word) (hnext : next ≠ some (.keyword "if")) :
    Derivable (.conditions conditions) (Node.conditionWords conditions) next := by
  cases conditions with
  | none => exact ⟨_, .noConditions hnext⟩
  | some list =>
      have hall := hconditions list rfl
      rcases items endsPhrase_closing (fun node hmem => (hall node hmem).1) next with
        ⟨sites, hlist⟩
      have hsame : ∀ node ∈ list, node.asCondition = id node := by
        intro node hmem
        have hbinary := (hall node hmem).2
        cases node with
        | binary => rfl
        | _ => cases hbinary
      have hderives := Derives.conditions hlist
      rw [List.map_congr_left hsame, List.map_id] at hderives
      exact ⟨_, hderives⟩

/-- Rules are read back. -/
theorem rule {name event : String} {conditions : Option (List Node)} {actions : List Node}
    (hconditions : ∀ list ∈ conditions, ∀ node ∈ list, ReadsBack node ∧ node.isBinary = true)
    (hactions : ∀ node ∈ actions, ReadsBack node) :
    ReadsBack (.rule name event conditions actions) := by
  have hevent : (ofText event).kind = .identifier ∨ (ofText event).kind = .keyword := by
    unfold ofText
    split
    · exact .inr rfl
    · exact .inl rfl
  rcases ReadsBack.conditions hconditions (some (.operator "\x7b")) (by simp) with ⟨sites, hlist⟩
  rcases items endsPhrase_brace hactions none with ⟨others, hbody⟩
  have hrule : Derivable (.primary (.rule name (ofText event).text conditions actions))
      (Node.rule name event conditions actions).words none :=
    (Derives.rule hevent (.closed true) hlist hbody).of_words
      (Node.words_rule name event conditions actions).symm
  rw [text_ofText] at hrule
  exact ofStatement hrule rfl rfl rfl

/-- Constants are read back. -/
theorem constant (name : String) (hvalue : ReadsBack value) : ReadsBack (.constant name value) := by
  rcases hvalue.operation with ⟨sites, hinner⟩
  exact ofStatement ((Derives.constant hinner).of_words (Node.words_constant name value).symm) rfl
    rfl rfl

/-- Assignments are read back. -/
theorem assign (target : String) (hreceiver : ∀ node ∈ receiver, ReadsBack node)
    (hchain : ∀ node ∈ receiver, node.isChain = true) (hvalue : ReadsBack value) :
    ReadsBack (.assign target receiver value) := by
  rcases hvalue.operation with ⟨sites, hinner⟩
  have hbare : Derivable (.atom (.assign target none value))
      (.name target :: .operator "=" :: value.words) none :=
    ⟨_, (Derives.assign hinner).withoutArguments (by simp)⟩
  have hatom : Derivable (.atom (.assign target receiver value))
      (Node.assign target receiver value).words none := by
    rw [Node.words_assign]
    cases receiver with
    | none => exact hbare
    | some receiver =>
        have hall := (hreceiver receiver rfl).receiver (hchain receiver rfl) hbare rfl (by simp)
        simpa using hall
  refine ⟨hatom.operation (by simp), ?_, ?_, ?_⟩
  all_goals
    intro hyes
    cases hyes

end ReadsBack

/-- The words of every printable node stand for the node. -/
theorem Node.readsBack {node : Node} (hprintable : node.isPrintable = true) : ReadsBack node := by
  induction node with
  | block statements ih =>
      exact .block (forall_of_arePrintable ih hprintable)
  | constant name value ih =>
      simp only [isPrintable, Bool.and_eq_true] at hprintable
      exact .constant name (ih hprintable.2)
  | declare typeName name perPlayer initial ih =>
      simp only [isPrintable, Bool.and_eq_true, Bool.or_eq_true, beq_iff_eq] at hprintable
      obtain ⟨⟨⟨htype, _⟩, _⟩, hinitial⟩ := hprintable
      exact .declare (or_assoc.1 htype) (forall_of_isPrintableOption ih hinitial)
  | useBank domain bank =>
      exact .ofStatement ⟨_, .useBank⟩ rfl rfl rfl
  | rule name event conditions actions ihconditions ihactions =>
      simp only [isPrintable_rule, Bool.and_eq_true] at hprintable
      obtain ⟨⟨_, hconditions⟩, hactions⟩ := hprintable
      refine .rule (fun list hlist node hmem => ?_) (forall_of_arePrintable ihactions hactions)
      subst hlist
      simp only [Option.all_some, Bool.and_eq_true, List.all_eq_true] at hconditions
      have hall := forall_of_arePrintable (ihconditions list rfl) hconditions.2
      exact ⟨hall node hmem, hconditions.1 node hmem⟩
  | assign target receiver value ihreceiver ihvalue =>
      simp only [isPrintable, Bool.and_eq_true] at hprintable
      obtain ⟨⟨⟨⟨_, hchain⟩, hreceiver⟩, _⟩, hvalue⟩ := hprintable
      exact .assign target (forall_of_isPrintableOption ihreceiver hreceiver)
        (Option.all_eq_true _ _ |>.1 hchain) (ihvalue hvalue)
  | call callee receiver arguments _ ihreceiver iharguments =>
      simp only [isPrintable, Bool.and_eq_true] at hprintable
      obtain ⟨⟨⟨⟨hcallee, hchain⟩, hreceiver⟩, _⟩, harguments⟩ := hprintable
      unfold isCallee at hcallee
      split at hcallee
      · exact .call _ (forall_of_isPrintableOption ihreceiver hreceiver)
          (Option.all_eq_true _ _ |>.1 hchain) (forall_of_arePrintable iharguments harguments)
      · cases hcallee
  | enumMember enumName member =>
      simp only [isPrintable, Bool.and_eq_true, bne_iff_ne] at hprintable
      exact .ofOperand (.enumMember enumName hprintable.2) rfl (by simp [isChain]) rfl
  | negation operand ih =>
      simp only [isPrintable, Bool.and_eq_true] at hprintable
      exact .negation (ih hprintable.2) hprintable.1
  | binary operator left right ihleft ihright =>
      simp only [isPrintable, Bool.and_eq_true] at hprintable
      obtain ⟨⟨⟨hleftExpression, hleft⟩, hrightExpression⟩, hright⟩ := hprintable
      exact .binary operator (ihleft hleft) hleftExpression (ihright hright) hrightExpression
  | choice condition thenBranch elseBranch ihcondition ihthen ihelse =>
      simp only [isPrintable, Bool.and_eq_true] at hprintable
      obtain ⟨⟨⟨⟨⟨hexpression, hcondition⟩, hthenBlock⟩, hthen⟩, helseBlock⟩, helse⟩ := hprintable
      exact .choice (ihcondition hcondition) hexpression (ihthen hthen) hthenBlock
        (forall_of_isPrintableOption ihelse helse) (Option.all_eq_true _ _ |>.1 helseBlock)
  | number digits => exact .ofOperand (.number digits) rfl (by simp [isChain]) rfl
  | text body =>
      exact .ofOperand (.of_primary fun _ _ => ⟨_, .text⟩) rfl (by simp [isChain]) rfl
  | boolean value =>
      exact .ofOperand (.of_primary fun _ _ => ⟨_, .boolean⟩) rfl (by simp [isChain]) rfl
  | player => exact .name .player rfl rfl rfl
  | identifier name receiver ih =>
      simp only [isPrintable, Bool.and_eq_true] at hprintable
      obtain ⟨⟨_, hchain⟩, hreceiver⟩ := hprintable
      exact .identifier name (forall_of_isPrintableOption ih hreceiver)
        (Option.all_eq_true _ _ |>.1 hchain)

/-! ## Programs -/

/-- Statements with semicolons between them form a script. -/
theorem DerivesScript.ofStatements {nodes : List Node} (hnodes : ∀ node ∈ nodes, ReadsBack node) :
    ∃ sites, DerivesScript nodes (joinedWords ";" (nodes.map Node.words)) sites := by
  induction nodes with
  | nil => exact ⟨_, .nil⟩
  | cons node rest ih =>
      rw [List.forall_mem_cons] at hnodes
      cases rest with
      | nil =>
          rcases hnodes.1.operation.withoutCall (by simp) with ⟨sites, hlast⟩
          simpa [joinedWords, separated] using ⟨_, DerivesScript.last hlast⟩
      | cons second others =>
          rcases hnodes.1.isExpression.before endsPhrase_semicolon with ⟨sites, hfirst⟩
          rcases ih hnodes.2 with ⟨sites', hrest⟩
          exact ⟨_, .cons hfirst hrest⟩

/-- Parsing the text of a printable program gives the program. -/
theorem parse_printProgram {statements : List Node}
    (hprintable : Node.arePrintable statements = true) :
    Script.parse (printProgram statements) = .ok (.block statements) := by
  have hall := Node.arePrintable_iff.1 hprintable
  have hvalid : AllValid (joined ";" (Node.listPieces statements)) :=
    .joined rfl (Node.allValid_listPieces fun node hmem => Node.isValid_pieces (hall node hmem))
  obtain ⟨hfault, hwords⟩ := lex_layout hvalid
  rw [Node.map_word_joined_listPieces] at hwords
  have hscript : Script.words (printProgram statements) =
      joinedWords ";" (statements.map Node.words) := hwords
  obtain ⟨sites, hderives⟩ :=
    DerivesScript.ofStatements fun node hmem => Node.readsBack (hall node hmem)
  rw [← hscript] at hderives
  exact hderives.parse_eq hfault

/-- Statements of many kinds, with nested operands, receivers and both quotes. -/
def sampleStatements : List Node :=
  [.useBank .global ⟨⟨3, by decide⟩⟩,
    .constant "limit" (.binary .add (.number "1.5") (.negation (.boolean true))),
    .declare "var" "label" true (some (.text "say \"no\"")),
    .rule "main" "if" (some [.binary .eq (.identifier "label" (some .player))
        (.choice (.boolean false) (.block []) none)])
      [.assign "best" (some (.call (.identifier "pick" none) (some (.identifier "team" none))
          [.number "1", .player])) (.enumMember "Button" "in"),
        .choice (.negation (.identifier "on" none)) (.block [.number "1", .number "2"])
          (some (.block [.call (.identifier "stop" none) none []]))]]

/-- The text of the sample, from which it is read back. -/
theorem parse_printProgram_sample :
    Node.arePrintable sampleStatements = true ∧
    printProgram sampleStatements = "usevar global D; const limit = 1.5 + (!true); " ++
      "var player.label = 'say \"no\"'; " ++
      "rule \"main\": Event.if() if (player.label == (if false \x7b \x7d)) " ++
      "\x7b team.pick(1, player).best = Button.in; " ++
      "if (!on) \x7b 1; 2 \x7d else \x7b stop() \x7d \x7d" ∧
    Script.parse (printProgram sampleStatements) = .ok (.block sampleStatements) := by
  have hprintable : Node.arePrintable sampleStatements = true := by decide +kernel
  exact ⟨hprintable, by decide +kernel, parse_printProgram hprintable⟩

end Workshop

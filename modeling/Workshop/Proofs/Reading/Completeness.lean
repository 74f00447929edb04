import Workshop.Proofs.Reading.Derivations
import Workshop.Proofs.Reading.Termination

/-!
# Derivations are read

The words of a derivation are read as the node that they stand for, whatever
comes behind them, as long as it starts with the word that the derivation expects
next.

Main definitions:

- `ReadsUpTo`: a reader that takes the given words, when the given word comes
  next.
- `Category.IsRead`: the words of a phrase are read as what they stand for.

Main results:

- Theorem `ReadsLinks.operatorTail`: operators and operands are read one after
  the other.
- Theorem `Derives.isRead`: every phrase is read.
- Theorem `DerivesScript.isRead`: every script is read.
- Theorem `DerivesScript.parse_eq`: a source text is parsed as what its words
  stand for.
-/

namespace Workshop

open TokenStream Grammar

/-- The reader takes the words, with the given result, whenever `next` comes next. -/
def ReadsUpTo {α : Type} (parse : Parse α) (words : List Word) (next : Option Word) (a : α) :
    Prop :=
  ∀ ⦃rest : List Word⦄, rest.head? = next → Reads parse (words ++ rest) (· = a) rest

variable {α : Type} {parse : Parse α} {a : α} {words words' rest : List Word} {next : Option Word}
  {word : Word} {nested : Level} {node : Node} {sites : List Site}

/-- A word that does not come next. -/
theorem noWord_of_head? {text : String} (hhead : rest.head? = next)
    (hnext : next ≠ some (.operator text)) : NoWord text rest := by
  rintro word hword rfl
  rw [hhead] at hword
  exact hnext hword

/-- No operator comes next. -/
theorem noOperator_of_head? (hhead : rest.head? = next)
    (hnext : ∀ word ∈ next, word.IsNoOperator) : NoOperator rest := by
  intro word hword
  rw [hhead] at hword
  exact hnext word hword

/-- A keyword that does not come next is not found. -/
theorem nextIs_keyword_false {text : String} (hhead : rest.head? = next)
    (hnext : next ≠ some (.keyword text)) :
    (rest.head?.any fun word => word.kind == .keyword && [text].contains word.text) = false := by
  rw [hhead, Bool.eq_false_iff, ne_eq, any_word_iff]
  exact hnext

namespace ReadsUpTo

/-- The words in front of other words. -/
theorem before (hparse : ReadsUpTo parse words (firstOf words' next) a)
    (hhead : rest.head? = next) :
    Reads parse (words ++ (words' ++ rest)) (· = a) (words' ++ rest) := by
  apply hparse
  rw [head?_append_eq_firstOf, hhead]

/-! ## Choices -/

/-- A choice with one branch is read. -/
theorem choice {condition branch : Node}
    (hcondition : ReadsUpTo nested.expression words (firstOf words' next) condition)
    (hbranch : ReadsUpTo nested.expression words' next branch)
    (hnext : next ≠ some (.keyword "else")) :
    ReadsUpTo (Grammar.primary nested) (.keyword "if" :: (words ++ words')) next
      (.choice condition branch none) := by
  intro rest hhead
  rw [List.cons_append, List.append_assoc]
  exact Reads.primary_choice (hcondition.before hhead) (hbranch hhead)
    (nextIs_keyword_false hhead hnext)

/-- A choice with two branches is read. -/
theorem choiceElse {condition branch other : Node} {words'' : List Word}
    (hcondition : ReadsUpTo nested.expression words (firstOf words' (some (.keyword "else")))
      condition)
    (hbranch : ReadsUpTo nested.expression words' (some (.keyword "else")) branch)
    (hother : ReadsUpTo nested.expression words'' next other) :
    ReadsUpTo (Grammar.primary nested)
      (.keyword "if" :: (words ++ (words' ++ .keyword "else" :: words''))) next
      (.choice condition branch (some other)) := by
  intro rest hhead
  have helse : (Word.keyword "else" :: (words'' ++ rest)).head? = some (.keyword "else") := rfl
  rw [List.cons_append, List.append_assoc, List.append_assoc, List.cons_append]
  exact Reads.primary_choiceElse (hcondition.before helse) (hbranch helse) (hother hhead)

/-! ## Names -/

/-- No name comes next. -/
theorem nextHasKind_identifier_false (hhead : rest.head? = next)
    (hnext : ∀ other ∈ next, other.EndsName) :
    (rest.head?.any fun word => word.kind == .identifier) = false := by
  rw [hhead, Bool.eq_false_iff]
  intro hany
  rcases (Option.any_eq_true _ _).1 hany with ⟨other, rfl, hother⟩
  exact (hnext other rfl).1 (by simpa using hother)

/-- A name is read. -/
theorem name (hname : NameWord word node) (hnext : ∀ other ∈ next, other.EndsName) :
    ReadsUpTo (Grammar.primary nested) [word] next node := by
  intro rest hhead
  have hplayer : next ≠ some (.keyword "player") := fun h => (hnext _ h).2.1 rfl
  have hequals : NoWord "=" rest := noWord_of_head? hhead fun h => (hnext _ h).2.2.1 rfl
  have hdot : NoWord "." rest := noWord_of_head? hhead fun h => (hnext _ h).2.2.2 rfl
  exact Reads.primary_name hname (nextHasKind_identifier_false hhead hnext)
    (nextIs_keyword_false hhead hplayer) hequals hdot

/-- A name with members is read. -/
theorem member {chain result : Node} (hname : NameWord word node) (hwords : words ≠ [])
    (hchain : ReadsUpTo nested.atom words next chain)
    (hkeyword : ∀ other ∈ words.head?, node ≠ .player → other.kind = .keyword →
      other.text = "player")
    (hattach : Node.attach node chain = .ok result) :
    ReadsUpTo (Grammar.primary nested) (word :: .operator "." :: words) next result := by
  intro rest hhead
  rw [List.cons_append, List.cons_append]
  refine Reads.primary_member hname (fun other hother => ?_) (hchain hhead) hattach
  rw [List.head?_append_of_ne_nil _ hwords] at hother
  exact hkeyword other hother

/-! ## Declarations -/

/-- A declaration is read. -/
theorem declare {typeWord : Word} {name : String} {perPlayer : Bool}
    (htype : StartsWorded typeWord) (hnext : next ≠ some (.operator "=")) :
    ReadsUpTo (Grammar.primary nested) (declared typeWord perPlayer name) next
      (.declare typeWord.text name perPlayer none) := fun _ hhead =>
  Reads.primary_declared htype (Reads.declarationEnd_none (noWord_of_head? hhead hnext) _ _ _)

/-- A declaration with a first value is read. -/
theorem declareInitial {typeWord : Word} {name : String} {perPlayer : Bool}
    (htype : StartsWorded typeWord)
    (hvalue : ReadsUpTo (operation nested.atom) words next node) :
    ReadsUpTo (Grammar.primary nested) (declared typeWord perPlayer name ++ .operator "=" :: words)
      next (.declare typeWord.text name perPlayer (some node)) := by
  intro rest hhead
  rw [List.append_assoc]
  exact Reads.primary_declared htype (Reads.declarationEnd_some (hvalue hhead) _ _ _)

end ReadsUpTo

/-! ## Lists -/

/-- The elements of a list are read up to the closing bracket, which stays. -/
def ReadsItems (nested : Level) (closing separator : String) (isFirst : Bool) (words : List Word)
    (next : Option Word) (nodes : List Node) : Prop :=
  ∀ ⦃fuel : Nat⦄, words.length ≤ fuel → ∀ ⦃rest : List Word⦄, rest.head? = next →
    Reads (elements closing separator nested.expression fuel isFirst) (words ++ rest) (· = nodes)
      (.operator closing :: rest)

/-- The brackets that close lists. -/
def IsClosing (closing : String) : Prop :=
  closing = ")" ∨ closing = "\x7d"

/-- A phrase does not start with the bracket. -/
theorem IsClosing.exists_cons {closing : String} (hclosing : IsClosing closing)
    (hwords : Node.Starts words) :
    ∃ word others, words = word :: others ∧ word ≠ ⟨.operator, closing⟩ := by
  rcases hwords with ⟨word, others, rfl, hparenthesis, hbrace⟩
  rcases hclosing with rfl | rfl
  · exact ⟨word, others, rfl, hparenthesis⟩
  · exact ⟨word, others, rfl, hbrace⟩

namespace ReadsItems

variable {closing separator : String} {nodes : List Node} {isFirst : Bool}

/-- The end of a list. -/
theorem noItems : ReadsItems nested closing separator isFirst [.operator closing] next [] := by
  intro fuel hfuel rest _
  cases fuel with
  | zero => cases hfuel
  | succ fuel => exact Reads.elements_closed

/-- A separator in front of the end. -/
theorem lastSeparator (hdifferent : separator ≠ closing) :
    ReadsItems nested closing separator false [.operator separator, .operator closing] next [] := by
  intro fuel hfuel rest _
  cases fuel with
  | zero => cases hfuel
  | succ fuel => exact Reads.elements_lastSeparator hdifferent

/-- The first element of a list. -/
theorem firstItem (hclosing : IsClosing closing) (hstarts : Node.Starts words)
    (helement : ReadsUpTo nested.expression words (firstOf words' next) node)
    (hothers : ReadsItems nested closing separator false words' next nodes) :
    ReadsItems nested closing separator true (words ++ words') next (node :: nodes) := by
  intro fuel hfuel rest hhead
  rcases hclosing.exists_cons hstarts with ⟨word, others, rfl, hword⟩
  rw [List.length_append, List.length_cons] at hfuel
  cases fuel with
  | zero => omega
  | succ fuel =>
      rw [List.append_assoc]
      refine (Reads.elements_first hword (helement.before hhead)
        (hothers (show words'.length ≤ fuel by omega) hhead)).imp ?_
      rintro _ ⟨_, _, rfl, rfl, rfl⟩
      rfl

/-- A later element, behind its separator. -/
theorem nextItem (hclosing : IsClosing closing) (hdifferent : separator ≠ closing)
    (hstarts : Node.Starts words)
    (helement : ReadsUpTo nested.expression words (firstOf words' next) node)
    (hothers : ReadsItems nested closing separator false words' next nodes) :
    ReadsItems nested closing separator false (.operator separator :: (words ++ words')) next
      (node :: nodes) := by
  intro fuel hfuel rest hhead
  rcases hclosing.exists_cons hstarts with ⟨word, others, rfl, hword⟩
  rw [List.length_cons, List.length_append] at hfuel
  cases fuel with
  | zero => omega
  | succ fuel =>
      rw [List.cons_append, List.append_assoc]
      refine (Reads.elements_next hdifferent hword (helement.before hhead)
        (hothers (show words'.length ≤ fuel by omega) hhead)).imp ?_
      rintro _ ⟨_, _, rfl, rfl, rfl⟩
      rfl

/-- A list with its brackets. -/
theorem delimited (hitems : ReadsItems nested closing separator true words next nodes)
    (opening : String) :
    ReadsUpTo (TokenStream.delimited opening closing separator nested.expression)
      (.operator opening :: words) next nodes := by
  intro rest hhead
  rw [List.cons_append]
  refine Reads.brackets fun fuel hfuel => hitems ?_ hhead
  rw [List.length_append] at hfuel
  omega

/-- A call is read. -/
theorem call {head : Node} (hitems : ReadsItems nested ")" "," true words next nodes)
    (hnext : next ≠ some (.operator ".")) :
    ReadsUpTo (callSuffix nested head) (.operator "(" :: words) next (.call head none nodes) :=
  fun _ hhead => Reads.callSuffix_call (hitems.delimited _ hhead) (noWord_of_head? hhead hnext)

/-- A call with members is read. -/
theorem callMember {head chain result : Node}
    (hitems : ReadsItems nested ")" "," true words (some (.operator ".")) nodes)
    (hchain : ReadsUpTo nested.atom words' next chain)
    (hattach : Node.attach (.call head none nodes) chain = .ok result) :
    ReadsUpTo (callSuffix nested head) (.operator "(" :: (words ++ .operator "." :: words')) next
      result := by
  intro rest hhead
  rw [List.cons_append, List.append_assoc]
  exact Reads.callSuffix_chain (hitems.delimited _ rfl) (hchain hhead) hattach

/-- The conditions of a rule are read. -/
theorem conditions (hitems : ReadsItems nested ")" ";" true words next nodes) :
    ReadsUpTo (ruleConditions nested) (.keyword "if" :: .operator "(" :: words) next
      (some (nodes.map Node.asCondition)) := by
  intro rest hhead
  refine Reads.ifTrue (Reads.nextIs _ _) rfl ((Reads.advance _).andThen ?_)
  refine (hitems.delimited _ hhead).result ?_
  exact Reads.pure rfl

end ReadsItems

/-! ## Rules -/

/-- The arguments of an event are read up to the closing parenthesis, which stays. -/
theorem EventWords.elements {isFirst : Bool} (hwords : EventWords isFirst words) {fuel : Nat}
    (hfuel : words.length ≤ fuel) (expected : String) (rest : List Word) :
    Reads (elements ")" "," (TokenStream.advance expected) fuel isFirst) (words ++ rest)
      (fun _ => True) (.operator ")" :: rest) := by
  induction hwords generalizing fuel with
  | closed isFirst =>
      cases fuel with
      | zero => cases hfuel
      | succ fuel => exact Reads.elements_closed.imp fun _ _ => trivial
  | trailing =>
      cases fuel with
      | zero => cases hfuel
      | succ fuel => exact (Reads.elements_lastSeparator (by decide)).imp fun _ _ => trivial
  | first hword _ ih =>
      cases fuel with
      | zero => cases hfuel
      | succ fuel =>
          have hothers := ih (Nat.le_of_succ_le_succ hfuel)
          exact (Reads.elements_first hword (Reads.advance _) hothers).imp fun _ _ => trivial
  | next hword _ ih =>
      cases fuel with
      | zero => cases hfuel
      | succ fuel =>
          have hothers := ih (Nat.le_of_succ_le (Nat.le_of_succ_le_succ hfuel))
          exact (Reads.elements_next (by decide) hword (Reads.advance _) hothers).imp
            fun _ _ => trivial

/-- A rule is read. -/
theorem ReadsUpTo.rule {name : String} {event : Word} {conditions : Option (List Node)}
    {actions : List Node} {arguments : List Word}
    (hevent : event.kind = .identifier ∨ event.kind = .keyword)
    (harguments : EventWords true arguments)
    (hconditions : ReadsUpTo (ruleConditions nested) words (some (.operator "\x7b")) conditions)
    (hactions : ReadsItems nested "\x7d" ";" true words' next actions) :
    ReadsUpTo (Grammar.primary nested)
      (ruleHeader name event ++ (arguments ++ (words ++ .operator "\x7b" :: words'))) next
      (.rule name event.text conditions actions) := by
  intro rest hhead
  simp only [List.append_assoc, List.cons_append]
  refine Reads.primary_rule hevent (Reads.brackets fun fuel hfuel => ?_) (hconditions rfl)
    (hactions.delimited _ hhead)
  rw [List.length_append] at hfuel
  exact harguments.elements (by omega) _ _

/-! ## Operators -/

/-- Operators with their right operands, read one after the other. -/
inductive ReadsLinks (nested : Level) : List Link → List Word → Option Word → Prop
  | nil (next : Option Word) : ReadsLinks nested [] [] next
  | cons {operator : BinaryOperator} {node : Node} {links : List Link} {words words' : List Word}
      {next : Option Word} :
      ReadsUpTo nested.atom words (firstOf words' next) node →
      ReadsLinks nested links words' next →
      ReadsLinks nested ((operator, node) :: links)
        (.operator operator.symbol :: (words ++ words')) next

/-- Operands with operators between them, of which the weakest is the root. -/
def ReadsTree (nested : Level) (root : Option BinaryOperator) (node : Node) (words : List Word)
    (next : Option Word) : Prop :=
  ∃ (tree : OperatorTree) (first others : List Word), tree.toNode = node ∧ tree.root? = root ∧
    tree.IsOrdered ∧ words = first ++ others ∧
    ReadsUpTo nested.atom first (firstOf others next) tree.inOrder.1 ∧
    ReadsLinks nested tree.inOrder.2 others next

namespace ReadsLinks

variable {links links' : List Link}

/-- More operators are read. -/
theorem append (hlinks : ReadsLinks nested links words (firstOf words' next))
    (hlinks' : ReadsLinks nested links' words' next) :
    ReadsLinks nested (links ++ links') (words ++ words') next := by
  generalize hnext : firstOf words' next = middle at hlinks
  induction hlinks with
  | nil => exact hlinks'
  | @cons operator node links first others _ hatom _ ih =>
      subst hnext
      rw [List.cons_append, List.cons_append, List.append_assoc]
      refine .cons ?_ (ih rfl)
      rw [firstOf_append]
      exact hatom

/-- Operators are read as long as there are some. -/
theorem operatorTail (hlinks : ReadsLinks nested links words next)
    (hnext : ∀ word ∈ next, word.IsNoOperator) {fuel : Nat} (hfuel : words.length < fuel) :
    ReadsUpTo (Grammar.operatorTail nested.atom fuel) words next links := by
  induction hlinks generalizing fuel with
  | nil => exact fun rest hhead => Reads.operatorTail_none (noOperator_of_head? hhead hnext) fuel
  | @cons operator node links first others _ hatom _ ih =>
      intro rest hhead
      rw [List.length_cons, List.length_append] at hfuel
      cases fuel with
      | zero => omega
      | succ fuel =>
          rw [List.cons_append, List.append_assoc]
          refine (Reads.nextOperator_some operator).result ?_
          refine (Reads.advance _).andThen ((hatom.before hhead).result ?_)
          refine (ih hnext (by omega) hhead).result ?_
          exact Reads.pure rfl

end ReadsLinks

namespace ReadsTree

variable {root root' : Option BinaryOperator}

/-- A tree of one operand. -/
theorem single (hatom : ReadsUpTo nested.atom words next node) :
    ReadsTree nested none node words next :=
  ⟨.operand node, words, [], rfl, rfl, trivial, by simp, hatom, .nil next⟩

/-- A tree of two trees. -/
theorem binary {operator : BinaryOperator} {left right : Node}
    (hleft : ReadsTree nested root left words (some (.operator operator.symbol)))
    (hright : ReadsTree nested root' right words' next)
    (hroot : ∀ other ∈ root, operator.precedence ≤ other.precedence)
    (hroot' : ∀ other ∈ root', operator.precedence < other.precedence) :
    ReadsTree nested (some operator) (.binary operator left right)
      (words ++ .operator operator.symbol :: words') next := by
  rcases hleft with ⟨tree, first, others, rfl, rfl, hordered, rfl, hfirst, hothers⟩
  rcases hright with ⟨tree', first', others', rfl, rfl, hordered', rfl, hfirst', hothers'⟩
  refine ⟨.operation operator tree tree', first,
    others ++ .operator operator.symbol :: (first' ++ others'), rfl, rfl,
    ⟨hroot, hroot', hordered, hordered'⟩, by simp, ?_, ?_⟩
  · rw [firstOf_append]
    exact hfirst
  · exact hothers.append (.cons hfirst' hothers')

/-- The tree that is read is the only one. -/
theorem operation (htree : ReadsTree nested root node words next)
    (hnext : ∀ word ∈ next, word.IsNoOperator) :
    ReadsUpTo (Grammar.operation nested.atom) words next node := by
  rcases htree with ⟨tree, first, others, rfl, _, hordered, rfl, hfirst, hothers⟩
  intro rest hhead
  rw [List.append_assoc]
  refine (hfirst.before hhead).result ?_
  refine Reads.get.bind fun stream hstream => ?_
  have hlength : stream.ahead.length = others.length + rest.length := by simpa using hstream
  refine (hothers.operatorTail hnext (by omega) hhead).result ?_
  -- The tree that is built respects precedence, and there is only one such tree of the chain.
  have hbuilt : OperatorTree.ofChain tree.inOrder.1 tree.inOrder.2 = tree :=
    (OperatorTree.isOrdered_ofChain _ _).eq hordered (OperatorTree.inOrder_ofChain _ _)
  exact Reads.pure (by rw [hbuilt])

end ReadsTree

/-! ## Phrases and scripts -/

/-- A phrase and what stands behind it. -/
theorem ReadsUpTo.suffix {parse : Parse Node} {head : Node}
    (hparse : ReadsUpTo parse words (firstOf words' next) head)
    (hsuffix : ReadsUpTo (callSuffix nested head) words' next node) :
    ReadsUpTo (parse >>= callSuffix nested) (words ++ words') next node := by
  intro rest hhead
  rw [List.append_assoc]
  refine (hparse.before hhead).result ?_
  exact hsuffix hhead

/-- The words of a phrase are read as what they stand for. -/
def Category.IsRead : Category → List Word → Option Word → Prop
  | primary node, words, next => ReadsUpTo (Grammar.primary recursive) words next node
  | atom node, words, next => ReadsUpTo recursive.atom words next node
  | tree root node, words, next => ReadsTree recursive root node words next
  | operation node, words, next => ReadsUpTo (Grammar.operation recursive.atom) words next node
  | expression node, words, next => ReadsUpTo recursive.expression words next node
  | suffix head node, words, next => ReadsUpTo (callSuffix recursive head) words next node
  | items closing separator isFirst nodes, words, next =>
    IsClosing closing → separator ≠ closing →
      ReadsItems recursive closing separator isFirst words next nodes
  | conditions nodes, words, next => ReadsUpTo (ruleConditions recursive) words next nodes

/-- Every phrase of the grammar is read as what it stands for. -/
theorem Derives.isRead {category : Category} (hderives : Derives category words next sites) :
    category.IsRead words next := by
  induction hderives with
  | number => exact fun _ _ => Reads.primary_number _
  | text => exact fun _ _ => Reads.primary_text _
  | boolean => exact fun _ _ => Reads.primary_boolean _
  | useBank => exact fun _ _ => Reads.primary_useBank _ _
  | parenthesised _ ih =>
      intro rest _
      rw [List.cons_append, List.append_assoc]
      exact Reads.primary_parenthesised (ih rfl)
  | negation _ ih => exact fun _ hhead => Reads.primary_negation (ih hhead)
  | block _ ih =>
      exact fun _ hhead => Reads.primary_block ((ih (.inr rfl) (by decide)).delimited _ hhead)
  | constant _ ih => exact fun _ hhead => Reads.primary_constant _ (ih hhead)
  | choice _ _ hnext ih ih' => exact ih.choice ih' hnext
  | choiceElse _ _ _ ih ih' ih'' => exact ih.choiceElse ih' ih''
  | rule hevent harguments _ _ ih ih' =>
      exact .rule hevent harguments ih (ih' (.inr rfl) (by decide))
  | name hname hnext => exact .name hname hnext
  | assign _ ih => exact fun _ hhead => Reads.primary_assign _ (ih hhead)
  | enumMember hmember => exact fun _ _ => Reads.primary_enumMember _ hmember
  | member hname h hkeyword hattach ih =>
      exact .member hname (h.ne_nil trivial) ih hkeyword hattach
  | declare htype hnext => exact .declare htype hnext
  | declareInitial htype _ ih => exact .declareInitial htype ih
  | noSuffix hnext => exact fun rest hhead => Reads.callSuffix_none (noWord_of_head? hhead hnext)
  | call _ hnext ih => exact (ih (.inl rfl) (by decide)).call hnext
  | callMember _ _ hattach ih ih' => exact (ih (.inl rfl) (by decide)).callMember ih' hattach
  | noItems => exact fun _ _ => .noItems
  | lastSeparator => exact fun _ hdifferent => .lastSeparator hdifferent
  | firstItem h _ ih ih' =>
      exact fun hclosing hdifferent =>
        .firstItem hclosing (h.starts trivial) ih (ih' hclosing hdifferent)
  | nextItem h _ ih ih' =>
      exact fun hclosing hdifferent =>
        .nextItem hclosing hdifferent (h.starts trivial) ih (ih' hclosing hdifferent)
  | noConditions hnext =>
      exact fun rest hhead =>
        Reads.ifFalse (Reads.nextIs _ _) (nextIs_keyword_false hhead hnext) (Reads.pure rfl)
  | conditions _ ih => exact (ih (.inl rfl) (by decide)).conditions
  | atom _ _ ih ih' =>
      rw [Category.IsRead, recursive_atom]
      exact ih.suffix ih'
  | single _ ih => exact .single ih
  | binary _ _ hroot hroot' ih ih' => exact ih.binary ih' hroot hroot'
  | operation _ hnext ih => exact ih.operation hnext
  | expression _ _ ih ih' =>
      rw [Category.IsRead, recursive_expression]
      exact ih.suffix ih'

/-- Behind the last statement there are no more. -/
theorem Reads.statements_nil (expression : Parse Node) (fuel : Nat) :
    Reads (Grammar.statements expression fuel) [] (· = []) [] := by
  cases fuel with
  | zero => exact Reads.pure rfl
  | succ fuel => exact Reads.ifTrue Reads.atEnd rfl (Reads.pure rfl)

/-- Every script of the grammar is read as its statements. -/
theorem DerivesScript.isRead {nodes : List Node} (hderives : DerivesScript nodes words sites)
    {fuel : Nat} (hfuel : words.length < fuel) :
    Reads (Grammar.statements recursive.expression fuel) words (· = nodes) [] := by
  induction hderives generalizing fuel with
  | nil => exact Reads.statements_nil _ fuel
  | @last node words _ h =>
      cases fuel with
      | zero => cases hfuel
      | succ fuel =>
          have hread : Reads recursive.expression (words ++ []) (· = node) [] := h.isRead rfl
          rw [List.append_nil] at hread
          refine Reads.ifFalse Reads.atEnd ?_ (hread.bind ?_)
          · rw [List.isEmpty_eq_false_iff]
            exact h.ne_nil trivial
          · rintro _ rfl
            refine Reads.ifTrue Reads.atEnd rfl ((Reads.statements_nil _ fuel).result ?_)
            exact Reads.pure rfl
  | @cons node nodes words words' _ _ h _ ih =>
      rw [List.length_append, List.length_cons] at hfuel
      cases fuel with
      | zero => omega
      | succ fuel =>
          have hread : Reads recursive.expression (words ++ .operator ";" :: words') (· = node)
              (.operator ";" :: words') := h.isRead rfl
          refine Reads.ifFalse Reads.atEnd (by simp) (hread.result ?_)
          refine Reads.ifFalse Reads.atEnd rfl (Reads.expectSemicolon.bind fun _ _ => ?_)
          refine (ih (by omega)).result ?_
          exact Reads.pure rfl

/-- A source text without a fault is parsed as what its words stand for. -/
theorem DerivesScript.parse_eq {source : String} {nodes : List Node}
    (hderives : DerivesScript nodes (Script.words source) sites)
    (hfault : (TokenStream.ofSource .standard source).fault = none) :
    Script.parse source = .ok (.block nodes) := by
  have hholds : Holds (TokenStream.ofSource .standard source) (Script.words source) :=
    ⟨rfl, hfault⟩
  have hlength : (Script.words source).length <
      (TokenStream.ofSource .standard source).ahead.length + 1 := by
    rw [Script.words, List.length_map]
    exact Nat.lt_succ_self _
  rcases hderives.isRead hlength hholds with ⟨_, rest, hrun, rfl, _⟩
  rw [Script.parse, parseWith_eq_scriptOutcome, ← statements_eq_loop, hrun]
  rfl

end Workshop

import Workshop.Proofs.Reading.Derivations

/-!
# Operands and receivers

Words that form an operand in front of every operator, and words to which members
can be attached.  Both are described by derivations, so that nothing is left out
that the grammar takes for an operand.

Main definitions:

- `IsExpression`, `IsOperand`: words that form an expression or an operand,
  whatever may follow one.
- `IsReceiver`: words that can stand in front of members.
- `joinedWords`, `argumentWords`: items with separators between them, and
  arguments with their parentheses.

Main results:

- Theorem `Derivable.elements`: expressions with separators between them are the
  elements of a list.
- Theorem `IsOperand.call`: whatever can be called is an operand with its
  arguments.
- Theorem `IsReceiver.attach`: members are attached to a receiver one by one.
-/

namespace Workshop

/-! ## Receivers of chains -/

namespace Node

/-- A receiver is attached below a member that has one already. -/
theorem attach_attach_wrap {wrap : Node → Node}
    (hwrap : ∀ receiver inner, attach receiver (wrap inner) = (attach receiver inner).map wrap)
    {receiver x both inner result : Node}
    (ih : ∀ {result}, attach both inner = .ok result →
      ∃ middle, attach x inner = .ok middle ∧ attach receiver middle = .ok result)
    (hresult : (attach both inner).map wrap = .ok result) :
    ∃ middle, attach x (wrap inner) = .ok middle ∧ attach receiver middle = .ok result := by
  cases hinner : attach both inner with
  | error node =>
      rw [hinner] at hresult
      cases hresult
  | ok inner' =>
      rw [hinner] at hresult
      cases hresult
      obtain ⟨middle, hmiddle, hreceiver⟩ := ih hinner
      refine ⟨wrap middle, ?_, ?_⟩
      · rw [hwrap, hmiddle]
        rfl
      · rw [hwrap, hreceiver]
        rfl

/-- Giving a chain the receiver `x`, and that a receiver of its own, is giving the chain both at
once. -/
theorem attach_attach {receiver x both chain result : Node}
    (hboth : attach receiver x = .ok both) (hresult : attach both chain = .ok result) :
    ∃ middle, attach x chain = .ok middle ∧ attach receiver middle = .ok result := by
  fun_induction attach both chain generalizing result with
  | case1 name =>
      cases hresult
      exact ⟨identifier name (some x), rfl, by simp [attach, hboth, Except.map]⟩
  | case2 name inner ih =>
      exact @attach_attach_wrap (fun inner => identifier name (some inner)) (fun _ _ => rfl)
        _ _ _ _ _ ih hresult
  | case3 callee arguments =>
      cases hresult
      exact ⟨call callee (some x) arguments, rfl, by simp [attach, hboth, Except.map]⟩
  | case4 callee inner arguments ih =>
      exact @attach_attach_wrap (fun inner => call callee (some inner) arguments) (fun _ _ => rfl)
        _ _ _ _ _ ih hresult
  | case5 target value =>
      cases hresult
      exact ⟨assign target (some x) value, rfl, by simp [attach, hboth, Except.map]⟩
  | case6 target inner value ih =>
      exact @attach_attach_wrap (fun inner => assign target (some inner) value) (fun _ _ => rfl)
        _ _ _ _ _ ih hresult
  | case7 => cases hresult

end Node

/-! ## Words behind operands -/

/-- A word that continues no operand: no member, no value and no arguments follow. -/
def Word.EndsOperand (word : Word) : Prop :=
  word.EndsName ∧ word ≠ operator "("

/-- An operator ends an operand. -/
theorem BinaryOperator.endsOperand_symbol (operator : BinaryOperator) :
    (Word.operator operator.symbol).EndsOperand := by
  cases operator <;> simp [Word.EndsOperand, Word.EndsName, symbol]

variable {category : Category} {node callee : Node} {word : Word} {words middle rest : List Word}
  {next : Option Word}

/-- A parenthesis does not. -/
theorem ne_opening_of_endsOperand (hnext : ∀ word ∈ next, word.EndsOperand) :
    next ≠ some (.operator "(") :=
  fun hopening => (hnext _ hopening).2 rfl

namespace Derivable

/-- A word that continues nothing may follow every phrase. -/
theorem before (hphrase : Derivable category words next) (hword : word.EndsPhrase) :
    Derivable category words (some word) := by
  rcases hphrase with ⟨sites, hderives⟩
  exact ⟨sites, hderives.beforeEnd hword⟩

/-- An atom without arguments. -/
theorem withoutArguments (hprimary : Derivable (.primary node) words next)
    (hnext : next ≠ some (.operator "(")) : Derivable (.atom node) words next := by
  rcases hprimary with ⟨sites, hderives⟩
  exact ⟨sites, hderives.withoutArguments hnext⟩

/-- An operand with no operator behind it. -/
theorem operation (hatom : Derivable (.atom node) words next)
    (hnext : ∀ word ∈ next, word.IsNoOperator) : Derivable (.operation node) words next := by
  rcases hatom with ⟨sites, hderives⟩
  exact ⟨sites, .operation (.single hderives) hnext⟩

/-- An expression whose result is not called. -/
theorem withoutCall (hoperation : Derivable (.operation node) words next)
    (hnext : next ≠ some (.operator "(")) : Derivable (.expression node) words next := by
  rcases hoperation with ⟨sites, hderives⟩
  exact ⟨sites, hderives.withoutCall hnext⟩

end Derivable

/-! ## Lists of expressions -/

/-- Words that form an expression in front of everything that ends one. -/
def IsExpression (words : List Word) (node : Node) : Prop :=
  ∃ next, Derivable (.expression node) words next

/-- An expression in front of a word. -/
theorem IsExpression.before (hwords : IsExpression words node) (hword : word.EndsPhrase) :
    Derivable (.expression node) words (some word) := by
  rcases hwords with ⟨next, hphrase⟩
  exact hphrase.before hword

/-- Items with a separator before each of them. -/
def separated (separator : String) (items : List (List Word)) : List Word :=
  items.flatMap fun item => .operator separator :: item

/-- Items with a separator between them. -/
def joinedWords (separator : String) : List (List Word) → List Word
  | [] => []
  | item :: rest => item ++ separated separator rest

/-- Arguments with the parentheses around them. -/
def argumentWords (arguments : List (List Word)) : List Word :=
  .operator "(" :: (joinedWords "," arguments ++ [.operator ")"])

section Lists

variable {ι : Type} {items : List ι} {wordsOf : ι → List Word} {nodeOf : ι → Node}
  {closing separator : String}

/-- In front of the other items, or of the closing bracket. -/
theorem IsExpression.before_separated (hwords : IsExpression words node)
    (hclosing : (Word.operator closing).EndsPhrase)
    (hseparator : (Word.operator separator).EndsPhrase) (items : List (List Word))
    (next : Option Word) :
    Derivable (.expression node) words
      (firstOf (separated separator items ++ [.operator closing]) next) := by
  cases items with
  | nil => exact hwords.before hclosing
  | cons item rest => exact hwords.before hseparator

/-- Later elements of a list. -/
theorem Derivable.elementsBehind (hclosing : (Word.operator closing).EndsPhrase)
    (hseparator : (Word.operator separator).EndsPhrase)
    (hitems : ∀ item ∈ items, IsExpression (wordsOf item) (nodeOf item)) (next : Option Word) :
    Derivable (.items closing separator false (items.map nodeOf))
      (separated separator (items.map wordsOf) ++ [.operator closing]) next := by
  induction items with
  | nil => exact ⟨_, .noItems⟩
  | cons item rest ih =>
      rw [List.forall_mem_cons] at hitems
      rcases hitems.1.before_separated hclosing hseparator (rest.map wordsOf) next with
        ⟨sites, hitem⟩
      rcases ih hitems.2 with ⟨others, hrest⟩
      exact (Derives.nextItem hitem hrest).of_words (by simp [separated])

/-- Expressions with separators between them are the elements of a list. -/
theorem Derivable.elements (hclosing : (Word.operator closing).EndsPhrase)
    (hseparator : (Word.operator separator).EndsPhrase)
    (hitems : ∀ item ∈ items, IsExpression (wordsOf item) (nodeOf item)) (next : Option Word) :
    Derivable (.items closing separator true (items.map nodeOf))
      (joinedWords separator (items.map wordsOf) ++ [.operator closing]) next := by
  cases items with
  | nil => exact ⟨_, .noItems⟩
  | cons item rest =>
      rw [List.forall_mem_cons] at hitems
      rcases hitems.1.before_separated hclosing hseparator (rest.map wordsOf) next with
        ⟨sites, hitem⟩
      rcases elementsBehind hclosing hseparator hitems.2 next with ⟨others, hrest⟩
      exact (Derives.firstItem hitem hrest).of_words (by simp [joinedWords])

end Lists

/-! ## Operands -/

/-- Words that form an operand, whatever operator comes next. -/
def IsOperand (words : List Word) (node : Node) : Prop :=
  ∀ ⦃next : Option Word⦄, (∀ word ∈ next, word.EndsOperand) → Derivable (.atom node) words next

/-- Words to which members can be attached. -/
def IsReceiver (words : List Word) (node : Node) : Prop :=
  ∀ ⦃text : String⦄ ⦃middle : List Word⦄ ⦃next : Option Word⦄ ⦃chain result : Node⦄,
    Derivable (.atom chain) (.name text :: middle) next → Node.attach node chain = .ok result →
    next ≠ some (.operator "(") →
    Derivable (.atom result) (words ++ .operator "." :: .name text :: middle) next

section Calls

variable {ι : Type} {arguments : List ι} {wordsOf : ι → List Word} {nodeOf : ι → Node}

/-- The arguments of a call. -/
theorem Derivable.argumentList
    (harguments : ∀ argument ∈ arguments, IsExpression (wordsOf argument) (nodeOf argument))
    (next : Option Word) :
    Derivable (.items ")" "," true (arguments.map nodeOf))
      (joinedWords "," (arguments.map wordsOf) ++ [.operator ")"]) next :=
  .elements Word.endsPhrase_closing (Word.endsPhrase_operator (by simp)) harguments next

/-- What can be called, with arguments behind it. -/
theorem Derivable.call (hcallee : Derivable (.primary callee) words (some (.operator "(")))
    (harguments : ∀ argument ∈ arguments, IsExpression (wordsOf argument) (nodeOf argument))
    (hnext : next ≠ some (.operator ".")) :
    Derivable (.atom (.call callee none (arguments.map nodeOf)))
      (words ++ argumentWords (arguments.map wordsOf)) next := by
  rcases hcallee with ⟨sites, hprimary⟩
  rcases Derivable.argumentList harguments next with ⟨others, hlist⟩
  exact ⟨_, .atom hprimary (.call hlist hnext)⟩

/-- Calls are operands. -/
theorem IsOperand.call (hcallee : Derivable (.primary callee) words (some (.operator "(")))
    (harguments : ∀ argument ∈ arguments, IsExpression (wordsOf argument) (nodeOf argument)) :
    IsOperand (words ++ argumentWords (arguments.map wordsOf))
      (.call callee none (arguments.map nodeOf)) :=
  fun _ hnext => .call hcallee harguments fun hdot => (hnext _ hdot).1.2.2.2 rfl

/-- The members behind a call are attached to it. -/
theorem IsReceiver.call (hcallee : Derivable (.primary callee) words (some (.operator "(")))
    (harguments : ∀ argument ∈ arguments, IsExpression (wordsOf argument) (nodeOf argument)) :
    IsReceiver (words ++ argumentWords (arguments.map wordsOf))
      (.call callee none (arguments.map nodeOf)) := by
  intro text middle next chain result hchain hattach _
  rcases hcallee with ⟨sites, hprimary⟩
  rcases Derivable.argumentList harguments (some (.operator ".")) with ⟨others, hlist⟩
  rcases hchain with ⟨inner, hchain⟩
  exact (Derives.atom hprimary (.callMember hlist hchain hattach)).of_words
    (by simp [argumentWords])

end Calls

namespace IsOperand

/-- An atom that does not depend on what follows it. -/
theorem of_primary (hprimary : ∀ next : Option Word, (∀ word ∈ next, word.EndsName) →
    Derivable (.primary node) words next) : IsOperand words node := by
  intro next hnext
  have hname : ∀ word ∈ next, word.EndsName := fun word hword => (hnext word hword).1
  exact (hprimary next hname).withoutArguments (ne_opening_of_endsOperand hnext)

/-- Numbers are operands. -/
theorem number (digits : String) : IsOperand [⟨.number, digits⟩] (.number digits) :=
  of_primary fun _ _ => ⟨_, .number⟩

/-- Names are operands. -/
theorem name (hname : NameWord word node) : IsOperand [word] node :=
  of_primary fun _ hnext => ⟨_, .name hname hnext⟩

/-- A member that is spelled like a keyword. -/
theorem enumMember (enumName : String) {member : String} (hmember : member ≠ "player") :
    IsOperand [.name enumName, .operator ".", .keyword member] (.enumMember enumName member) :=
  of_primary fun _ _ => ⟨_, .enumMember hmember⟩

/-- So is what stands in parentheses. -/
theorem parenthesised (hinner : IsExpression words node) :
    IsOperand (.operator "(" :: (words ++ [.operator ")"])) node := by
  rcases hinner.before Word.endsPhrase_closing with ⟨sites, hderives⟩
  exact of_primary fun _ _ => ⟨_, .parenthesised hderives⟩

/-- One more member.  The receiver is read first, and the member is attached to it. -/
theorem attach {receiver member : Node} {text : String} (hreceiver : IsReceiver words receiver)
    (hmember : IsOperand (.name text :: rest) member)
    (hattach : Node.attach receiver member = .ok node) :
    IsOperand (words ++ .operator "." :: .name text :: rest) node :=
  fun _ hnext => hreceiver (hmember hnext) hattach (ne_opening_of_endsOperand hnext)

end IsOperand

namespace IsReceiver

/-- Names are receivers. -/
theorem name (hname : NameWord word node) : IsReceiver [word] node := by
  intro text middle next chain result hchain hattach hnext
  rcases hchain with ⟨sites, hderives⟩
  have hmember : Derivable (.primary result) (word :: .operator "." :: .name text :: middle)
      next := ⟨_, .member hname hderives (by simp) hattach⟩
  exact hmember.withoutArguments hnext

/-- A member can be a receiver in turn. -/
theorem attach {receiver member : Node} {text : String} (hreceiver : IsReceiver words receiver)
    (hmember : IsReceiver (.name text :: rest) member)
    (hattach : Node.attach receiver member = .ok node) :
    IsReceiver (words ++ .operator "." :: .name text :: rest) node := by
  intro name middle next chain result hchain hresult hnext
  rcases Node.attach_attach hattach hresult with ⟨both, hinner, hboth⟩
  have hall := hreceiver (hmember hchain hinner hnext) hboth hnext
  simpa using hall

end IsReceiver

end Workshop

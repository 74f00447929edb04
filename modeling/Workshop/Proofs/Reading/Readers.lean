import Workshop.Proofs.Printing.Words
import Workshop.Script.Grammar

/-!
# Reading words

What a reader does with a token stream only depends on the words in it, not on
their places.  A reader is described by the words before and after it, and by
what is known of its result; such descriptions compose.

Main definitions:

- `Reads`: from the words before, a reader succeeds with a result and leaves
  the words after.

Main results:

- Theorem `Reads.bind`: one reader after another.
- Theorem `Reads.brackets`: lists between brackets are read item by item.
- Theorems `Reads.callSuffix_call`, `Reads.callSuffix_chain`: arguments behind a
  phrase, and members behind them.
-/

namespace Workshop

open TokenStream Grammar

/-- The words that a stream still holds, with no fault behind them. -/
structure Holds (stream : TokenStream) (words : List Word) : Prop where
  ahead : stream.ahead.map Token.word = words
  fault : stream.fault = none

/-- From the words before it, a reader succeeds with a result as described, and leaves the words
after it. -/
def Reads {α : Type} (parse : Parse α) (before : List Word) (result : α → Prop)
    (after : List Word) : Prop :=
  ∀ ⦃stream⦄, Holds stream before →
    ∃ a rest, parse stream = .ok a rest ∧ result a ∧ Holds rest after

namespace Reads

variable {α β : Type} {before middle after words : List Word} {word : Word} {parse yes no : Parse α}

/-- A result takes no words. -/
theorem pure {a : α} {result : α → Prop} (ha : result a) :
    Reads (pure a) words result words :=
  fun stream hstream => ⟨a, stream, rfl, ha, hstream⟩

/-- One reader after another. -/
theorem bind {next : α → Parse β} {result : α → Prop} {result' : β → Prop}
    (hparse : Reads parse before result middle)
    (hnext : ∀ a, result a → Reads (next a) middle result' after) :
    Reads (parse >>= next) before result' after := by
  intro stream hstream
  obtain ⟨a, rest, hrun, ha, hrest⟩ := hparse hstream
  obtain ⟨b, final, hrun', hb, hfinal⟩ := hnext a ha hrest
  refine ⟨b, final, ?_, hb, hfinal⟩
  simp only [Bind.bind, EStateM.bind, hrun, hrun']

/-- A reader whose result is known, and another reader behind it. -/
theorem result {next : α → Parse β} {a : α} {post : β → Prop}
    (hparse : Reads parse before (· = a) middle) (hnext : Reads (next a) middle post after) :
    Reads (parse >>= next) before post after := by
  apply hparse.bind
  rintro _ rfl
  exact hnext

/-- Weaker knowledge of the result. -/
theorem imp {post post' : α → Prop} (hparse : Reads parse before post after)
    (himp : ∀ a, post a → post' a) : Reads parse before post' after := by
  intro stream hstream
  obtain ⟨a, rest, hrun, ha, hrest⟩ := hparse hstream
  exact ⟨a, rest, hrun, himp a ha, hrest⟩

/-- A result that does not matter. -/
theorem discard {result : α → Prop} (hparse : Reads parse before result after) :
    Reads (discard parse) before (fun _ => True) after := by
  intro stream hstream
  obtain ⟨a, rest, hrun, _, hrest⟩ := hparse hstream
  refine ⟨(), rest, ?_, trivial, hrest⟩
  simp only [Functor.discard, Functor.mapConst, Function.comp_apply, EStateM.map, hrun,
    Function.const]

/-- The reader after one whose result does not matter. -/
theorem andThen {next : Unit → Parse β} {result : α → Prop} {result' : β → Prop}
    (hparse : Reads parse before result middle) (hnext : Reads (next ()) middle result' after) :
    Reads (Functor.discard parse >>= next) before result' after :=
  hparse.discard.bind fun _ _ => hnext

/-- The number of words that are left. -/
theorem get : Reads get words (fun stream => stream.ahead.length = words.length) words := by
  intro stream hstream
  refine ⟨stream, stream, rfl, ?_, hstream⟩
  rw [← hstream.ahead, List.length_map]

/-! ## Single words -/

/-- There is a next word. -/
theorem peek_cons : Reads peek (word :: words)
    (fun next => ∃ token, next = some token ∧ token.word = word) (word :: words) := by
  rintro ⟨ahead, fault, probed, finish⟩ ⟨hahead, hfault⟩
  cases ahead with
  | nil => cases hahead
  | cons token rest =>
      have hword := (List.cons.inj hahead).1
      exact ⟨some token, ⟨token :: rest, fault, true, finish⟩, rfl, ⟨token, rfl, hword⟩, hahead,
        hfault⟩

/-- There is none at the end. -/
theorem peek_nil : Reads peek [] (· = none) [] := by
  rintro ⟨ahead, fault, probed, finish⟩ ⟨hahead, hfault⟩
  cases List.map_eq_nil_iff.1 hahead
  cases hfault
  exact ⟨none, ⟨[], none, true, finish⟩, rfl, rfl, rfl, rfl⟩

/-- The next word is taken. -/
theorem advance (expected : String) :
    Reads (TokenStream.advance expected) (word :: words) (fun token => token.word = word)
      words := by
  rintro ⟨ahead, fault, probed, finish⟩ ⟨hahead, hfault⟩
  cases ahead with
  | nil => cases hahead
  | cons token rest =>
      obtain ⟨hword, hrest⟩ := List.cons.inj hahead
      exact ⟨token, ⟨rest, fault, false, finish⟩, rfl, hword, hrest, hfault⟩

/-- A test of the next word. -/
theorem peekTest (test : Word → Bool) {parse : Parse Bool} (hparse : parse = do
      match ← peek with
      | some token => Pure.pure (test token.word)
      | none => Pure.pure false) :
    Reads parse words (· = words.head?.any test) words := by
  subst hparse
  cases words with
  | nil =>
      refine peek_nil.result ?_
      exact pure rfl
  | cons word words =>
      refine peek_cons.bind ?_
      rintro _ ⟨token, rfl, rfl⟩
      exact pure rfl

/-- A test for kind and text. -/
theorem nextIs (kind : TokenKind) (accepted : List String) :
    Reads (TokenStream.nextIs kind accepted) words
      (· = words.head?.any fun word => word.kind == kind && accepted.contains word.text) words :=
  peekTest (fun word => word.kind == kind && accepted.contains word.text) rfl

/-- A test for the kind. -/
theorem nextHasKind (kind : TokenKind) :
    Reads (TokenStream.nextHasKind kind) words (· = words.head?.any fun word => word.kind == kind)
      words :=
  peekTest (fun word => word.kind == kind) rfl

/-- A test for the end. -/
theorem atEnd : Reads TokenStream.atEnd words (· = words.isEmpty) words := by
  cases words with
  | nil =>
      refine peek_nil.result ?_
      exact pure rfl
  | cons word words =>
      refine peek_cons.bind ?_
      rintro _ ⟨token, rfl, rfl⟩
      exact pure rfl

/-- A word that is accepted. -/
theorem expect {kind : TokenKind} {accepted : List String}
    (haccepted : (word.kind == kind && accepted.contains word.text) = true) :
    Reads (TokenStream.expect kind accepted) (word :: words) (fun token => token.word = word)
      words := by
  refine (advance _).bind ?_
  rintro token rfl
  have haccepted' : (token.kind == kind && accepted.contains token.text) = true := haccepted
  rw [if_pos haccepted']
  exact pure rfl

/-- The operator is taken. -/
theorem expectOperator (text : String) :
    Reads (TokenStream.expectOperator text) (⟨.operator, text⟩ :: words)
      (fun token => token.word = ⟨.operator, text⟩) words :=
  expect (by simp)

/-- The name is taken. -/
theorem expectIdentifier (text : String) :
    Reads TokenStream.expectIdentifier (⟨.identifier, text⟩ :: words)
      (fun token => token.word = ⟨.identifier, text⟩) words := by
  refine (advance _).bind ?_
  intro token htoken
  have hkind : (token.kind == .identifier) = true := by
    have hkind := congrArg Word.kind htoken
    simpa [Token.word] using hkind
  rw [if_pos hkind]
  exact pure htoken

/-- The semicolon is taken. -/
theorem expectSemicolon :
    Reads TokenStream.expectSemicolon (⟨.operator, ";"⟩ :: words) (fun _ => True) words := by
  refine (advance _).bind ?_
  intro token htoken
  have his : token.is .operator ";" = true := by
    rw [Token.is_iff]
    exact ⟨congrArg Word.kind htoken, congrArg Word.text htoken⟩
  rw [if_pos his]
  exact pure trivial

/-- A reader behind a test of the next word that comes out true. -/
theorem ifTrue {test : Parse Bool} {value : Bool} {result : α → Prop}
    (htest : Reads test before (· = value) before) (hvalue : value = true)
    (hyes : Reads yes before result after) :
    Reads (do if ← test then yes else no) before result after := by
  refine htest.result ?_
  rw [if_pos hvalue]
  exact hyes

/-- A reader behind a test of the next word that comes out false. -/
theorem ifFalse {test : Parse Bool} {value : Bool} {result : α → Prop}
    (htest : Reads test before (· = value) before) (hvalue : value = false)
    (hno : Reads no before result after) :
    Reads (do if ← test then yes else no) before result after := by
  refine htest.result ?_
  rw [if_neg (by simp [hvalue])]
  exact hno

end Reads

/-! ## Lists between brackets -/

namespace Reads

variable {α : Type} {element : Parse α} {closing separator : String} {fuel : Nat}
  {after : List Word}

/-- The bracket does not come next. -/
theorem nextIs_closing_false {word : Word} {words : List Word}
    (hword : word ≠ ⟨.operator, closing⟩) :
    ((word :: words).head?.any fun word =>
      word.kind == .operator && [closing].contains word.text) = false := by
  obtain ⟨kind, text⟩ := word
  rw [Bool.eq_false_iff]
  intro htrue
  apply hword
  simpa using htrue

/-! One round for the elements of a list, from the words that it starts with. -/

section Rounds

variable {isFirst : Bool} {word : Word} {words middle : List Word} {result : α → Prop}
  {results : List α → Prop}

/-- No more elements. -/
theorem elements_closed : Reads (elements closing separator element (fuel + 1) isFirst)
    (⟨.operator, closing⟩ :: after) (· = []) (⟨.operator, closing⟩ :: after) :=
  ifFalse atEnd rfl (ifTrue (nextIs _ _) (by simp) (pure rfl))

/-- A separator behind the last element. -/
theorem elements_lastSeparator (hdifferent : separator ≠ closing) :
    Reads (elements closing separator element (fuel + 1) false)
      (⟨.operator, separator⟩ :: ⟨.operator, closing⟩ :: after) (· = [])
      (⟨.operator, closing⟩ :: after) := by
  refine ifFalse atEnd rfl (ifFalse (nextIs _ _) ?_ ?_)
  · exact nextIs_closing_false (by simpa using hdifferent)
  · exact (expectOperator separator).andThen (ifTrue (nextIs _ _) (by simp) (pure rfl))

/-- The first element and the others. -/
theorem elements_first (hword : word ≠ ⟨.operator, closing⟩)
    (helement : Reads element (word :: words) result middle)
    (hothers : Reads (elements closing separator element fuel false) middle results after) :
    Reads (elements closing separator element (fuel + 1) true) (word :: words)
      (fun items => ∃ a others, items = a :: others ∧ result a ∧ results others) after := by
  refine ifFalse atEnd rfl (ifFalse (nextIs _ _) (nextIs_closing_false hword) ?_)
  refine ifFalse (nextIs _ _) (nextIs_closing_false hword) (helement.bind fun a ha => ?_)
  exact hothers.bind fun others hresults => pure ⟨a, others, rfl, ha, hresults⟩

/-- A later element and the others. -/
theorem elements_next (hdifferent : separator ≠ closing) (hword : word ≠ ⟨.operator, closing⟩)
    (helement : Reads element (word :: words) result middle)
    (hothers : Reads (elements closing separator element fuel false) middle results after) :
    Reads (elements closing separator element (fuel + 1) false)
      (⟨.operator, separator⟩ :: word :: words)
      (fun items => ∃ a others, items = a :: others ∧ result a ∧ results others) after := by
  refine ifFalse atEnd rfl (ifFalse (nextIs _ _) ?_ ((expectOperator separator).andThen ?_))
  · exact nextIs_closing_false (by simpa using hdifferent)
  refine ifFalse (nextIs _ _) (nextIs_closing_false hword) (helement.bind fun a ha => ?_)
  exact hothers.bind fun others hresults => pure ⟨a, others, rfl, ha, hresults⟩

/-- A list with its brackets, whose elements are read in as many rounds as needed. -/
theorem brackets {opening : String} {before : List Word}
    (helements : ∀ fuel, before.length ≤ fuel →
      Reads (elements closing separator element (fuel + 1) true) before results
        (⟨.operator, closing⟩ :: after)) :
    Reads (TokenStream.delimited opening closing separator element)
      (⟨.operator, opening⟩ :: before) results after := by
  refine (expectOperator opening).andThen (get.bind fun stream hstream => ?_)
  refine (helements _ (Nat.le_of_eq hstream.symm)).bind fun items hitems => ?_
  exact (expectOperator closing).andThen (pure hitems)

end Rounds

end Reads

/-! ## Operators and calls -/

/-- No operator comes next. -/
def NoOperator (words : List Word) : Prop :=
  ∀ word ∈ words.head?, word.kind = .operator → BinaryOperator.ofSymbol? word.text = none

/-- The given operator word does not come next. -/
def NoWord (text : String) (words : List Word) : Prop :=
  ∀ word ∈ words.head?, word ≠ ⟨.operator, text⟩

namespace Reads

variable {before middle after words : List Word} {atom : Parse Node} {node : Node}
  {nested : Level}

/-- A word that does not come next. -/
theorem nextIs_false {text : String} (hword : NoWord text words) :
    (words.head?.any fun word => word.kind == .operator && [text].contains word.text) = false := by
  cases words with
  | nil => rfl
  | cons word words => exact nextIs_closing_false (hword word rfl)

/-- No operator comes next. -/
theorem nextOperator_none (hnone : NoOperator words) :
    Reads nextOperator words (· = none) words := by
  cases words with
  | nil =>
      refine peek_nil.result ?_
      exact pure rfl
  | cons word words =>
      refine peek_cons.bind ?_
      rintro _ ⟨token, rfl, rfl⟩
      apply pure
      split
      · rename_i hkind
        exact hnone token.word rfl (by simpa [Token.word] using hkind)
      · rfl

/-- An operator comes next. -/
theorem nextOperator_some (operator : BinaryOperator) :
    Reads nextOperator (⟨.operator, operator.symbol⟩ :: words) (· = some operator)
      (⟨.operator, operator.symbol⟩ :: words) := by
  refine peek_cons.bind ?_
  rintro _ ⟨token, rfl, htoken⟩
  have hkind : token.kind = .operator := congrArg Word.kind htoken
  have htext : token.text = operator.symbol := congrArg Word.text htoken
  apply pure
  rw [hkind, htext]
  exact operator.ofSymbol?_symbol

/-- No more operators. -/
theorem operatorTail_none (hnone : NoOperator words) (fuel : Nat) :
    Reads (operatorTail atom fuel) words (· = []) words := by
  cases fuel with
  | zero => exact pure rfl
  | succ fuel =>
      refine (nextOperator_none hnone).result ?_
      exact pure rfl

/-- A chain that can have the receiver. -/
theorem attached {receiver chain result : Node} {dot : Token}
    (hattach : Node.attach receiver chain = .ok result) :
    Reads (Grammar.attached receiver dot chain) words (· = result) words := by
  unfold Grammar.attached
  rw [hattach]
  exact pure rfl

/-- No arguments follow. -/
theorem callSuffix_none (hnone : NoWord "(" words) :
    Reads (callSuffix nested node) words (· = node) words :=
  ifFalse (nextIs _ _) (nextIs_false hnone) (pure rfl)

/-- Arguments follow, and no member of the call. -/
theorem callSuffix_call {arguments : List Node}
    (harguments : Reads (TokenStream.delimited "(" ")" "," nested.expression)
      (⟨.operator, "("⟩ :: before) (· = arguments) after) (hnone : NoWord "." after) :
    Reads (callSuffix nested node) (⟨.operator, "("⟩ :: before) (· = .call node none arguments)
      after := by
  refine ifTrue (nextIs _ _) rfl ?_
  refine harguments.result ?_
  exact ifFalse (nextIs _ _) (nextIs_false hnone) (pure rfl)

/-- Arguments follow, and members of the call. -/
theorem callSuffix_chain {arguments : List Node} {chain result : Node}
    (harguments : Reads (TokenStream.delimited "(" ")" "," nested.expression)
      (⟨.operator, "("⟩ :: before) (· = arguments) (⟨.operator, "."⟩ :: middle))
    (hchain : Reads nested.atom middle (· = chain) after)
    (hattach : Node.attach (.call node none arguments) chain = .ok result) :
    Reads (callSuffix nested node) (⟨.operator, "("⟩ :: before) (· = result) after := by
  refine ifTrue (nextIs _ _) rfl ?_
  refine harguments.result ?_
  refine ifTrue (nextIs _ _) rfl ?_
  refine (advance _).bind fun dot _ => ?_
  refine hchain.result ?_
  exact attached hattach

end Reads
end Workshop

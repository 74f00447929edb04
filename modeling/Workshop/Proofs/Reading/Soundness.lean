import Workshop.Proofs.Reading.Derivations
import Workshop.Proofs.Reading.Termination

/-!
# Readings have derivations

Whenever a reader succeeds, the words that it has taken form a phrase of the
grammar, which stands for its result.

Main definitions:

- `Yields`: what is known of the words that a reader has taken, of its result,
  and of the word that comes next.

Main results:

- Theorem `Yields.bind`: one reader after another.
- Theorem `YieldsPhrases.recursive`: atoms and expressions have derivations.
- Theorem `derivesScript_of_parse`: every script that is read has a derivation.
-/

namespace Workshop

open TokenStream Grammar

variable {α β : Type} {bound : Nat}

/-- What holds when a reader succeeds on fewer than `bound` words: of its result, the words that it
has taken, and the word that comes next. -/
def Yields (bound : Nat) (parse : Parse α) (post : α → List Word → Option Word → Prop) : Prop :=
  ∀ ⦃stream : TokenStream⦄ ⦃words : List Word⦄, Holds stream words → words.length < bound →
    ∀ ⦃a rest⦄, parse stream = .ok a rest →
      ∃ taken left, words = taken ++ left ∧ Holds rest left ∧ post a taken left.head?

namespace Yields

variable {parse yes no : Parse α} {middle post : α → List Word → Option Word → Prop}
  {next : α → Parse β} {kind : TokenKind} {text expected : String}

/-! ## Composition -/

/-- Fewer words than a reader is good for. -/
theorem mono {bound' : Nat} (hparse : Yields bound parse post) (hle : bound' ≤ bound) :
    Yields bound' parse post :=
  fun _ _ hstream hlength => hparse hstream (by omega)

/-- No words are fewer than none. -/
theorem zero : Yields 0 parse post :=
  fun _ _ _ hlength => absurd hlength (Nat.not_lt_zero _)

/-- Weaker knowledge of what was taken. -/
theorem imp (hparse : Yields bound parse middle)
    (himp : ∀ a taken next, middle a taken next → post a taken next) :
    Yields bound parse post := by
  intro stream words hstream hlength a rest hrun
  rcases hparse hstream hlength hrun with ⟨taken, left, hwords, hrest, ha⟩
  exact ⟨taken, left, hwords, hrest, himp a taken _ ha⟩

/-- A result that takes no words. -/
theorem pure {a : α} (ha : ∀ next, post a [] next) : Yields bound (Pure.pure a) post := by
  intro stream words hstream _ b rest hrun
  cases hrun
  exact ⟨[], words, rfl, hstream, ha _⟩

/-- A failure takes nothing. -/
theorem throw (diagnostic : Diagnostic) :
    Yields bound (MonadExcept.throw diagnostic : Parse α) post := by
  intro stream words _ _ a rest hrun
  cases hrun

/-- One reader after another.  Fewer words are left for the second one. -/
theorem bindWithin {bound' : Nat} {post : β → List Word → Option Word → Prop}
    (hparse : Yields bound parse middle)
    (hbound : ∀ a taken follower, middle a taken follower → bound ≤ bound' + taken.length)
    (hnext : ∀ a taken follower, middle a taken follower → Yields bound' (next a)
      fun b taken' follower' => firstOf taken' follower' = follower →
        post b (taken ++ taken') follower') : Yields bound (parse >>= next) post := by
  intro stream words hstream hlength b last hrun
  rcases Parse.bind_eq_ok.1 hrun with ⟨a, rest, hfirst, hsecond⟩
  rcases hparse hstream hlength hfirst with ⟨taken, left, rfl, hrest, ha⟩
  have hfewer : left.length < bound' := by
    have hle := hbound a taken _ ha
    rw [List.length_append] at hlength
    omega
  rcases hnext a taken _ ha hrest hfewer hsecond with ⟨taken', left', rfl, hlast, hb⟩
  refine ⟨taken ++ taken', left', (List.append_assoc _ _ _).symm, hlast, hb ?_⟩
  rw [head?_append_eq_firstOf]

/-- One reader after another, with the same bound. -/
theorem bind {post : β → List Word → Option Word → Prop} (hparse : Yields bound parse middle)
    (hnext : ∀ a taken follower, middle a taken follower → Yields bound (next a)
      fun b taken' follower' => firstOf taken' follower' = follower →
        post b (taken ++ taken') follower') : Yields bound (parse >>= next) post :=
  hparse.bindWithin (fun _ taken _ _ => Nat.le_add_right bound taken.length) hnext

/-- After a reader that has taken a word, one word fewer is left. -/
theorem step {post : β → List Word → Option Word → Prop} (hparse : Yields (bound + 1) parse middle)
    (htaken : ∀ a taken follower, middle a taken follower → taken ≠ [])
    (hnext : ∀ a taken follower, middle a taken follower → Yields bound (next a)
      fun b taken' follower' => firstOf taken' follower' = follower →
        post b (taken ++ taken') follower') : Yields (bound + 1) (parse >>= next) post := by
  refine hparse.bindWithin (fun a taken follower ha => ?_) hnext
  have hsome := List.length_pos_iff.2 (htaken a taken follower ha)
  omega

/-- A result that does not matter. -/
theorem discard (hparse : Yields bound parse post) :
    Yields bound (Functor.discard parse) fun _ taken next => ∃ a, post a taken next := by
  intro stream words hstream hlength b rest hrun
  simp only [Functor.discard, Functor.mapConst, Function.comp_apply, EStateM.map,
    Function.const] at hrun
  cases hfirst : parse stream with
  | error diagnostic rest =>
      rw [hfirst] at hrun
      cases hrun
  | ok a rest =>
      rw [hfirst] at hrun
      cases hrun
      rcases hparse hstream hlength hfirst with ⟨taken, left, hwords, hrest, ha⟩
      exact ⟨taken, left, hwords, hrest, a, ha⟩

section Required

variable {word : Word} {next : PUnit → Parse β} {post : β → List Word → Option Word → Prop}

/-- A word that is required, and a reader behind it. -/
theorem bindWord (hparse : Yields bound parse fun _ taken _ => taken = [word])
    (hnext : Yields bound (next ⟨⟩) fun b taken follower => post b (word :: taken) follower) :
    Yields bound (Functor.discard parse >>= next) post := by
  apply hparse.discard.bind
  rintro _ _ _ ⟨_, rfl⟩
  exact hnext.imp fun b taken follower hb _ => hb

/-- A required word leaves one word fewer. -/
theorem stepWord (hparse : Yields (bound + 1) parse fun _ taken _ => taken = [word])
    (hnext : Yields bound (next ⟨⟩) fun b taken follower => post b (word :: taken) follower) :
    Yields (bound + 1) (Functor.discard parse >>= next) post := by
  apply hparse.discard.step
  · rintro _ _ _ ⟨_, rfl⟩
    exact List.cons_ne_nil _ _
  · rintro _ _ _ ⟨_, rfl⟩
    exact hnext.imp fun b taken follower hb _ => hb

end Required

/-- Readers that depend on the number of words that are left. -/
theorem get {next : TokenStream → Parse α}
    (hnext : ∀ stream : TokenStream, stream.ahead.length < bound →
      Yields (stream.ahead.length + 1) (next stream) post) :
    Yields bound (MonadState.get >>= next) post := by
  intro stream words hstream hlength a rest hrun
  have hcount : stream.ahead.length = words.length := by rw [← hstream.ahead, List.length_map]
  exact hnext stream (by omega) hstream (by omega) hrun

/-- A choice between readers that does not look at the words. -/
theorem ifThen {condition : Bool} (hyes : condition = true → Yields bound yes post)
    (hno : condition = false → Yields bound no post) :
    Yields bound (if condition then yes else no) post := by
  cases condition with
  | true => exact hyes rfl
  | false => exact hno rfl

/-! ## Single words -/

/-- Looking takes nothing. -/
theorem peek : Yields bound TokenStream.peek fun token taken next =>
    taken = [] ∧ token.map Token.word = next := by
  intro stream words hstream _ token rest hrun
  rcases stream with ⟨ahead, fault, probed, finish⟩
  rcases hstream with ⟨rfl, rfl⟩
  cases ahead with
  | nil =>
      cases hrun
      exact ⟨[], [], rfl, ⟨rfl, rfl⟩, rfl, rfl⟩
  | cons first others =>
      cases hrun
      exact ⟨[], (first :: others).map Token.word, rfl, ⟨rfl, rfl⟩, rfl, rfl⟩

/-- One word is taken. -/
theorem advance (expected : String) :
    Yields bound (TokenStream.advance expected) fun token taken _ => taken = [token.word] := by
  intro stream words hstream _ token rest hrun
  rcases stream with ⟨ahead, fault, probed, finish⟩
  rcases hstream with ⟨rfl, rfl⟩
  cases ahead with
  | nil => cases hrun
  | cons first others =>
      cases hrun
      exact ⟨[token.word], others.map Token.word, rfl, ⟨rfl, rfl⟩, rfl⟩

/-- A test of the next word. -/
theorem peekTest (test : Word → Bool) {parse : Parse Bool} (hparse : parse = do
      match ← TokenStream.peek with
      | some token => Pure.pure (test token.word)
      | none => Pure.pure false) :
    Yields bound parse fun answer taken next => taken = [] ∧ answer = next.any test := by
  subst hparse
  apply peek.bind
  rintro token _ _ ⟨rfl, rfl⟩
  cases token with
  | none =>
      apply pure
      rintro _ rfl
      exact ⟨rfl, rfl⟩
  | some token =>
      apply pure
      rintro _ rfl
      exact ⟨rfl, rfl⟩

/-- A test for kind and text. -/
theorem nextIs (kind : TokenKind) (accepted : List String) :
    Yields bound (TokenStream.nextIs kind accepted) fun answer taken next =>
      taken = [] ∧ answer = next.any fun word =>
        word.kind == kind && accepted.contains word.text :=
  peekTest (fun word => word.kind == kind && accepted.contains word.text) rfl

/-- A test for the kind. -/
theorem nextHasKind (kind : TokenKind) :
    Yields bound (TokenStream.nextHasKind kind) fun answer taken next =>
      taken = [] ∧ answer = next.any fun word => word.kind == kind :=
  peekTest (fun word => word.kind == kind) rfl

/-- A test for the end. -/
theorem atEnd : Yields bound TokenStream.atEnd fun answer taken next =>
    taken = [] ∧ answer = next.isNone := by
  apply peek.bind
  rintro token _ _ ⟨rfl, rfl⟩
  apply pure
  rintro _ rfl
  exact ⟨rfl, by simp⟩

/-- Readers behind a test. -/
theorem ifThenElse {test : Parse Bool} {answer : Option Word → Bool}
    (htest : Yields bound test fun found taken next => taken = [] ∧ found = answer next)
    (hyes : Yields bound yes fun a taken next =>
      answer (firstOf taken next) = true → post a taken next)
    (hno : Yields bound no fun a taken next =>
      answer (firstOf taken next) = false → post a taken next) :
    Yields bound (do if ← test then yes else no) post := by
  apply htest.bind
  rintro found _ follower ⟨rfl, rfl⟩
  apply ifThen
  · intro hanswer
    refine hyes.imp fun a taken next ha hfollower => ?_
    rw [List.nil_append]
    exact ha (by rw [hfollower, hanswer])
  · intro hanswer
    refine hno.imp fun a taken next ha hfollower => ?_
    rw [List.nil_append]
    exact ha (by rw [hfollower, hanswer])

/-- A word of a kind, with one of some texts. -/
theorem expect (kind : TokenKind) (accepted : List String) :
    Yields bound (TokenStream.expect kind accepted) fun token taken _ =>
      taken = [token.word] ∧ token.kind = kind ∧ token.text ∈ accepted := by
  apply (advance _).bind
  rintro token _ _ rfl
  apply ifThen
  · intro haccepted
    apply pure
    intro _ _
    simpa using haccepted
  · intro _
    exact throw _

/-- The only word that is accepted. -/
theorem expectWord (kind : TokenKind) (text : String) :
    Yields bound (TokenStream.expect kind [text]) fun _ taken _ => taken = [⟨kind, text⟩] := by
  refine (expect kind [text]).imp ?_
  rintro token taken _ ⟨rfl, hkind, htext⟩
  rw [Token.word, hkind, List.mem_singleton.1 htext]

/-- The operator is taken. -/
theorem expectOperator (text : String) :
    Yields bound (TokenStream.expectOperator text) fun _ taken _ => taken = [.operator text] :=
  expectWord .operator text

/-- A name is taken. -/
theorem expectIdentifier : Yields bound TokenStream.expectIdentifier fun token taken _ =>
    taken = [.name token.text] := by
  apply (advance _).bind
  rintro token _ _ rfl
  apply ifThen
  · intro hkind
    apply pure
    intro _ _
    simpa [Token.word] using hkind
  · intro _
    exact throw _

/-- The semicolon is taken. -/
theorem expectSemicolon :
    Yields bound TokenStream.expectSemicolon fun _ taken _ => taken = [.operator ";"] := by
  apply (advance _).bind
  rintro token _ _ rfl
  apply ifThen
  · intro his
    apply pure
    intro _ _
    rcases Token.is_iff.1 his with ⟨hkind, htext⟩
    simp [Token.word, hkind, htext]
  · intro _
    exact throw _

/-- Readers behind a test for one word. -/
theorem ifNext (hyes : Yields bound yes fun a taken next =>
      firstOf taken next = some ⟨kind, text⟩ → post a taken next)
    (hno : Yields bound no fun a taken next =>
      firstOf taken next ≠ some ⟨kind, text⟩ → post a taken next) :
    Yields bound (do if ← TokenStream.nextIs kind [text] then yes else no) post := by
  refine ifThenElse (nextIs kind [text]) (hyes.imp ?_) (hno.imp ?_)
  · intro a taken next ha hanswer
    exact ha (any_word_iff.1 hanswer)
  · intro a taken next ha hanswer
    apply ha
    rw [ne_eq, ← any_word_iff, hanswer]
    exact Bool.false_ne_true

/-- Readers behind a test for one word, which is taken if it is there. -/
theorem ifNextTake {yes : Token → Parse α}
    (hyes : ∀ token, Yields bound (yes token) fun a taken next =>
      post a (⟨kind, text⟩ :: taken) next) (hno : Yields bound no fun a taken next =>
      firstOf taken next ≠ some ⟨kind, text⟩ → post a taken next) :
    Yields bound (do
      if ← TokenStream.nextIs kind [text] then
        let token ← TokenStream.advance expected
        yes token
      else no) post := by
  apply ifNext _ hno
  apply (advance expected).bind
  rintro token _ _ rfl
  refine (hyes token).imp fun a taken next ha _ hfirst => ?_
  have hword : token.word = ⟨kind, text⟩ := Option.some.inj hfirst
  rw [hword]
  exact ha

/-- The same for a word that is not looked at again. -/
theorem ifNextSkip (hyes : Yields bound yes fun a taken next => post a (⟨kind, text⟩ :: taken) next)
    (hno : Yields bound no fun a taken next =>
      firstOf taken next ≠ some ⟨kind, text⟩ → post a taken next) :
    Yields bound (do
      if ← TokenStream.nextIs kind [text] then
        Functor.discard (TokenStream.advance expected)
        yes
      else no) post := by
  apply ifNext _ hno
  apply (advance expected).discard.bind
  rintro _ _ _ ⟨token, rfl⟩
  refine hyes.imp fun a taken next ha _ hfirst => ?_
  have hword : token.word = ⟨kind, text⟩ := Option.some.inj hfirst
  rw [hword]
  exact ha

end Yields

/-! ## Lists -/

/-- The rules by which lists are made of items. -/
structure ListRules (closing separator : String) (Item : α → List Word → Option Word → Prop)
    (Items : Bool → List α → List Word → Option Word → Prop) : Prop where
  ne_nil : ∀ {a words next}, Item a words next → words ≠ []
  noItems : ∀ {isFirst next}, Items isFirst [] [.operator closing] next
  lastSeparator : ∀ {next}, Items false [] [.operator separator, .operator closing] next
  firstItem : ∀ {a others words words' next}, Item a words (firstOf words' next) →
    words.head? ≠ some (.operator closing) → Items false others words' next →
    Items true (a :: others) (words ++ words') next
  nextItem : ∀ {a others words words' next}, Item a words (firstOf words' next) →
    words.head? ≠ some (.operator closing) → Items false others words' next →
    Items false (a :: others) (.operator separator :: (words ++ words')) next

namespace ListRules

variable {closing separator : String} {Item : α → List Word → Option Word → Prop}
  {Items : Bool → List α → List Word → Option Word → Prop} {element : Parse α}

variable (hrules : ListRules closing separator Item Items)

include hrules

/-- The items up to the closing bracket, behind the separator if there is one. -/
theorem item (helement : Yields (bound + 1) element Item) {fuel : Nat}
    (hothers : Yields bound (elements closing separator element fuel false)
      fun others taken follower => follower = some (.operator closing) →
        ∀ next, Items false others (taken ++ [.operator closing]) next) :
    Yields (bound + 1) (elementsFrom closing separator element fuel)
      fun items taken follower => follower = some (.operator closing) → ∀ next,
        (items = [] ∧ taken = []) ∨ ∃ a others words words', items = a :: others ∧
          taken ++ [.operator closing] = words ++ words' ∧ Item a words (firstOf words' next) ∧
          words.head? ≠ some (.operator closing) ∧ Items false others words' next := by
  apply Yields.ifNext
  · apply Yields.pure
    intro _ _ _ _
    exact .inl ⟨rfl, rfl⟩
  · apply helement.step fun _ _ _ => hrules.ne_nil
    intro a words follower ha
    apply hothers.bind
    intro others taken follower' hitems
    apply Yields.pure
    intro next hnext hfollower hopen hclosing next'
    rw [firstOf_nil] at hnext
    rw [List.append_nil, hclosing] at hfollower
    refine .inr ⟨a, others, words, taken ++ [.operator closing], rfl, by simp, ?_, ?_, ?_⟩
    · rw [firstOf_append, firstOf_cons, hfollower]
      exact ha
    · rcases List.exists_cons_of_ne_nil (hrules.ne_nil ha) with ⟨word, more, rfl⟩
      exact hopen
    · exact hitems (hnext ▸ hclosing) next'

/-- The items of a list, in front of the closing bracket. -/
theorem elements (helement : Yields bound element Item) {fuel : Nat} (hfuel : bound ≤ fuel)
    (isFirst : Bool) :
    Yields bound (TokenStream.elements closing separator element fuel isFirst)
      fun items taken follower => follower = some (.operator closing) →
        ∀ next, Items isFirst items (taken ++ [.operator closing]) next := by
  induction fuel generalizing bound isFirst with
  | zero => exact Yields.zero.mono hfuel
  | succ fuel ih =>
      cases bound with
      | zero => exact Yields.zero
      | succ bound =>
          have hitem := hrules.item helement
            (ih (helement.mono (Nat.le_succ _)) (Nat.le_of_succ_le_succ hfuel) false)
          apply Yields.ifThenElse Yields.atEnd
          · apply Yields.pure
            intro follower hend hclosing
            rw [firstOf_nil, hclosing] at hend
            cases hend
          · apply Yields.ifNext
            · apply Yields.pure
              intro _ _ _ _ _
              exact hrules.noItems
            · cases isFirst with
              | true =>
                  refine hitem.imp fun items taken follower hcases _ _ hclosing next => ?_
                  rcases hcases hclosing next with
                    ⟨rfl, rfl⟩ | ⟨a, others, words, words', rfl, hwords, ha, hopen, hothers⟩
                  · exact hrules.noItems
                  · rw [hwords]
                    exact hrules.firstItem ha hopen hothers
              | false =>
                  apply (Yields.expectOperator separator).bindWord
                  refine hitem.imp fun items taken follower hcases _ _ hclosing next => ?_
                  rcases hcases hclosing next with
                    ⟨rfl, rfl⟩ | ⟨a, others, words, words', rfl, hwords, ha, hopen, hothers⟩
                  · exact hrules.lastSeparator
                  · rw [List.cons_append, hwords]
                    exact hrules.nextItem ha hopen hothers

/-- A list with its brackets. -/
theorem delimited (helement : Yields bound element Item) (opening : String) :
    Yields (bound + 1) (TokenStream.delimited opening closing separator element)
      fun items taken next => ∃ words, taken = .operator opening :: words ∧
        Items true items words next := by
  apply (Yields.expectOperator opening).stepWord
  apply Yields.get
  intro stream hlength
  apply (hrules.elements (helement.mono hlength) (Nat.le_refl _) true).bind
  intro items taken follower hitems
  apply (Yields.expectOperator closing).bindWord
  apply Yields.pure
  intro next hfollower
  exact ⟨taken ++ [.operator closing], rfl, hitems hfollower.symm next⟩

end ListRules

/-- The lists of the grammar. -/
theorem listRules_items (closing separator : String) :
    ListRules closing separator (fun node => Derivable (.expression node))
      (fun isFirst nodes => Derivable (.items closing separator isFirst nodes)) where
  ne_nil := fun ⟨_, h⟩ => h.ne_nil trivial
  noItems := ⟨_, .noItems⟩
  lastSeparator := ⟨_, .lastSeparator⟩
  firstItem := fun ⟨_, h⟩ _ ⟨_, h'⟩ => ⟨_, .firstItem h h'⟩
  nextItem := fun ⟨_, h⟩ _ ⟨_, h'⟩ => ⟨_, .nextItem h h'⟩

/-- The arguments of an event. -/
theorem listRules_eventWords :
    ListRules ")" "," (fun (token : Token) words _ => words = [token.word])
      (fun isFirst _ words _ => EventWords isFirst words) where
  ne_nil := by
    rintro token _ _ rfl
    exact List.cons_ne_nil _ _
  noItems := .closed _
  lastSeparator := .trailing
  firstItem := by
    rintro token others _ words' next rfl hopen hothers
    exact .first (fun hclosing => hopen (congrArg some hclosing)) hothers
  nextItem := by
    rintro token others _ words' next rfl hopen hothers
    exact .next (fun hclosing => hopen (congrArg some hclosing)) hothers

/-! ## Operators -/

/-- An operator is the next word, or the next word is none. -/
theorem Yields.nextOperator : Yields bound nextOperator fun operator taken next =>
    taken = [] ∧ (∀ found ∈ operator, next = some (.operator found.symbol)) ∧
      (operator = none → ∀ word ∈ next, word.IsNoOperator) := by
  apply Yields.peek.bind
  rintro token _ _ ⟨rfl, rfl⟩
  cases token with
  | none =>
      apply Yields.pure
      rintro _ rfl
      simp
  | some token =>
      apply Yields.pure
      rintro _ rfl
      refine ⟨rfl, ?_, ?_⟩
      · intro found hfound
        split at hfound
        · rename_i hkind
          rw [Option.mem_def, BinaryOperator.ofSymbol?_eq_some_iff] at hfound
          simp_all [Token.word]
        · cases hfound
      · intro hnone word hword hkind
        cases hword
        rw [if_pos (by simpa [Token.word] using hkind)] at hnone
        exact hnone

/-- Every operator is a token, so that more rounds than tokens are not needed. -/
theorem Yields.operatorTail {atom : Parse Node}
    (hatom : Yields bound atom fun node => Derivable (.atom node)) {fuel : Nat}
    (hfuel : bound ≤ fuel) :
    Yields bound (operatorTail atom fuel) fun links taken next =>
      (∀ word ∈ next, word.IsNoOperator) ∧ DerivesLinks links taken next := by
  induction fuel generalizing bound with
  | zero => exact Yields.zero.mono hfuel
  | succ fuel ih =>
      cases bound with
      | zero => exact Yields.zero
      | succ bound =>
          apply Yields.nextOperator.bind
          rintro operator _ follower ⟨rfl, hsome, hnone⟩
          cases operator with
          | none =>
              apply Yields.pure
              rintro _ rfl
              exact ⟨hnone rfl, .nil⟩
          | some operator =>
              apply (Yields.advance _).discard.step
              · rintro _ _ _ ⟨_, rfl⟩
                exact List.cons_ne_nil _ _
              · rintro _ _ _ ⟨token, rfl⟩
                apply (hatom.mono (Nat.le_succ _)).bind
                intro right words _ hright
                apply (ih (hatom.mono (Nat.le_succ _)) (Nat.le_of_succ_le_succ hfuel)).bind
                rintro links taken _ ⟨hends, hlinks⟩
                apply Yields.pure
                rintro _ rfl hfollower _ hfirst
                rw [List.append_nil] at hfollower ⊢
                subst hfollower
                have hword : token.word = .operator operator.symbol := by
                  rw [hsome operator rfl] at hfirst
                  exact Option.some.inj hfirst
                refine ⟨hends, ?_⟩
                rw [hword, List.nil_append, List.singleton_append]
                exact .cons hright hlinks

/-- Operands with operators between them. -/
theorem Yields.operation {atom : Parse Node}
    (hatom : Yields bound atom fun node => Derivable (.atom node)) :
    Yields bound (operation atom) fun node => Derivable (.operation node) := by
  apply hatom.bind
  intro first words _ hfirst
  apply Yields.get
  intro stream hlength
  apply (Yields.operatorTail (hatom.mono hlength) (Nat.le_refl _)).bind
  rintro links taken _ ⟨hends, hlinks⟩
  apply Yields.pure
  rintro next rfl hfollower
  rw [List.append_nil] at hfollower ⊢
  subst hfollower
  have hchain := OperatorTree.inOrder_ofChain first links
  rcases (OperatorTree.isOrdered_ofChain first links).derivable hchain hfirst hlinks with
    ⟨sites, h⟩
  exact ⟨sites, .operation h hends⟩

/-! ## Phrases -/

/-- The readers of nested phrases take phrases of the grammar. -/
structure YieldsPhrases (bound : Nat) (nested : Level) : Prop where
  atom : Yields bound nested.atom fun node => Derivable (.atom node)
  expression : Yields bound nested.expression fun node => Derivable (.expression node)

namespace YieldsPhrases

variable {nested : Level}

/-- The receiver could be attached. -/
theorem attached {receiver chain : Node} {dot : Token} :
    Yields bound (Grammar.attached receiver dot chain) fun result taken _ =>
      taken = [] ∧ Node.attach receiver chain = .ok result := by
  unfold Grammar.attached
  cases hattach : Node.attach receiver chain with
  | ok result => exact Yields.pure fun _ => ⟨rfl, rfl⟩
  | error culprit => exact Yields.throw _

variable (hnested : YieldsPhrases bound nested)

include hnested

/-- What may stand behind a phrase. -/
theorem callSuffix (head : Node) :
    Yields (bound + 1) (callSuffix nested head) fun node => Derivable (.suffix head node) := by
  apply Yields.ifNext
  · apply ((listRules_items ")" ",").delimited hnested.expression "(").step
    · rintro _ _ _ ⟨words, rfl, _⟩
      exact List.cons_ne_nil _ _
    rintro arguments _ _ ⟨words, rfl, sites, hwords⟩
    apply Yields.ifNextTake
    · intro dot
      apply hnested.atom.bind
      rintro chain words' _ ⟨sites', hwords'⟩
      apply attached.imp
      rintro result _ next ⟨rfl, hattach⟩ rfl rfl _
      exact (Derives.callMember hwords hwords' hattach).of_words (by simp)
    · apply Yields.pure
      rintro next hdot rfl _
      exact (Derives.call hwords hdot).of_words (by simp)
  · apply Yields.pure
    intro next hnext
    exact ⟨_, .noSuffix hnext⟩

/-! ## Names -/

/-- An assignment behind its target. -/
theorem assignment (target : Token) :
    Yields bound (assignment nested target) fun node taken next =>
      Derivable (.primary node) (target.word :: taken) next := by
  apply (Yields.expectOperator "=").bindWord
  apply Yields.ifThen
  · intro hkind
    apply (Yields.operation hnested.atom).bind
    rintro value words _ ⟨sites, hwords⟩
    apply Yields.pure
    rintro next rfl
    have htarget : target.word = .name target.text := by simpa [Token.word] using hkind
    exact (Derives.assign hwords).of_words (by simp [htarget])
  · intro _
    exact Yields.throw _

omit hnested in
/-- A keyword that can be a member is the next word. -/
theorem nextKeywordMember : Yields bound nextKeywordMember fun member taken next =>
    taken = [] ∧ (∀ text ∈ member, text ≠ "player" ∧ next = some (.keyword text)) ∧
      (member = none → ∀ word ∈ next, word.kind = .keyword → word.text = "player") := by
  apply Yields.peek.bind
  rintro token _ _ ⟨rfl, rfl⟩
  cases token with
  | none =>
      apply Yields.pure
      rintro _ rfl
      simp
  | some token =>
      apply Yields.pure
      rintro _ rfl
      refine ⟨rfl, ?_, ?_⟩
      · intro text htext
        split at htext
        · rename_i hmember
          cases htext
          rw [Bool.and_eq_true, beq_iff_eq, bne_iff_ne] at hmember
          exact ⟨hmember.2, by simp [Token.word, hmember.1]⟩
        · cases htext
      · intro hnone word hword hkind
        cases hword
        split at hnone
        · cases hnone
        · rename_i hmember
          by_contra htext
          exact hmember (by simpa [Token.word] using ⟨hkind, htext⟩)

/-- A name with what stands behind its dot. -/
theorem memberOf {word : Word} {node : Node} (hname : NameWord word node) (dot : Token) :
    Yields bound (memberOf nested node dot) fun result taken next =>
      Derivable (.primary result) (word :: .operator "." :: taken) next := by
  have hchain : Yields bound (do let chain ← nested.atom; Grammar.attached node dot chain)
      fun result taken next => (∀ other ∈ firstOf taken next, node ≠ .player →
        other.kind = .keyword → other.text = "player") →
        Derivable (.primary result) (word :: .operator "." :: taken) next := by
    apply hnested.atom.bind
    rintro chain words _ ⟨sites, hwords⟩
    apply attached.imp
    rintro result _ next ⟨rfl, hattach⟩ rfl hkeyword
    rw [List.append_nil] at hkeyword ⊢
    refine ⟨_, .member hname hwords ?_ hattach⟩
    rcases List.exists_cons_of_ne_nil (hwords.ne_nil trivial) with ⟨first, others, rfl⟩
    exact hkeyword
  cases hname with
  | player => exact hchain.imp fun _ _ _ h => h fun _ _ hplayer => absurd rfl hplayer
  | name text =>
      apply nextKeywordMember.bind
      rintro member _ _ ⟨rfl, hsome, hnone⟩
      cases member with
      | none =>
          refine hchain.imp fun result taken next h hfollower => ?_
          rw [List.nil_append]
          apply h
          rw [hfollower]
          exact fun other hother _ => hnone rfl other hother
      | some member =>
          rcases hsome member rfl with ⟨hplayer, rfl⟩
          apply (Yields.advance _).discard.bind
          rintro _ _ _ ⟨token, rfl⟩
          apply Yields.pure
          intro next _ hfollower
          have htoken : token.word = .keyword member := Option.some.inj hfollower
          exact (Derives.enumMember hplayer).of_words (by simp [htoken])

omit hnested in
/-- A token that stands for a name. -/
theorem nameOf (token : Token) : Yields bound (nameOf token) fun node taken _ =>
    taken = [] ∧ NameWord token.word node := by
  apply Yields.ifThen
  · intro hkind
    refine Yields.pure fun _ => ⟨rfl, ?_⟩
    have hword : token.word = .name token.text := by simpa [Token.word] using hkind
    rw [hword]
    exact .name token.text
  · intro _
    apply Yields.ifThen
    · intro his
      refine Yields.pure fun _ => ⟨rfl, ?_⟩
      rcases Token.is_iff.1 his with ⟨hkind, htext⟩
      rw [Token.word, hkind, htext]
      exact .player
    · intro _
      exact Yields.throw _

/-- A phrase that starts with a name, and is no declaration. -/
theorem named (leading : Token) :
    Yields bound (named nested leading) fun node taken next =>
      (∀ other ∈ firstOf taken next, other.kind ≠ .identifier ∧ other ≠ .keyword "player") →
        Derivable (.primary node) (leading.word :: taken) next := by
  apply Yields.ifNext
  · exact (hnested.assignment leading).imp fun _ _ _ h _ _ => h
  · apply (nameOf leading).bind
    rintro node _ _ ⟨rfl, hname⟩
    apply Yields.ifNextTake
    · intro dot
      exact (hnested.memberOf hname dot).imp fun _ _ _ h _ _ _ => h
    · apply Yields.pure
      intro next hdot _ hequals hends
      rw [firstOf_nil] at hdot
      rw [List.append_nil, firstOf_nil] at hequals hends
      refine ⟨_, .name hname fun other hother => ⟨(hends other hother).1, (hends other hother).2,
        ?_, ?_⟩⟩
      · rintro rfl
        exact hequals hother
      · rintro rfl
        exact hdot hother

/-! ## Declarations -/

/-- A declaration behind its type. -/
theorem declaration (typeName : Token) :
    Yields bound (declaration nested typeName) fun node taken next =>
      StartsWorded typeName.word → Derivable (.primary node) (typeName.word :: taken) next := by
  have hdeclared (perPlayer : Bool) : Yields bound (do
        let name ← TokenStream.expectIdentifier
        declarationEnd nested typeName.text name.text perPlayer)
      fun node taken next => StartsWorded typeName.word →
        Derivable (.primary node) (typeName.word ::
          ((if perPlayer then [.keyword "player", .operator "."] else []) ++ taken)) next := by
    apply Yields.expectIdentifier.bind
    rintro name _ _ rfl
    apply Yields.ifNextSkip
    · apply (Yields.operation hnested.atom).bind
      rintro value words _ ⟨sites, hwords⟩
      apply Yields.pure
      rintro next rfl _ htype
      exact (Derives.declareInitial htype hwords).of_words (by simp [declared])
    · apply Yields.pure
      intro next hequals _ htype
      exact (Derives.declare htype hequals).of_words (by simp [declared])
  apply (Yields.nextIs _ _).bind
  rintro perPlayer _ _ ⟨rfl, hplayer⟩
  cases perPlayer with
  | false => exact (hdeclared false).imp fun _ _ _ h _ => h
  | true =>
      rw [eq_comm, any_word_iff] at hplayer
      subst hplayer
      apply (Yields.advance _).discard.bind
      rintro _ _ _ ⟨player, rfl⟩
      apply (Yields.expectOperator ".").bindWord
      refine (hdeclared true).imp ?_
      rintro node taken next h _ hplayer
      have hword : player.word = .keyword "player" := Option.some.inj hplayer
      rw [List.nil_append, hword]
      exact h

/-- A declaration, or a phrase that starts with a name. -/
theorem worded {word : Word} (hword : StartsWorded word) :
    Yields (bound + 1) (worded nested) fun node taken next =>
      firstOf taken next = some word → Derivable (.primary node) taken next := by
  apply (Yields.advance _).step
  · rintro _ _ _ rfl
    exact List.cons_ne_nil _ _
  rintro leading _ _ rfl
  have hstarts {first : Option Word} (hfirst : firstOf [leading.word] first = some word) :
      StartsWorded leading.word := by
    rw [Option.some.inj hfirst]
    exact hword
  apply Yields.ifThenElse (Yields.nextHasKind _)
  · refine (hnested.declaration leading).imp fun _ _ _ h _ _ hfirst => h ?_
    rw [firstOf_append] at hfirst
    exact hstarts hfirst
  · apply Yields.ifNext
    · refine (hnested.declaration leading).imp fun _ _ _ h _ _ _ hfirst => h ?_
      rw [firstOf_append] at hfirst
      exact hstarts hfirst
    · refine (hnested.named leading).imp fun node taken next h hplayer hidentifier _ _ => ?_
      refine h fun other hother => ⟨?_, ?_⟩
      · intro hkind
        rw [hother] at hidentifier
        simp [hkind] at hidentifier
      · rintro rfl
        exact hplayer hother

/-! ## Keywords and brackets -/

/-- Choices are derived. -/
theorem choice : Yields (bound + 1) (choice nested) fun node => Derivable (.primary node) := by
  apply (Yields.expectWord .keyword "if").stepWord
  apply hnested.expression.bind
  rintro condition words _ ⟨sites, hwords⟩
  apply hnested.expression.bind
  rintro branch words' _ ⟨sites', hwords'⟩
  apply Yields.ifNextSkip
  · apply hnested.expression.bind
    rintro other words'' _ ⟨sites'', hwords''⟩
    apply Yields.pure
    rintro next rfl rfl rfl
    rw [firstOf_append] at hwords
    exact (Derives.choiceElse hwords hwords' hwords'').of_words (by simp)
  · apply Yields.pure
    rintro next helse rfl rfl
    rw [List.append_nil] at hwords
    exact (Derives.choice hwords hwords' helse).of_words (by simp)

/-- Blocks are derived. -/
theorem block : Yields (bound + 1) (block nested) fun node => Derivable (.primary node) := by
  apply ((listRules_items "\x7d" ";").delimited hnested.expression "\x7b").bind
  rintro nodes _ _ ⟨words, rfl, sites, hwords⟩
  apply Yields.pure
  rintro next rfl
  exact (Derives.block hwords).of_words (by simp)

/-- Constants are derived. -/
theorem constant : Yields (bound + 1) (constant nested) fun node => Derivable (.primary node) := by
  apply (Yields.expectWord .keyword "const").stepWord
  apply Yields.expectIdentifier.bind
  rintro name _ _ rfl
  apply (Yields.expectOperator "=").bindWord
  apply (Yields.operation hnested.atom).bind
  rintro value words _ ⟨sites, hwords⟩
  apply Yields.pure
  rintro next rfl _
  exact (Derives.constant hwords).of_words (by simp)

omit hnested in
/-- Truth values are derived. -/
theorem boolean : Yields bound boolean fun node => Derivable (.primary node) := by
  apply (Yields.expect .keyword ["true", "false"]).bind
  rintro token _ _ ⟨rfl, hkind, htext⟩
  apply Yields.pure
  intro next _
  refine (Derives.boolean : Derives _ _ next _).of_words ?_
  rcases List.mem_pair.1 htext with htext | htext
  · simp [Token.word, hkind, htext]
  · simp [Token.word, hkind, htext]

/-- Negations are derived. -/
theorem negation : Yields (bound + 1) (negation nested) fun node => Derivable (.primary node) := by
  apply (Yields.expectOperator "!").stepWord
  apply hnested.expression.bind
  rintro operand words _ ⟨sites, hwords⟩
  apply Yields.pure
  rintro next rfl
  exact (Derives.negation hwords).of_words (by simp)

/-- Parentheses are derived. -/
theorem parenthesised :
    Yields (bound + 1) (Grammar.parenthesised nested) fun node taken next =>
      firstOf taken next = some (.operator "(") → Derivable (.primary node) taken next := by
  apply (Yields.advance _).discard.step
  · rintro _ _ _ ⟨_, rfl⟩
    exact List.cons_ne_nil _ _
  rintro _ _ _ ⟨opening, rfl⟩
  apply hnested.expression.bind
  rintro inner words _ ⟨sites, hwords⟩
  apply (Yields.expectOperator ")").bindWord
  apply Yields.pure
  rintro next rfl _ hopening
  have hword : opening.word = .operator "(" := Option.some.inj hopening
  exact (Derives.parenthesised hwords).of_words (by simp [hword])

omit hnested in
/-- A bank is named by a letter. -/
theorem name_of_bankOf? {letter : Token} {bank : Bank} (hbank : bankOf? letter = some bank) :
    letter.word = .name bank.text := by
  unfold bankOf? at hbank
  split at hbank
  · rename_i character hletters
    split at hbank
    · rename_i hkind
      have htext : letter.text = bank.text := by
        rw [Bank.text, Bank.letter_of_ofLetter? hbank, ← hletters, String.ofList_toList]
      simp [Token.word, htext, beq_iff_eq.1 hkind]
    · cases hbank
  · cases hbank

omit hnested in
/-- Choices of a bank are derived. -/
theorem useBank : Yields bound useBank fun node taken next =>
    firstOf taken next = some (.keyword "usevar") → Derivable (.primary node) taken next := by
  apply (Yields.advance _).discard.bind
  rintro _ _ _ ⟨first, rfl⟩
  apply (Yields.expect .keyword ["global", "player"]).bind
  rintro domain _ _ ⟨rfl, hkind, htext⟩
  apply (Yields.advance _).bind
  rintro letter _ _ rfl
  cases hbank : bankOf? letter with
  | none => exact Yields.throw _
  | some bank =>
      apply Yields.pure
      intro next _ _ _ hfirst
      have hword : first.word = .keyword "usevar" := Option.some.inj hfirst
      have hdomain : domain.word = .keyword domain.text := by simp [Token.word, hkind]
      refine (Derives.useBank : Derives _ _ next _).of_words ?_
      rcases List.mem_pair.1 htext with htext | htext
      · simp [hword, name_of_bankOf? hbank, hdomain, htext, Domain.keyword]
      · simp [hword, name_of_bankOf? hbank, hdomain, htext, Domain.keyword]

/-! ## Rules -/

omit hnested in
/-- The name of a rule is a text. -/
theorem ruleName : Yields bound ruleName fun name taken _ => taken = [⟨.string, name.text⟩] := by
  apply (Yields.advance _).bind
  rintro name _ _ rfl
  apply Yields.ifThen
  · intro hkind
    apply Yields.pure
    intro _ _
    simp [Token.word, beq_iff_eq.1 hkind]
  · intro _
    exact Yields.throw _

omit hnested in
/-- The event of a rule and its arguments. -/
theorem ruleEvent : Yields bound ruleEvent fun event taken _ =>
    (event.kind = .identifier ∨ event.kind = .keyword) ∧
      ∃ arguments, EventWords true arguments ∧
        taken = .name "Event" :: .operator "." :: event.word :: .operator "(" :: arguments := by
  apply (Yields.expectWord .identifier "Event").bindWord
  apply (Yields.expectOperator ".").bindWord
  apply (Yields.advance _).bind
  rintro event _ _ rfl
  apply Yields.ifThen
  · intro hkind
    have harguments : Yields (bound + 1)
        (TokenStream.delimited "(" ")" "," (TokenStream.advance "an event argument"))
        fun _ taken _ => ∃ words, taken = .operator "(" :: words ∧ EventWords true words :=
      listRules_eventWords.delimited (Yields.advance _) "("
    apply (harguments.mono (Nat.le_succ _)).discard.bind
    rintro _ _ _ ⟨_, words, rfl, hwords⟩
    apply Yields.pure
    intro _ _ _
    exact ⟨by simpa using hkind, words, hwords, by simp⟩
  · intro _
    exact Yields.throw _

/-- The conditions of a rule. -/
theorem ruleConditions :
    Yields bound (ruleConditions nested) fun conditions => Derivable (.conditions conditions) := by
  apply Yields.ifNextSkip
  · have hlist := ((listRules_items ")" ";").delimited hnested.expression "(").mono
      (Nat.le_succ _)
    apply hlist.bind
    rintro nodes _ _ ⟨words, rfl, sites, hwords⟩
    apply Yields.pure
    rintro next rfl
    exact (Derives.conditions hwords).of_words (by simp)
  · apply Yields.pure
    intro next hif
    exact ⟨_, .noConditions hif⟩

/-- Rules are derived. -/
theorem rule : Yields (bound + 1) (rule nested) fun node => Derivable (.primary node) := by
  apply (Yields.expectWord .keyword "rule").stepWord
  apply ruleName.bind
  rintro name _ _ rfl
  apply (Yields.expectOperator ":").bindWord
  apply ruleEvent.bind
  rintro event _ _ ⟨hevent, arguments, harguments, rfl⟩
  apply hnested.ruleConditions.bind
  rintro conditions words _ ⟨sites, hwords⟩
  have hlist := ((listRules_items "\x7d" ";").delimited hnested.expression "\x7b").mono
    (Nat.le_succ _)
  apply hlist.bind
  rintro actions _ _ ⟨words', rfl, sites', hwords'⟩
  apply Yields.pure
  rintro next rfl rfl _ _
  have hkind : event.word.kind = .identifier ∨ event.word.kind = .keyword := hevent
  exact (Derives.rule hkind harguments hwords hwords').of_words (by simp [ruleHeader])

/-! ## Atoms and expressions -/

omit hnested in
/-- A single word of some kind. -/
theorem literal {expected : String} {token : Token} {kind : TokenKind} {node : Node}
    (hkind : token.kind = kind)
    (hderives : ∀ next, Derives (.primary node) [⟨kind, token.text⟩] next []) :
    Yields bound (do discard (TokenStream.advance expected); pure node) fun node taken next =>
      firstOf taken next = some token.word → Derivable (.primary node) taken next := by
  apply (Yields.advance _).discard.bind
  rintro _ _ _ ⟨first, rfl⟩
  apply Yields.pure
  intro next _ hfirst
  have htoken : first.word = ⟨kind, token.text⟩ := by
    rw [Option.some.inj hfirst, Token.word, hkind]
  rw [htoken]
  exact ⟨_, hderives next⟩

/-- The phrase that a token starts. -/
theorem startingWith (token : Token) :
    Yields (bound + 1) (startingWith nested token) fun node taken next =>
      firstOf taken next = some token.word → Derivable (.primary node) taken next := by
  have hword {kind : TokenKind} {text : String} (his : token.is kind text = true) :
      token.word = ⟨kind, text⟩ := by
    rcases Token.is_iff.1 his with ⟨hkind, htext⟩
    rw [Token.word, hkind, htext]
  apply Yields.ifThen
  · intro his
    rw [hword his]
    exact hnested.parenthesised
  intro _
  apply Yields.ifThen
  · intro _
    exact hnested.block.imp fun _ _ _ h _ => h
  intro _
  apply Yields.ifThen
  · intro _
    exact hnested.choice.imp fun _ _ _ h _ => h
  intro _
  apply Yields.ifThen
  · intro _
    exact hnested.constant.imp fun _ _ _ h _ => h
  intro _
  apply Yields.ifThen
  · intro _
    exact hnested.rule.imp fun _ _ _ h _ => h
  intro _
  apply Yields.ifThen
  · intro _
    exact boolean.imp fun _ _ _ h _ => h
  intro _
  apply Yields.ifThen
  · intro _
    exact hnested.negation.imp fun _ _ _ h _ => h
  intro _
  apply Yields.ifThen
  · intro his
    rw [hword his]
    exact useBank
  intro _
  apply Yields.ifThen
  · intro hstarts
    apply hnested.worded
    rw [Bool.or_eq_true, Bool.or_eq_true, beq_iff_eq] at hstarts
    rcases hstarts with (hkind | his) | his
    · exact .inl hkind
    · exact .inr (.inl (hword his))
    · exact .inr (.inr (hword his))
  intro _
  apply Yields.ifThen
  · intro hkind
    exact literal (beq_iff_eq.1 hkind) fun _ => .number
  intro _
  apply Yields.ifThen
  · intro hkind
    exact literal (beq_iff_eq.1 hkind) fun _ => .text
  intro _
  apply (Yields.advance _).discard.bind
  intro _ _ _ _
  exact Yields.throw _

/-- Phrases without arguments behind them. -/
theorem primary : Yields (bound + 1) (primary nested) fun node => Derivable (.primary node) := by
  apply Yields.peek.bind
  rintro token _ _ ⟨rfl, rfl⟩
  cases token with
  | none => exact Yields.throw _
  | some token => exact hnested.startingWith token

/-- Atoms, one level further out. -/
theorem atom_rule :
    Yields (bound + 1) (Grammar.atom nested) fun node => Derivable (.atom node) := by
  apply hnested.primary.bind
  rintro head words _ ⟨sites, hwords⟩
  refine (hnested.callSuffix head).imp ?_
  rintro node words' next ⟨sites', hwords'⟩ rfl
  exact ⟨_, .atom hwords hwords'⟩

/-- Expressions, one level further out. -/
theorem expression_rule :
    Yields (bound + 1) (Grammar.expression nested) fun node => Derivable (.expression node) := by
  apply (Yields.operation hnested.atom_rule).bind
  rintro head words _ ⟨sites, hwords⟩
  refine (hnested.callSuffix head).imp ?_
  rintro node words' next ⟨sites', hwords'⟩ rfl
  exact ⟨_, .expression hwords hwords'⟩

omit hnested in
/-- Atoms and expressions have derivations, however deep they are nested. -/
theorem recursive (bound : Nat) : YieldsPhrases bound recursive := by
  induction bound with
  | zero => exact ⟨Yields.zero, Yields.zero⟩
  | succ bound ih =>
      rw [recursive_eq_above]
      exact ⟨ih.atom_rule, ih.expression_rule⟩

end YieldsPhrases

/-! ## Scripts -/

/-- Without words there are no statements. -/
theorem DerivesScript.eq_nil {nodes : List Node} {sites : List Site}
    (hderives : DerivesScript nodes [] sites) : nodes = [] := by
  generalize hwords : ([] : List Word) = words at hderives
  cases hderives with
  | nil => rfl
  | last h => exact absurd hwords.symm (h.ne_nil trivial)
  | cons h _ => simp at hwords

/-- The statements of a script are read to its end. -/
theorem Yields.statements {expression : Parse Node}
    (hexpression : Yields bound expression fun node => Derivable (.expression node)) {fuel : Nat}
    (hfuel : bound ≤ fuel) :
    Yields bound (statements expression fuel) fun nodes taken next =>
      next = none ∧ ∃ sites, DerivesScript nodes taken sites := by
  induction fuel generalizing bound with
  | zero => exact Yields.zero.mono hfuel
  | succ fuel ih =>
      cases bound with
      | zero => exact Yields.zero
      | succ bound =>
          have hrest := ih (hexpression.mono (Nat.le_succ _)) (Nat.le_of_succ_le_succ hfuel)
          apply Yields.ifThenElse Yields.atEnd
          · apply Yields.pure
            intro next hend
            exact ⟨Option.isNone_iff_eq_none.1 hend, _, .nil⟩
          · apply hexpression.step
            · rintro node words _ ⟨sites, hwords⟩
              exact hwords.ne_nil trivial
            rintro node words _ ⟨sites, hwords⟩
            apply Yields.ifThenElse Yields.atEnd
            · apply hrest.bind
              rintro nodes taken _ ⟨rfl, sites', hscript⟩
              apply Yields.pure
              rintro next rfl hend rfl _
              rw [List.append_nil] at hend hwords ⊢
              cases taken with
              | cons word others => cases hend
              | nil =>
                  rw [hscript.eq_nil, List.append_nil]
                  exact ⟨rfl, _, .last hwords⟩
            · apply Yields.expectSemicolon.bind
              rintro _ _ _ rfl
              apply hrest.bind
              rintro nodes taken _ ⟨rfl, sites', hscript⟩
              apply Yields.pure
              rintro next rfl _ _ rfl _
              rw [List.append_nil]
              exact ⟨rfl, _, .cons hwords hscript⟩

/-- A script is read as the statements that its words stand for, and only as these. -/
theorem derivesScript_of_parse {source : String} {tree : Node}
    (hparse : Script.parse source = .ok tree) :
    ∃ nodes sites, tree = .block nodes ∧ DerivesScript nodes (Script.words source) sites := by
  have hholds : Holds (TokenStream.ofSource .standard source) (Script.words source) :=
    ⟨rfl, Script.fault_eq_none_of_parse hparse⟩
  have hlength : (Script.words source).length <
      (TokenStream.ofSource .standard source).ahead.length + 1 := by
    rw [Script.words, List.length_map]
    exact Nat.lt_succ_self _
  rw [Script.parse, parseWith_eq_scriptOutcome, ← statements_eq_loop] at hparse
  generalize hrun : statements recursive.expression _ _ = outcome at hparse
  cases outcome with
  | error diagnostic rest => cases hparse
  | ok nodes rest =>
      cases hparse
      rcases Yields.statements (YieldsPhrases.recursive _).expression (Nat.le_refl _) hholds hlength
        hrun with ⟨taken, left, hwords, _, hend, sites, hscript⟩
      rw [List.head?_eq_none_iff] at hend
      rw [hwords, hend, List.append_nil]
      exact ⟨nodes, sites, rfl, hscript⟩

end Workshop

import Workshop.Proofs.Printing.Words
import Workshop.Script.Grammar
import Mathlib.Data.List.Forall2

/-!
# Two readers side by side

Two readers are given one token stream each.  The tokens of the streams correspond one
to one, so the readers take the same decisions and end in the same way.  This serves
two ends: one reader can be given two source texts with the same words, and two
readers can be given the same stream.  The second case is strict: even the streams
that are left are the same.

A pair of readers is described by the results that they give and by the number of
tokens that they consume.  Such descriptions compose.

Main definitions:

- `TokenStream.elementsFrom`, `Grammar.declarationEnd`: parts of the readers.
- `Pairing`: which tokens correspond to each other, and what ends them.
- `Pairing.Alike`: two streams that correspond.
- `Pairing.Agrees`: two readers that end in the same way on such streams.

Main results:

- Theorem `Pairing.Agrees.bindWith`: one reader after another.
- Theorem `Pairing.Agrees.bindPeek`: a reader that looks at the next token first.
- Theorem `Pairing.Agrees.delimited`: lists between brackets.
-/

namespace Workshop

variable {α β : Type}

/-! ## Parts of the readers -/

/-- The elements of a list from a place on where an element may stand. -/
def TokenStream.elementsFrom (closing separator : String) (element : Parse α) (fuel : Nat) :
    Parse (List α) := do
  if ← nextIs .operator [closing] then pure []
  else
    let head ← element
    let rest ← elements closing separator element fuel false
    pure (head :: rest)

/-- A declaration behind the name of the variable. -/
def Grammar.declarationEnd (nested : Level) (typeName name : String) (perPlayer : Bool) :
    Parse Node := do
  if ← TokenStream.nextIs .operator ["="] then
    discard (TokenStream.advance "'='")
    let initial ← operation nested.atom
    pure (.declare typeName name perPlayer (some initial))
  else pure (.declare typeName name perPlayer none)

/-! ## Streams that correspond -/

/-- Which tokens of two streams correspond to each other, and which faults at their ends.  Tokens
that correspond are the same word.  In a strict pairing they are the same token. -/
structure Pairing where
  token : Token → Token → Prop
  ends : Option LexFault → Option LexFault → Prop
  strict : Prop
  word_eq : ∀ {first second}, token first second → second.word = first.word
  token_eq : ∀ {first second}, strict → token first second → second = first
  isSome_eq : ∀ {first second}, ends first second → second.isSome = first.isSome

namespace Pairing

variable {pairing : Pairing} {first second : TokenStream} {token token' : Token}

/-- Two streams whose tokens correspond, as do the faults that end them. -/
structure Alike (pairing : Pairing) (first second : TokenStream) : Prop where
  ahead : List.Forall₂ pairing.token first.ahead second.ahead
  faults : pairing.ends first.fault second.fault
  same : pairing.strict → second = first

/-- The same diagnostic for two streams: the faults that end them, a problem with tokens that
correspond, or the end of both. -/
inductive Fails (pairing : Pairing) : Diagnostic → Diagnostic → Prop
  | lexical {fault fault' : LexFault} :
      pairing.ends (some fault) (some fault') → Fails pairing (.lexical fault) (.lexical fault')
  | misplaced {token token' : Token} (problem : SyntaxProblem) :
      pairing.token token token' →
      Fails pairing (.misplaced token problem) (.misplaced token' problem)
  | unexpectedEnd (expected : String) :
      pairing.ends none none → Fails pairing (.unexpectedEnd expected) (.unexpectedEnd expected)

/-- Two readings that end in the same way. -/
inductive Ends (pairing : Pairing) (after : α → α → TokenStream → TokenStream → Prop) :
    EStateM.Result Diagnostic TokenStream α → EStateM.Result Diagnostic TokenStream α → Prop
  | ok {a a' : α} {rest rest' : TokenStream} :
      after a a' rest rest' → Ends pairing after (.ok a rest) (.ok a' rest')
  | error {diagnostic diagnostic' : Diagnostic} {rest rest' : TokenStream} :
      (¬ pairing.strict → pairing.Fails diagnostic diagnostic') →
      (pairing.strict → diagnostic' = diagnostic ∧ rest' = rest) →
      Ends pairing after (.error diagnostic rest) (.error diagnostic' rest')

/-- Two readers that end in the same way on streams with fewer than `bound` tokens.  If they
succeed there, their results are related and at least `taken` tokens are consumed. -/
def Agrees (pairing : Pairing) (taken bound : Nat) (result : α → α → Prop)
    (parse parse' : Parse α) : Prop :=
  ∀ ⦃first second⦄, pairing.Alike first second → first.ahead.length < bound →
    pairing.Ends (fun a a' rest rest' => result a a' ∧ pairing.Alike rest rest' ∧
      rest.ahead.length + taken ≤ first.ahead.length) (parse first) (parse' second)

/-- Both streams end with a fault, or none of them does. -/
theorem ends_cases {fault fault' : Option LexFault} (hends : pairing.ends fault fault') :
    (fault = none ∧ fault' = none) ∨ ∃ found found', fault = some found ∧ fault' = some found' := by
  have hsome := pairing.isSome_eq hends
  cases fault with
  | none => exact .inl ⟨rfl, Option.isNone_iff_eq_none.1 (by simpa using hsome)⟩
  | some found => exact .inr ⟨found, fault'.get hsome, rfl, (Option.some_get hsome).symm⟩

/-- Tokens that correspond have the same kind. -/
theorem kind_eq (htoken : pairing.token token token') : token'.kind = token.kind :=
  Token.kind_eq (pairing.word_eq htoken)

/-- Tokens that correspond have the same text. -/
theorem text_eq (htoken : pairing.token token token') : token'.text = token.text :=
  Token.text_eq (pairing.word_eq htoken)

/-- Tokens that correspond pass the same tests. -/
theorem is_eq (htoken : pairing.token token token') (kind : TokenKind) (text : String) :
    token'.is kind text = token.is kind text := by
  rw [Token.is, Token.is, kind_eq htoken, text_eq htoken]

/-- Weaker knowledge of the results. -/
theorem Ends.imp {after after' : α → α → TokenStream → TokenStream → Prop}
    {run run' : EStateM.Result Diagnostic TokenStream α} (hends : pairing.Ends after run run')
    (himp : ∀ a a' rest rest', after a a' rest rest' → after' a a' rest rest') :
    pairing.Ends after' run run' := by
  cases hends with
  | ok hafter => exact .ok (himp _ _ _ _ hafter)
  | error hfails hsame => exact .error hfails hsame

/-! ## Composition -/

namespace Agrees

variable {taken taken' bound bound' : Nat} {result result' : α → α → Prop} {parse parse' : Parse α}
  {after : β → β → Prop} {yes no yes' no' : Parse β}

/-- Readers that are good for more tokens, or that consume more of them. -/
theorem mono (hparse : pairing.Agrees taken bound result parse parse') (htaken : taken' ≤ taken)
    (hbound : bound' ≤ bound) : pairing.Agrees taken' bound' result parse parse' := by
  intro first second halike hlength
  refine (hparse halike (by omega)).imp ?_
  rintro a a' rest rest' ⟨ha, hrest, hle⟩
  exact ⟨ha, hrest, by omega⟩

/-- No stream has fewer than no tokens. -/
theorem zero : pairing.Agrees taken 0 result parse parse' :=
  fun _ _ _ hlength => absurd hlength (Nat.not_lt_zero _)

/-- Weaker knowledge of the results. -/
theorem imp (hparse : pairing.Agrees taken bound result parse parse')
    (himp : ∀ a a', result a a' → result' a a') :
    pairing.Agrees taken bound result' parse parse' :=
  fun _ _ halike hlength => (hparse halike hlength).imp fun _ _ _ _ hrest =>
    ⟨himp _ _ hrest.1, hrest.2⟩

/-- One reader after another.  As many fewer tokens are left to consume, and to be consumed. -/
theorem bindWith {next next' : α → Parse β}
    (hparse : pairing.Agrees taken' bound result parse parse')
    (hnext : ∀ a a', result a a' →
      pairing.Agrees (taken - taken') (bound - taken') after (next a) (next' a')) :
    pairing.Agrees taken bound after (parse >>= next) (parse' >>= next') := by
  intro first second halike hlength
  have hends := hparse halike hlength
  simp only [Bind.bind, EStateM.bind]
  generalize parse first = run, parse' second = run' at hends
  cases hends with
  | error hfails hsame => exact .error hfails hsame
  | ok hafter =>
      rcases hafter with ⟨ha, hrest, hle⟩
      refine (hnext _ _ ha hrest (by omega)).imp ?_
      rintro b b' last last' ⟨hb, hlast, hle'⟩
      exact ⟨hb, hlast, by omega⟩

/-- One reader after another whose results are the same. -/
theorem bind {next next' : α → Parse β} (hparse : pairing.Agrees taken' bound Eq parse parse')
    (hnext : ∀ a, pairing.Agrees (taken - taken') (bound - taken') after (next a) (next' a)) :
    pairing.Agrees taken bound after (parse >>= next) (parse' >>= next') := by
  refine hparse.bindWith ?_
  rintro a _ rfl
  exact hnext a

/-- Results that have been found. -/
theorem pure {a a' : α} (ha : result a a') :
    pairing.Agrees 0 bound result (Pure.pure a) (Pure.pure a') :=
  fun _ _ halike _ => .ok ⟨ha, halike, Nat.le_refl _⟩

/-- Tokens that correspond are to blame. -/
theorem misplaced (htoken : pairing.token token token') (problem : SyntaxProblem) :
    pairing.Agrees taken bound result (throw (.misplaced token problem))
      (throw (.misplaced token' problem)) := by
  intro first second halike _
  refine .error (fun _ => .misplaced problem htoken) fun hstrict => ⟨?_, halike.same hstrict⟩
  rw [pairing.token_eq hstrict htoken]

/-- Both streams have come to their end. -/
theorem unexpectedEnd (hends : pairing.ends none none) (expected : String) :
    pairing.Agrees taken bound result (throw (.unexpectedEnd expected))
      (throw (.unexpectedEnd expected)) :=
  fun _ _ halike _ =>
    .error (fun _ => .unexpectedEnd expected hends) fun hstrict => ⟨rfl, halike.same hstrict⟩

/-- Results that do not matter. -/
theorem discard (hparse : pairing.Agrees taken bound result parse parse') :
    pairing.Agrees taken bound Eq (Functor.discard parse) (Functor.discard parse') := by
  intro first second halike hlength
  have hends := hparse halike hlength
  simp only [Functor.discard, Functor.mapConst, Function.comp_apply, EStateM.map, Function.const]
  generalize parse first = run, parse' second = run' at hends
  cases hends with
  | ok hafter => exact .ok ⟨trivial, hafter.2⟩
  | error hfails hsame => exact .error hfails hsame

/-- The reader after one whose result does not matter. -/
theorem andThen {next next' : Unit → Parse β}
    (hparse : pairing.Agrees taken' bound result parse parse')
    (hnext : pairing.Agrees (taken - taken') (bound - taken') after (next ()) (next' ())) :
    pairing.Agrees taken bound after (Functor.discard parse >>= next)
      (Functor.discard parse' >>= next') :=
  hparse.discard.bind fun _ => hnext

/-- A decision that comes out the same for both readers. -/
theorem ifSame {test test' : Bool} (htest : test' = test)
    (hyes : pairing.Agrees taken bound after yes yes')
    (hno : pairing.Agrees taken bound after no no') :
    pairing.Agrees taken bound after (if test then yes else no) (if test' then yes' else no') := by
  subst htest
  cases test' with
  | true => exact hyes
  | false => exact hno

/-- Readers that depend on how many tokens are left. -/
theorem get {next next' : TokenStream → Parse β}
    (hnext : ∀ first second : TokenStream, second.ahead.length = first.ahead.length →
      pairing.Agrees taken bound after (next first) (next' second)) :
    pairing.Agrees taken bound after (MonadState.get >>= next) (MonadState.get >>= next') :=
  fun first second halike hlength =>
    hnext first second halike.ahead.length_eq.symm halike hlength

/-! ## Single tokens -/

/-- Readers that look at the next token first.  There is none at the end of both streams. -/
theorem bindPeek {next next' : Option Token → Parse β}
    (hnone : pairing.ends none none → pairing.Agrees taken bound after (next none) (next' none))
    (hsome : ∀ token token', pairing.token token token' → 1 < bound →
      pairing.Agrees taken bound after (next (some token)) (next' (some token'))) :
    pairing.Agrees taken bound after (TokenStream.peek >>= next) (TokenStream.peek >>= next') := by
  rintro ⟨ahead, fault, probed, finish⟩ ⟨ahead', fault', probed', finish'⟩
    ⟨hahead, hfaults, hsame⟩ hlength
  have halike : pairing.Alike ⟨ahead, fault, true, finish⟩ ⟨ahead', fault', true, finish'⟩ := by
    refine ⟨hahead, hfaults, fun hstrict => ?_⟩
    cases hsame hstrict
    rfl
  cases hahead with
  | cons htoken hrest =>
      have hmore := Nat.lt_of_le_of_lt (Nat.le_add_left 1 _) hlength
      exact hsome _ _ htoken hmore halike hlength
  | nil =>
      rcases ends_cases hfaults with ⟨rfl, rfl⟩ | ⟨found, found', rfl, rfl⟩
      · exact hnone hfaults halike hlength
      · refine .error (fun _ => .lexical hfaults) fun hstrict => ?_
        cases hsame hstrict
        exact ⟨rfl, rfl⟩

/-- The next token of both streams is consumed. -/
theorem advance (expected : String) :
    pairing.Agrees 1 bound pairing.token (TokenStream.advance expected)
      (TokenStream.advance expected) := by
  rintro ⟨ahead, fault, probed, finish⟩ ⟨ahead', fault', probed', finish'⟩
    ⟨hahead, hfaults, hsame⟩ _
  cases hahead with
  | cons htoken hrest =>
      refine .ok ⟨htoken, ⟨hrest, hfaults, fun hstrict => ?_⟩, Nat.le_refl _⟩
      cases hsame hstrict
      rfl
  | nil =>
      rcases ends_cases hfaults with ⟨rfl, rfl⟩ | ⟨found, found', rfl, rfl⟩
      · refine .error (fun _ => .unexpectedEnd expected hfaults) fun hstrict => ?_
        cases hsame hstrict
        exact ⟨rfl, rfl⟩
      · refine .error (fun _ => .lexical hfaults) fun hstrict => ?_
        cases hsame hstrict
        exact ⟨rfl, rfl⟩

/-- Nothing but the word of the next token decides what it means. -/
theorem lookAhead {parse : Parse α} (meaning : Word → α) (other : α) (hparse : parse = do
      match ← TokenStream.peek with
      | some token => Pure.pure (meaning token.word)
      | none => Pure.pure other) :
    pairing.Agrees 0 bound Eq parse parse := by
  subst hparse
  refine bindPeek (fun _ => pure rfl) fun token token' htoken _ => pure ?_
  rw [pairing.word_eq htoken]

/-- A test for kind and text of the next token. -/
theorem nextIs (kind : TokenKind) (accepted : List String) :
    pairing.Agrees 0 bound Eq (TokenStream.nextIs kind accepted)
      (TokenStream.nextIs kind accepted) :=
  lookAhead (fun word => word.kind == kind && accepted.contains word.text) false rfl

/-- A test for the kind of the next token. -/
theorem nextHasKind (kind : TokenKind) :
    pairing.Agrees 0 bound Eq (TokenStream.nextHasKind kind) (TokenStream.nextHasKind kind) :=
  lookAhead (fun word => word.kind == kind) false rfl

/-- A test for the end of the tokens. -/
theorem atEnd : pairing.Agrees 0 bound Eq TokenStream.atEnd TokenStream.atEnd :=
  bindPeek (fun _ => pure rfl) fun _ _ _ _ => pure rfl

/-- Readers behind a test. -/
theorem ifThenElse {test test' : Parse Bool} (htest : pairing.Agrees 0 bound Eq test test')
    (hyes : pairing.Agrees taken bound after yes yes')
    (hno : pairing.Agrees taken bound after no no') :
    pairing.Agrees taken bound after (do if ← test then yes else no)
      (do if ← test' then yes' else no') :=
  htest.bind fun _ => ifSame rfl hyes hno

/-- Readers behind a test for the end, where no fault is left. -/
theorem ifAtEnd (hyes : pairing.ends none none → pairing.Agrees taken bound after yes yes')
    (hno : pairing.Agrees taken bound after no no') :
    pairing.Agrees taken bound after (do if ← TokenStream.atEnd then yes else no)
      (do if ← TokenStream.atEnd then yes' else no') := by
  have hpeek (yes no : Parse β) : (do if ← TokenStream.atEnd then yes else no) =
      TokenStream.peek >>= fun token => if token.isNone then yes else no := by
    simp only [TokenStream.atEnd, bind_assoc, pure_bind]
  rw [hpeek, hpeek]
  exact bindPeek hyes fun _ _ _ _ => hno

/-- The next token of both streams is consumed, and it has to pass a test. -/
theorem accept (expected : String) (test : Word → Bool) (problem : SyntaxProblem)
    {parse : Parse Token} (hparse : parse = do
      let token ← TokenStream.advance expected
      if test token.word then Pure.pure token else throw (.misplaced token problem)) :
    pairing.Agrees 1 bound pairing.token parse parse := by
  subst hparse
  refine (advance expected).bindWith fun token token' htoken => ?_
  exact ifSame (by rw [pairing.word_eq htoken]) (pure htoken) (misplaced htoken problem)

/-- A token that has to have a kind and a text. -/
theorem expect (kind : TokenKind) (accepted : List String) :
    pairing.Agrees 1 bound pairing.token (TokenStream.expect kind accepted)
      (TokenStream.expect kind accepted) :=
  accept (TokenStream.alternatives accepted)
    (fun word => word.kind == kind && accepted.contains word.text)
    (.expected (TokenStream.alternatives accepted)) rfl

/-- An operator that has to come next. -/
theorem expectOperator (operator : String) :
    pairing.Agrees 1 bound pairing.token (TokenStream.expectOperator operator)
      (TokenStream.expectOperator operator) :=
  expect .operator [operator]

/-- An identifier that has to come next. -/
theorem expectIdentifier :
    pairing.Agrees 1 bound pairing.token TokenStream.expectIdentifier
      TokenStream.expectIdentifier :=
  accept "an identifier" (fun word => word.kind == .identifier) (.expected "an identifier") rfl

/-- The semicolon behind a statement. -/
theorem expectSemicolon :
    pairing.Agrees 1 bound Eq TokenStream.expectSemicolon TokenStream.expectSemicolon := by
  refine (advance "';'").bindWith fun token token' htoken => ?_
  exact ifSame (is_eq htoken _ _) (pure rfl) (misplaced htoken .missingSemicolon)

/-! ## Lists between brackets -/

variable {element element' : Parse α}

/-- The elements of two lists are read one by one. -/
theorem elements (closing separator : String)
    (helement : pairing.Agrees 1 bound result element element') (fuel : Nat) (isFirst : Bool) :
    pairing.Agrees 0 bound (List.Forall₂ result)
      (TokenStream.elements closing separator element fuel isFirst)
      (TokenStream.elements closing separator element' fuel isFirst) := by
  induction fuel generalizing bound isFirst with
  | zero => exact pure .nil
  | succ fuel ih =>
      have hitem (bound' : Nat) (hle : bound' ≤ bound) :
          pairing.Agrees 0 bound' (List.Forall₂ result)
            (TokenStream.elementsFrom closing separator element fuel)
            (TokenStream.elementsFrom closing separator element' fuel) := by
        refine ifThenElse (nextIs _ _) (pure .nil) ?_
        refine (helement.mono (Nat.le_refl _) hle).bindWith fun head head' hhead => ?_
        refine (ih (helement.mono (Nat.le_refl _) (by omega)) false).bindWith ?_
        exact fun rest rest' hrest => pure (.cons hhead hrest)
      refine ifThenElse atEnd (pure .nil) ?_
      refine ifThenElse (nextIs _ _) (pure .nil) ?_
      cases isFirst with
      | true => exact hitem bound (Nat.le_refl _)
      | false => exact (expectOperator separator).andThen (hitem _ (Nat.sub_le _ _))

/-- Two lists between brackets are read side by side. -/
theorem delimited (opening closing separator : String)
    (helement : pairing.Agrees 1 bound result element element') :
    pairing.Agrees 2 (bound + 1) (List.Forall₂ result)
      (TokenStream.delimited opening closing separator element)
      (TokenStream.delimited opening closing separator element') := by
  refine (expectOperator opening).andThen ?_
  refine get fun first second hlength => ?_
  rw [hlength]
  refine (elements closing separator helement _ true).bindWith fun items items' hitems => ?_
  exact (expectOperator closing).andThen (pure hitems)

/-- Two lists with the same elements. -/
theorem delimitedSame (opening closing separator : String)
    (helement : pairing.Agrees 1 bound Eq element element') :
    pairing.Agrees 2 (bound + 1) Eq (TokenStream.delimited opening closing separator element)
      (TokenStream.delimited opening closing separator element') := by
  have hlist := delimited opening closing separator helement
  rwa [List.forall₂_eq_eq_eq] at hlist

end Agrees
end Pairing
end Workshop

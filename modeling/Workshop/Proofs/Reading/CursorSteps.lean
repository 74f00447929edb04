import Workshop.Script.TokenStream
import Mathlib.Data.List.Basic

/-!
# Steps on token streams

A token stream can be read with steps in any order.  Some of them take the next
token away, the others only look at it, and each of them may fail.  This module
says what the reply to a step is when a given token comes next, without saying
how a stream is read, and what steps leave of a stream.

Main definitions:

- `CursorStep`: what can be done with the next token.
- `CursorStep.reply`: the reply to a step when a given token comes next.
- `Thinned`: steps of which some that only look are left out.

Main results:

- Theorem `TokenStream.perform_cons`: a step replies to the next token, and takes
  it away or leaves it.
- Theorem `TokenStream.performAll_prefix`: up to a fault of the text, the replies
  to steps are those to the tokens in their order.
- Theorem `TokenStream.consumingOutcomes_thinned`: looking at tokens does not
  change what is consumed later.
-/

namespace Workshop

/-! ## Steps and replies -/

/-- What can be done with the next token. -/
inductive CursorStep where
  | peek
  | atEnd
  | nextIs (kind : TokenKind) (accepted : List String)
  | nextHasKind (kind : TokenKind)
  | position
  | next
  | advance (expected : String)
  | expect (kind : TokenKind) (accepted : List String)
  | expectOperator (operator : String)
  | expectIdentifier
  | expectSemicolon
deriving DecidableEq, Repr

/-- What comes back from a step. -/
inductive Reply where
  | found (token : Option Token)
  | truth (value : Bool)
  | place (position : Position)
  | done
deriving DecidableEq, Repr

/-- A reply, or the reason why there is none. -/
abbrev Outcome := Except Diagnostic Reply

/-- An outcome that reports a fault of the text. -/
def Outcome.isLexical : Outcome → Bool
  | .error (.lexical _) => true
  | _ => false

namespace CursorStep

/-- Whether a step takes the next token away. -/
def consumes : CursorStep → Bool
  | peek | atEnd | nextIs _ _ | nextHasKind _ | position => false
  | next | advance _ | expect _ _ | expectOperator _ | expectIdentifier | expectSemicolon => true

/-- The reply to a token that has to be there and to pass a test. -/
def required (expected : String) (test : Token → Bool) (problem : SyntaxProblem)
    (reply : Token → Reply) : Option Token → Outcome
  | none => .error (.unexpectedEnd expected)
  | some token =>
    if test token then .ok (reply token) else .error (.misplaced token problem)

/-- The reply to a step when the given token comes next, or none does.  The text ends at
`finish`. -/
def reply (finish : Position) (step : CursorStep) (found : Option Token) : Outcome :=
  match step with
  | peek | next => .ok (.found found)
  | atEnd => .ok (.truth found.isNone)
  | nextIs kind accepted =>
    .ok (.truth (found.any fun token => token.kind == kind && accepted.contains token.text))
  | nextHasKind kind => .ok (.truth (found.any fun token => token.kind == kind))
  | position => .ok (.place (found.elim finish Token.position))
  | advance expected =>
    required expected (fun _ => true) .unexpected (fun token => .found (some token)) found
  | expect kind accepted =>
    required (TokenStream.alternatives accepted)
      (fun token => token.kind == kind && accepted.contains token.text)
      (.expected (TokenStream.alternatives accepted)) (fun token => .found (some token)) found
  | expectOperator operator =>
    required (TokenStream.alternatives [operator])
      (fun token => token.kind == .operator && [operator].contains token.text)
      (.expected (TokenStream.alternatives [operator])) (fun token => .found (some token)) found
  | expectIdentifier =>
    required "an identifier" (fun token => token.kind == .identifier) (.expected "an identifier")
      (fun token => .found (some token)) found
  | expectSemicolon =>
    required "';'" (fun token => token.is .operator ";") .missingSemicolon (fun _ => .done) found

section Required

variable {expected : String} {test : Token → Bool} {problem : SyntaxProblem}
  {reply : Token → Reply} {found : Option Token}

theorem isLexical_required : (required expected test problem reply found).isLexical = false := by
  cases found with
  | none => rfl
  | some token => by_cases htest : test token = true <;> simp [required, htest, Outcome.isLexical]

theorem required_eq_misplaced {token : Token} {problem' : SyntaxProblem}
    (hreply : required expected test problem reply found = .error (.misplaced token problem')) :
    found = some token := by
  cases found with
  | none => cases hreply
  | some first =>
      by_cases htest : test first = true
      · simp [required, htest] at hreply
      · simp only [required, htest] at hreply
        cases hreply
        rfl

end Required

/-- No reply reports a fault. -/
theorem isLexical_reply (finish : Position) (step : CursorStep) (found : Option Token) :
    (step.reply finish found).isLexical = false := by
  cases step with
  | advance | expect | expectOperator | expectIdentifier | expectSemicolon =>
      exact isLexical_required
  | _ => rfl

/-- Only a token that a step takes away can be a problem. -/
theorem reply_eq_misplaced {finish : Position} {step : CursorStep} {found : Option Token}
    {token : Token} {problem : SyntaxProblem}
    (hreply : step.reply finish found = .error (.misplaced token problem)) :
    found = some token ∧ step.consumes = true := by
  cases step with
  | advance | expect | expectOperator | expectIdentifier | expectSemicolon =>
      exact ⟨required_eq_misplaced hreply, rfl⟩
  | _ => cases hreply

/-- A step as a reader of tokens. -/
def run : CursorStep → Parse Reply
  | peek => do pure (.found (← TokenStream.peek))
  | atEnd => do pure (.truth (← TokenStream.atEnd))
  | nextIs kind accepted => do pure (.truth (← TokenStream.nextIs kind accepted))
  | nextHasKind kind => do pure (.truth (← TokenStream.nextHasKind kind))
  | position => do pure (.place (← TokenStream.position))
  | next => do pure (.found (← TokenStream.next))
  | advance expected => do pure (.found (some (← TokenStream.advance expected)))
  | expect kind accepted => do pure (.found (some (← TokenStream.expect kind accepted)))
  | expectOperator operator => do pure (.found (some (← TokenStream.expectOperator operator)))
  | expectIdentifier => do pure (.found (some (← TokenStream.expectIdentifier)))
  | expectSemicolon => do
    TokenStream.expectSemicolon
    pure .done

end CursorStep

namespace TokenStream

/-- The outcome of a reading and the stream that is left, whether it succeeds or fails. -/
def settle : EStateM.Result Diagnostic TokenStream Reply → Outcome × TokenStream
  | .ok reply rest => (.ok reply, rest)
  | .error diagnostic rest => (.error diagnostic, rest)

/-- The outcome of a step, and the stream that is left. -/
def perform (stream : TokenStream) (step : CursorStep) : Outcome × TokenStream :=
  settle (step.run stream)

/-- The outcomes of several steps, and the stream that is left.  Steps go on after a failure. -/
def performAll (stream : TokenStream) : List CursorStep → List Outcome × TokenStream
  | [] => ([], stream)
  | step :: rest =>
    let (outcome, after) := stream.perform step
    let (outcomes, last) := after.performAll rest
    (outcome :: outcomes, last)

/-- The tokens that steps have taken from a stream, in their order. -/
def consumed (stream : TokenStream) (steps : List CursorStep) : List Token :=
  stream.ahead.take (stream.ahead.length - (stream.performAll steps).2.ahead.length)

/-- The outcomes of those steps that take a token away. -/
def consumingOutcomes (stream : TokenStream) (steps : List CursorStep) : List Outcome :=
  ((steps.zip (stream.performAll steps).1).filter (·.1.consumes)).map Prod.snd

/-- The reply depends on a test of the token that has been taken away. -/
theorem settle_test {α : Type} (test : Bool) (a : α) (reply : α → Reply)
    (diagnostic : Diagnostic) (rest : TokenStream) :
    settle (((if test then pure a else throw diagnostic) >>= fun a => pure (reply a) :
      Parse Reply) rest) =
      (if test then .ok (reply a) else .error diagnostic, rest) := by
  cases test <;> rfl

section Perform

variable (step : CursorStep) (fault : LexFault) (faults : Option LexFault) (token : Token)
  (tokens : List Token) (probed : Bool) (finish : Position)

/-- A step replies to the next token, and takes it away or leaves it. -/
theorem perform_cons :
    perform ⟨token :: tokens, faults, probed, finish⟩ step =
      (step.reply finish (some token),
        ⟨if step.consumes then tokens else token :: tokens, faults, !step.consumes, finish⟩) := by
  cases step with
  | expect kind accepted => exact settle_test _ token (fun token => .found (some token)) _ _
  | expectOperator operator => exact settle_test _ token (fun token => .found (some token)) _ _
  | expectIdentifier => exact settle_test _ token (fun token => .found (some token)) _ _
  | expectSemicolon => exact settle_test _ () (fun _ => .done) _ _
  | _ => rfl

/-- At the end of the tokens a fault is reported, once. -/
theorem perform_fault :
    perform ⟨[], some fault, probed, finish⟩ step =
      (.error (.lexical fault), ⟨[], none, true, finish⟩) := by
  cases step <;> rfl

/-- Behind the last token every step finds the end. -/
theorem perform_nil :
    perform ⟨[], none, probed, finish⟩ step =
      (step.reply finish none, ⟨[], none, true, finish⟩) := by
  cases step <;> rfl

end Perform

theorem perform_suffix (stream : TokenStream) (step : CursorStep) :
    (stream.perform step).2.ahead <:+ stream.ahead := by
  rcases stream with ⟨ahead, fault, probed, finish⟩
  cases ahead with
  | nil =>
      cases fault with
      | none =>
          rw [perform_nil, List.suffix_nil]
      | some fault =>
          rw [perform_fault, List.suffix_nil]
  | cons token tokens =>
      rw [perform_cons]
      cases step.consumes with
      | false => exact List.suffix_refl _
      | true => exact List.suffix_cons token tokens

theorem performAll_suffix (stream : TokenStream) (steps : List CursorStep) :
    (stream.performAll steps).2.ahead <:+ stream.ahead := by
  induction steps generalizing stream with
  | nil => exact List.suffix_refl _
  | cons step rest ih => exact (ih (stream.perform step).2).trans (stream.perform_suffix step)

/-- What has been consumed and what is left make up the stream. -/
theorem consumed_append (stream : TokenStream) (steps : List CursorStep) :
    stream.consumed steps ++ (stream.performAll steps).2.ahead = stream.ahead := by
  rcases stream.performAll_suffix steps with ⟨taken, htaken⟩
  unfold consumed
  generalize (stream.performAll steps).2.ahead = left at htaken ⊢
  rw [← htaken]
  simp

/-- A token that does not fit is consumed all the same, and nothing else is. -/
theorem ahead_of_misplaced {stream : TokenStream} {step : CursorStep} {token : Token}
    {problem : SyntaxProblem}
    (hmisplaced : (stream.perform step).1 = .error (.misplaced token problem)) :
    stream.ahead = token :: (stream.perform step).2.ahead := by
  rcases stream with ⟨ahead, fault, probed, finish⟩
  cases ahead with
  | nil =>
      cases fault with
      | none =>
          rw [perform_nil] at hmisplaced
          cases (CursorStep.reply_eq_misplaced hmisplaced).1
      | some fault =>
          rw [perform_fault] at hmisplaced
          cases hmisplaced
  | cons first tokens =>
      rw [perform_cons] at hmisplaced ⊢
      rcases CursorStep.reply_eq_misplaced hmisplaced with ⟨hfirst, hconsumes⟩
      cases hfirst
      rw [hconsumes]
      rfl

end TokenStream

/-! ## Replies in order -/

/-- The replies to steps when the given tokens come one after the other. -/
def CursorStep.replies (finish : Position) : List Token → List CursorStep → List Outcome
  | _, [] => []
  | tokens, step :: rest =>
    step.reply finish tokens.head? ::
      replies finish (if step.consumes then tokens.tail else tokens) rest

/-- Up to a fault of the text, the replies are those to the tokens of the stream. -/
theorem TokenStream.performAll_prefix (stream : TokenStream) (steps : List CursorStep) :
    (stream.performAll steps).1.takeWhile (fun outcome => !outcome.isLexical) <+:
      CursorStep.replies stream.finish stream.ahead steps := by
  induction steps generalizing stream with
  | nil => exact List.prefix_refl _
  | cons step rest ih =>
      have hrest := ih (stream.perform step).2
      rw [CursorStep.replies]
      simp only [performAll]
      rcases stream with ⟨ahead, fault, probed, finish⟩
      cases ahead with
      | nil =>
          cases fault with
          | none =>
              rw [perform_nil] at hrest ⊢
              rw [List.takeWhile_cons, CursorStep.isLexical_reply]
              simpa using hrest
          | some fault =>
              rw [perform_fault]
              exact List.nil_prefix
      | cons token tokens =>
          rw [perform_cons] at hrest ⊢
          rw [List.takeWhile_cons, CursorStep.isLexical_reply]
          simpa using hrest

/-! ## Steps that only look -/

/-- Steps of which some are left out that take no token away. -/
inductive Thinned : List CursorStep → List CursorStep → Prop
  | nil : Thinned [] []
  | keep {steps fewer : List CursorStep} (step : CursorStep) :
      Thinned steps fewer → Thinned (step :: steps) (step :: fewer)
  | drop {steps fewer : List CursorStep} {step : CursorStep} :
      step.consumes = false → Thinned steps fewer → Thinned (step :: steps) fewer

namespace TokenStream

theorem consumingOutcomes_cons (stream : TokenStream) (step : CursorStep)
    (steps : List CursorStep) :
    stream.consumingOutcomes (step :: steps) =
      (if step.consumes then [(stream.perform step).1] else []) ++
        (stream.perform step).2.consumingOutcomes steps := by
  cases hconsumes : step.consumes <;> simp [consumingOutcomes, performAll, hconsumes]

/-- As long as no fault comes up, looking at tokens does not change what is consumed later. -/
theorem consumingOutcomes_thinned {steps fewer : List CursorStep} (hthinned : Thinned steps fewer)
    (ahead : List Token) (fault : Option LexFault) (probed probed' : Bool) (finish : Position)
    (hlexical : ∀ outcome ∈ (performAll ⟨ahead, fault, probed, finish⟩ steps).1,
      outcome.isLexical = false) :
    consumingOutcomes ⟨ahead, fault, probed', finish⟩ fewer =
      consumingOutcomes ⟨ahead, fault, probed, finish⟩ steps := by
  induction hthinned generalizing ahead fault probed probed' with
  | nil => rfl
  | @keep steps fewer step _ ih =>
      rw [performAll, List.forall_mem_cons] at hlexical
      rw [consumingOutcomes_cons, consumingOutcomes_cons]
      cases ahead with
      | nil =>
          cases fault with
          | none =>
              rw [perform_nil] at hlexical
              rw [perform_nil, perform_nil, ih _ _ _ _ hlexical.2]
          | some fault =>
              rw [perform_fault] at hlexical
              cases hlexical.1
      | cons token tokens =>
          rw [perform_cons] at hlexical
          rw [perform_cons, perform_cons, ih _ _ _ _ hlexical.2]
  | @drop steps fewer step hlooks _ ih =>
      rw [performAll, List.forall_mem_cons] at hlexical
      rw [consumingOutcomes_cons, hlooks]
      cases ahead with
      | nil =>
          cases fault with
          | none =>
              rw [perform_nil] at hlexical ⊢
              exact ih _ _ _ _ hlexical.2
          | some fault =>
              rw [perform_fault] at hlexical
              cases hlexical.1
      | cons token tokens =>
          rw [perform_cons, hlooks] at hlexical
          rw [perform_cons, hlooks]
          exact ih _ _ _ _ hlexical.2

end TokenStream

end Workshop

import Workshop.Proofs.Lexing.Places
import Workshop.Proofs.Reading.Progress

/-!
# Reading ends

The grammar is defined with bounds: for the depth of nesting, and for the rounds
of its loops.  No reading meets such a bound.  There are readers of atoms and
expressions that use themselves as nested readers, and only these: the recursion
of the grammar, with no bound.  Every reading does what they do, and the loops
go round at most once for each token that is left.

Main definitions:

- `Grammar.Level.above`: the readers one level of nesting further out.
- `Grammar.recursive`: the readers that use themselves.
- `Loops`: a loop that goes round until there is nothing left to do.

Main results:

- Theorem `Grammar.eq_above_iff`: the recursion of the grammar has one solution.
- Theorem `Grammar.levelFrom_eq`: a bound greater than the number of tokens does
  not matter.
- Theorem `loops_loop`: the rounds of a loop.
- Theorem `parsing_terminates`: every source text is read to an end.
-/

namespace Workshop

variable {α : Type} {parse : Parse α} {stream : TokenStream}

/-- Readers that agree with themselves leave no more tokens than they are given. -/
theorem length_of_agrees {taken : Nat} {result : α → α → Prop} {a : α} {rest : TokenStream}
    (hparse : Pairing.identical.Agrees taken (stream.ahead.length + 1) result parse parse)
    (hrun : parse stream = .ok a rest) : rest.ahead.length + taken ≤ stream.ahead.length := by
  have hends := hparse (Pairing.alike_identical stream) (Nat.lt_succ_self _)
  rw [hrun] at hends
  cases hends with
  | ok hafter => exact hafter.2.2

/-- A reader that consumes a token whenever it succeeds. -/
def Consumes (parse : Parse α) : Prop :=
  ∀ stream a rest, parse stream = .ok a rest → rest.ahead.length < stream.ahead.length

/-- Readers that coincide with themselves on all streams consume. -/
theorem Coincide.consumes (hparse : ∀ bound, Coincide 1 bound parse parse) : Consumes parse := by
  intro stream a rest hrun
  exact (hparse _ stream (Nat.lt_succ_self _)).2 a rest hrun

/-- The same for readers that agree with themselves. -/
theorem Consumes.of_agrees {result : α → α → Prop}
    (hparse : ∀ bound, Pairing.identical.Agrees 1 bound result parse parse) : Consumes parse :=
  fun _ _ _ hrun => length_of_agrees (hparse _) hrun

/-- A reader that consumes agrees with itself. -/
theorem Consumes.agrees (hparse : Consumes parse) (bound : Nat) :
    Pairing.identical.Agrees 1 bound Eq parse parse :=
  coincide_iff.1 fun stream _ => ⟨rfl, hparse stream⟩

/-! ## Nesting -/

namespace Grammar

/-- The readers one level of nesting further out. -/
def Level.above (nested : Level) : Level := ⟨Grammar.atom nested, Grammar.expression nested⟩

/-- Levels that read alike are equal. -/
theorem Level.ext_streams {first second : Level}
    (hatom : ∀ stream, first.atom stream = second.atom stream)
    (hexpression : ∀ stream, first.expression stream = second.expression stream) :
    first = second := by
  rcases first with ⟨firstAtom, firstExpression⟩
  rcases second with ⟨secondAtom, secondExpression⟩
  obtain rfl : firstAtom = secondAtom := funext hatom
  obtain rfl : firstExpression = secondExpression := funext hexpression
  rfl

/-- The readers a number of levels above the given ones. -/
def levelFrom (base : Level) : Nat → Level
  | 0 => base
  | depth + 1 => (levelFrom base depth).above

/-- Levels start where nothing is read. -/
theorem level_eq_levelFrom (depth : Nat) :
    level depth = levelFrom ⟨noExpression, noExpression⟩ depth := by
  induction depth with
  | zero => rfl
  | succ depth ih => rw [level, levelFrom, ih, Level.above]

namespace Nested

variable {bound : Nat} {first second third : Level}

/-- Readers one level further out are good for one token more. -/
theorem above (hnested : Nested bound first second) :
    Nested (bound + 1) first.above second.above := by
  have hrules := nested_iff.1 hnested
  exact nested_iff.2 ⟨hrules.atom_rule, hrules.expression_rule⟩

/-- There are no streams with fewer than no tokens. -/
theorem zero (first second : Level) : Nested 0 first second :=
  ⟨fun _ hlength => absurd hlength (Nat.not_lt_zero _),
    fun _ hlength => absurd hlength (Nat.not_lt_zero _)⟩

/-- What the readers do far above does not depend on where they start. -/
theorem levelFrom (base base' : Level) {depth depth' : Nat} (hdepth : bound ≤ depth)
    (hdepth' : bound ≤ depth') :
    Nested bound (levelFrom base depth) (levelFrom base' depth') := by
  induction bound generalizing depth depth' with
  | zero => exact zero _ _
  | succ bound ih =>
      cases depth with
      | zero => omega
      | succ depth =>
          cases depth' with
          | zero => omega
          | succ depth' => exact (ih (by omega) (by omega)).above

end Nested

/-- The readers that use themselves as nested readers.  For a stream, as many levels are taken as
it has tokens, and one more. -/
def recursive : Level where
  atom stream := (level (stream.ahead.length + 1)).atom stream
  expression stream := (level (stream.ahead.length + 1)).expression stream

/-- Levels read as the recursion does. -/
theorem nested_recursive (base : Level) (depth : Nat) :
    Nested depth (levelFrom base depth) recursive := by
  constructor
  · intro stream hlength
    have hnested := Nested.levelFrom base ⟨noExpression, noExpression⟩ hlength
      (Nat.le_refl (stream.ahead.length + 1))
    rw [← level_eq_levelFrom] at hnested
    exact hnested.atom stream (Nat.lt_succ_self _)
  · intro stream hlength
    have hnested := Nested.levelFrom base ⟨noExpression, noExpression⟩ hlength
      (Nat.le_refl (stream.ahead.length + 1))
    rw [← level_eq_levelFrom] at hnested
    exact hnested.expression stream (Nat.lt_succ_self _)

/-- The recursion is its own next level. -/
theorem recursive_eq_above : recursive = recursive.above := by
  have hnested (depth : Nat) : Nested depth (level depth) recursive := by
    rw [level_eq_levelFrom]
    exact nested_recursive _ depth
  apply Level.ext_streams
  · intro stream
    exact ((hnested stream.ahead.length).above.atom stream (Nat.lt_succ_self _)).1.symm
  · intro stream
    exact ((hnested stream.ahead.length).above.expression stream (Nat.lt_succ_self _)).1.symm

/-- An atom of the recursion. -/
theorem recursive_atom : recursive.atom = primary recursive >>= callSuffix recursive :=
  congrArg Level.atom recursive_eq_above

/-- An expression of the recursion. -/
theorem recursive_expression :
    recursive.expression = operation recursive.atom >>= callSuffix recursive := by
  have hexpression : recursive.expression = operation (atom recursive) >>= callSuffix recursive :=
    congrArg Level.expression recursive_eq_above
  have hatom : recursive.atom = atom recursive := congrArg Level.atom recursive_eq_above
  rw [hexpression, hatom]

/-- The recursion of the grammar has one solution. -/
theorem eq_above_iff (readers : Level) : readers = readers.above ↔ readers = recursive := by
  constructor
  · intro hreaders
    have hnested (bound : Nat) : Nested bound recursive readers := by
      induction bound with
      | zero => exact .zero _ _
      | succ bound ih =>
          rw [hreaders, recursive_eq_above]
          exact ih.above
    apply Level.ext_streams
    · intro stream
      exact ((hnested _).atom stream (Nat.lt_succ_self _)).1
    · intro stream
      exact ((hnested _).expression stream (Nat.lt_succ_self _)).1
  · intro hreaders
    rw [hreaders]
    exact recursive_eq_above

/-- Levels above the number of tokens do not matter, whatever the readers at the bottom do. -/
theorem levelFrom_eq (base : Level) {depth : Nat} {stream : TokenStream}
    (hdepth : stream.ahead.length < depth) :
    (levelFrom base depth).atom stream = recursive.atom stream ∧
      (levelFrom base depth).expression stream = recursive.expression stream :=
  ⟨((nested_recursive base depth).atom stream hdepth).1.symm,
    ((nested_recursive base depth).expression stream hdepth).1.symm⟩

/-- The recursion reads as itself. -/
theorem nested_recursive_self (bound : Nat) : Nested bound recursive recursive := by
  induction bound with
  | zero => exact .zero _ _
  | succ bound ih =>
      rw [recursive_eq_above]
      exact ih.above

/-- Where no token is left, there is no atom and no expression. -/
theorem recursive_of_nil {stream : TokenStream} (hahead : stream.ahead = []) :
    recursive.atom stream = noExpression stream ∧
      recursive.expression stream = noExpression stream := by
  rcases stream with ⟨ahead, fault, probed, finish⟩
  cases hahead
  rw [recursive_eq_above]
  cases fault <;> exact ⟨rfl, rfl⟩

/-- As many levels as there are tokens are enough. -/
theorem nested_level (depth : Nat) : Nested (depth + 1) (level depth) recursive := by
  induction depth with
  | zero =>
      have hnil {stream : TokenStream} (hlength : stream.ahead.length < 1) : stream.ahead = [] :=
        List.length_eq_zero_iff.1 (by omega)
      have hself := nested_recursive_self 1
      constructor
      · intro stream hlength
        have hsame := (recursive_of_nil (hnil hlength)).1
        rcases hself.atom stream hlength with ⟨_, hrest⟩
        rw [hsame] at hrest
        exact ⟨hsame, hrest⟩
      · intro stream hlength
        have hsame := (recursive_of_nil (hnil hlength)).2
        rcases hself.expression stream hlength with ⟨_, hrest⟩
        rw [hsame] at hrest
        exact ⟨hsame, hrest⟩
  | succ depth ih =>
      rw [recursive_eq_above]
      exact ih.above

end Grammar

/-! ## Loops -/

/-- Puts one more item in front of what a loop gives. -/
def prepend (item : α) :
    EStateM.Result Diagnostic TokenStream (List α) → EStateM.Result Diagnostic TokenStream (List α)
  | .ok items rest => .ok (item :: items) rest
  | .error diagnostic rest => .error diagnostic rest

/-- A loop that goes round as long as tokens are left and its body gives an item.  The body is told
whether the round is the first one.  The number counts the rounds that were begun. -/
inductive Loops (body : Bool → Parse (Option α)) : Bool → Nat → TokenStream →
    EStateM.Result Diagnostic TokenStream (List α) → Prop
  | ended {isFirst : Bool} {stream rest : TokenStream} :
      TokenStream.atEnd stream = .ok true rest → Loops body isFirst 0 stream (.ok [] rest)
  | faulty {isFirst : Bool} {stream rest : TokenStream} {diagnostic : Diagnostic} :
      TokenStream.atEnd stream = .error diagnostic rest →
      Loops body isFirst 0 stream (.error diagnostic rest)
  | left {isFirst : Bool} {stream middle rest : TokenStream} :
      TokenStream.atEnd stream = .ok false middle → body isFirst middle = .ok none rest →
      Loops body isFirst 1 stream (.ok [] rest)
  | failed {isFirst : Bool} {stream middle rest : TokenStream} {diagnostic : Diagnostic} :
      TokenStream.atEnd stream = .ok false middle →
      body isFirst middle = .error diagnostic rest →
      Loops body isFirst 1 stream (.error diagnostic rest)
  | again {isFirst : Bool} {rounds : Nat} {stream middle next : TokenStream} {item : α}
      {result : EStateM.Result Diagnostic TokenStream (List α)} :
      TokenStream.atEnd stream = .ok false middle →
      body isFirst middle = .ok (some item) next → Loops body false rounds next result →
      Loops body isFirst (rounds + 1) stream (prepend item result)

/-- A loop with at most the given number of rounds. -/
def loop (body : Bool → Parse (Option α)) : Nat → Bool → Parse (List α)
  | 0, _ => pure []
  | fuel + 1, isFirst => do
    if ← TokenStream.atEnd then pure []
    else
      match ← body isFirst with
      | none => pure []
      | some item =>
        let items ← loop body fuel false
        pure (item :: items)

/-- Looking for the end leaves the tokens as they are, and finds one if it is not there. -/
theorem TokenStream.length_of_atEnd {middle : TokenStream}
    (hmore : TokenStream.atEnd stream = .ok false middle) :
    middle.ahead.length = stream.ahead.length ∧ 0 < stream.ahead.length := by
  rcases stream with ⟨ahead, fault, probed, finish⟩
  cases ahead with
  | nil => cases fault <;> cases hmore
  | cons token others =>
      cases hmore
      exact ⟨rfl, Nat.succ_pos _⟩

/-- One round of a loop. -/
theorem loop_succ (body : Bool → Parse (Option α)) (fuel : Nat) (isFirst : Bool)
    (stream : TokenStream) :
    loop body (fuel + 1) isFirst stream =
      match TokenStream.atEnd stream with
      | .error diagnostic rest => .error diagnostic rest
      | .ok true rest => .ok [] rest
      | .ok false middle =>
        match body isFirst middle with
        | .error diagnostic rest => .error diagnostic rest
        | .ok none rest => .ok [] rest
        | .ok (some item) next => prepend item (loop body fuel false next) := by
  simp only [loop, bind, EStateM.bind]
  cases TokenStream.atEnd stream with
  | error diagnostic rest => rfl
  | ok isEnd middle =>
      cases isEnd with
      | true => rfl
      | false =>
          simp only [Bool.false_eq_true, if_false, EStateM.bind]
          cases body isFirst middle with
          | error diagnostic rest => rfl
          | ok item next =>
              cases item with
              | none => rfl
              | some item =>
                  simp only [EStateM.bind]
                  cases loop body fuel false next <;> rfl

/-- A loop whose body consumes a token with every item goes round at most once for each token, and
more rounds than that do not matter. -/
theorem loops_loop {body : Bool → Parse (Option α)}
    (hbody : ∀ isFirst stream item rest, body isFirst stream = .ok (some item) rest →
      rest.ahead.length < stream.ahead.length) {fuel : Nat} (hfuel : stream.ahead.length < fuel)
    (isFirst : Bool) :
    ∃ rounds ≤ stream.ahead.length, Loops body isFirst rounds stream
      (loop body fuel isFirst stream) := by
  induction fuel generalizing stream isFirst with
  | zero => omega
  | succ fuel ih =>
      rw [loop_succ]
      cases hend : TokenStream.atEnd stream with
      | error diagnostic rest => exact ⟨0, Nat.zero_le _, .faulty hend⟩
      | ok isEnd middle =>
          cases isEnd with
          | true => exact ⟨0, Nat.zero_le _, .ended hend⟩
          | false =>
              rcases TokenStream.length_of_atEnd hend with ⟨hmiddle, hpos⟩
              cases hrun : body isFirst middle with
              | error diagnostic rest =>
                  simp only [hrun]
                  exact ⟨1, hpos, .failed hend hrun⟩
              | ok item next =>
                  cases item with
                  | none =>
                      simp only [hrun]
                      exact ⟨1, hpos, .left hend hrun⟩
                  | some item =>
                      have hless := hbody isFirst middle item next hrun
                      rcases ih (show next.ahead.length < fuel by omega) false with
                        ⟨rounds, hrounds, hloops⟩
                      simp only [hrun]
                      exact ⟨rounds + 1, by omega, .again hend hrun hloops⟩

/-- One round of the loop that reads the elements of a list. -/
def elementRound (closing separator : String) (element : Parse α) (isFirst : Bool) :
    Parse (Option α) := do
  if ← TokenStream.nextIs .operator [closing] then pure none
  else
    if isFirst then pure () else discard (TokenStream.expectOperator separator)
    if ← TokenStream.nextIs .operator [closing] then pure none
    else
      let head ← element
      pure (some head)

/-- Elements are read by a loop. -/
theorem elements_eq_loop (closing separator : String) (element : Parse α) (fuel : Nat)
    (isFirst : Bool) :
    TokenStream.elements closing separator element fuel isFirst =
      loop (elementRound closing separator element) fuel isFirst := by
  induction fuel generalizing isFirst with
  | zero => rfl
  | succ fuel ih =>
      let finish : Option α → Parse (List α)
        | none => pure []
        | some head => do
          let rest ← loop (elementRound closing separator element) fuel false
          pure (head :: rest)
      have hitem : (do
            if ← TokenStream.nextIs .operator [closing] then pure []
            else
              let head ← element
              let rest ← loop (elementRound closing separator element) fuel false
              pure (head :: rest)) =
          (do
            if ← TokenStream.nextIs .operator [closing] then pure none
            else
              let head ← element
              pure (some head)) >>= finish := by
        rw [bind_assoc]
        congr 1
        funext isClosed
        cases isClosed with
        | true => rfl
        | false => simp only [Bool.false_eq_true, if_false, bind_assoc, pure_bind, finish]
      simp only [TokenStream.elements, loop, elementRound, ih, bind_assoc]
      congr 1
      funext isEnd
      cases isEnd with
      | true => rfl
      | false =>
          simp only [Bool.false_eq_true, if_false]
          congr 1
          funext isClosed
          cases isClosed with
          | true => rfl
          | false =>
              cases isFirst with
              | true => exact hitem
              | false =>
                  simp only [Bool.false_eq_true, if_false, hitem]
                  exact (bind_assoc _ _ _).symm

/-- One round of the loop that reads the statements of a script. -/
def statementRound (expression : Parse Node) (_ : Bool) : Parse (Option Node) := do
  let statement ← expression
  if ← TokenStream.atEnd then pure () else TokenStream.expectSemicolon
  pure (some statement)

/-- So are statements. -/
theorem statements_eq_loop (expression : Parse Node) (fuel : Nat) (isFirst : Bool) :
    Grammar.statements expression fuel = loop (statementRound expression) fuel isFirst := by
  induction fuel generalizing isFirst with
  | zero => rfl
  | succ fuel ih =>
      simp only [Grammar.statements, loop, statementRound, bind_assoc, ih false]
      congr 1
      funext isEnd
      cases isEnd with
      | true => rfl
      | false =>
          simp only [Bool.false_eq_true, if_false]
          congr 1
          funext statement
          congr 1
          funext isEnd
          cases isEnd with
          | true => simp only [if_true, pure_bind]
          | false => simp only [Bool.false_eq_true, if_false, bind_assoc, pure_bind]

/-! ## Progress of the loops -/

/-- Two readers succeed one after the other. -/
theorem Parse.bind_eq_ok {β : Type} {next : α → Parse β} {last : TokenStream} {b : β} :
    (parse >>= next) stream = .ok b last ↔
      ∃ a middle, parse stream = .ok a middle ∧ next a middle = .ok b last := by
  simp only [bind, EStateM.bind]
  cases parse stream with
  | ok a middle => simp
  | error diagnostic rest => simp

/-- A round that gives an element has consumed it. -/
theorem elementRound_consumes (closing separator : String) {element : Parse α}
    (helement : Consumes element) (isFirst : Bool) {rest : TokenStream} {item : α}
    (hround : elementRound closing separator element isFirst stream = .ok (some item) rest) :
    rest.ahead.length < stream.ahead.length := by
  have hitem {stream : TokenStream} (hrun : (do
        if ← TokenStream.nextIs .operator [closing] then pure none
        else
          let head ← element
          pure (some head) : Parse (Option α)) stream = .ok (some item) rest) :
      rest.ahead.length < stream.ahead.length := by
    rcases Parse.bind_eq_ok.1 hrun with ⟨isClosed, middle, htest, hrest⟩
    have hmiddle := length_of_agrees (Pairing.Agrees.nextIs _ _) htest
    cases isClosed with
    | true => cases hrest
    | false =>
        rcases Parse.bind_eq_ok.1 hrest with ⟨head, last, hhead, hlast⟩
        cases hlast
        have hless := helement _ _ _ hhead
        omega
  rcases Parse.bind_eq_ok.1 hround with ⟨isClosed, middle, htest, hrest⟩
  have hmiddle := length_of_agrees (Pairing.Agrees.nextIs _ _) htest
  cases isClosed with
  | true => cases hrest
  | false =>
      cases isFirst with
      | true =>
          have hless := hitem hrest
          omega
      | false =>
          rcases Parse.bind_eq_ok.1 hrest with ⟨_, next, hseparator, hlast⟩
          have hseparated :=
            length_of_agrees (Pairing.Agrees.expectOperator separator).discard hseparator
          have hless := hitem hlast
          omega

/-- A round that gives a statement has consumed it. -/
theorem statementRound_consumes {expression : Parse Node} (hexpression : Consumes expression)
    (isFirst : Bool) : Consumes (statementRound expression isFirst) := by
  have hround (bound : Nat) : Pairing.identical.Agrees 1 bound Eq
      (statementRound expression isFirst) (statementRound expression isFirst) := by
    refine (hexpression.agrees bound).bind fun statement => ?_
    refine Pairing.Agrees.atEnd.bind fun isEnd => ?_
    cases isEnd with
    | true => exact .pure rfl
    | false => exact Pairing.Agrees.expectSemicolon.bind fun _ => .pure rfl
  exact .of_agrees hround

/-- Every operator is a token, so that more rounds than tokens do not matter. -/
theorem operatorTail_fuel {atom : Parse Node} (hatom : Consumes atom) {bound fuel fuel' : Nat}
    (hfuel : bound ≤ fuel) (hfuel' : bound ≤ fuel') :
    Pairing.identical.Agrees 0 bound Eq (Grammar.operatorTail atom fuel)
      (Grammar.operatorTail atom fuel') := by
  induction fuel generalizing bound fuel' with
  | zero => exact Pairing.Agrees.zero.mono (Nat.le_refl _) hfuel
  | succ fuel ih =>
      cases fuel' with
      | zero => exact Pairing.Agrees.zero.mono (Nat.le_refl _) hfuel'
      | succ fuel' =>
          refine Pairing.nextOperator.bind fun operator => ?_
          cases operator with
          | none => exact .pure rfl
          | some operator =>
              refine (Pairing.Agrees.advance _).andThen ?_
              refine (hatom.agrees _).bind fun right => ?_
              exact (ih (by omega) (by omega)).bind fun rest => .pure rfl

/-! ## Lexing -/

/-- Every token takes a character of the text, and so does the fault that ends them. -/
theorem length_lexFrom_le (vocabulary : Vocabulary) (input : List Char) (position : Position)
    (skip : Nat) :
    (lexFrom vocabulary input position skip).tokens.length +
      (lexFrom vocabulary input position skip).fault.toList.length ≤ input.length := by
  induction input generalizing position skip with
  | nil => simp [lexFrom]
  | cons c rest ih =>
      cases skip with
      | succ skip =>
          have hrest := ih (position.step c) skip
          simp only [lexFrom, List.length_cons]
          omega
      | zero =>
          simp only [lexFrom]
          cases Lexeme.scan? vocabulary (c :: rest) with
          | none => simp
          | some lexeme =>
              have hrest := ih (position.step c) (lexeme.chars.length - 1)
              simp only [Lexed.cons, List.length_cons]
              omega

/-- A lexer comes to its end after no more items than the text has characters. -/
theorem Lexer.gives_all (vocabulary : Vocabulary) (source : String) :
    ∃ items last, (Lexer.ofSource vocabulary source).Gives items last ∧
      last.next = (none, last) ∧ items.length ≤ source.toList.length ∧
      (TokenStream.ofSource vocabulary source).ahead.length ≤ items.length := by
  refine ⟨_, _, Lexer.gives_unread source vocabulary (lex vocabulary source), rfl, ?_, ?_⟩
  · have hlength := length_lexFrom_le vocabulary source.toList Position.start 0
    simp only [List.length_append, List.length_map]
    exact hlength
  · have hfilter := List.length_filter_le Token.isSignificant (lex vocabulary source).tokens
    simp only [TokenStream.ofSource, TokenStream.ofLexed, TokenStream.significant,
      List.length_append, List.length_map]
    omega

/-! ## Source texts -/

/-- The outcome of reading the statements of a script. -/
def scriptOutcome : EStateM.Result Diagnostic TokenStream (List Node) → Except Diagnostic Node
  | .ok statements _ => .ok (.block statements)
  | .error diagnostic _ => .error diagnostic

/-- The statements of a script are read by the loop without a bound. -/
theorem program_eq_loop (stream : TokenStream) :
    Grammar.program stream =
      (do
        let statements ← loop (statementRound Grammar.recursive.expression)
          (stream.ahead.length + 1) true
        pure (Node.block statements) : Parse Node) stream := by
  have hexpression := coincide_iff.1 (Grammar.nested_level stream.ahead.length).expression
  have hstatements := (Pairing.statements hexpression (Nat.le_refl _)).imp fun _ _ => And.left
  have hsame := (coincide_iff.2 hstatements stream (Nat.lt_succ_self _)).1
  rw [← statements_eq_loop]
  simp only [bind, EStateM.bind, hsame]
  rfl

/-- The outcome of reading a source text is the outcome of this loop. -/
theorem parseWith_eq_scriptOutcome (vocabulary : Vocabulary) (source : String) :
    Script.parseWith vocabulary source =
      scriptOutcome (loop (statementRound Grammar.recursive.expression)
        ((TokenStream.ofSource vocabulary source).ahead.length + 1) true
        (TokenStream.ofSource vocabulary source)) := by
  have hprogram := program_eq_loop (TokenStream.ofSource vocabulary source)
  simp only [bind, EStateM.bind] at hprogram
  generalize loop _ _ _ _ = run at hprogram ⊢
  cases run with
  | ok statements rest => exact Pairing.parseWith_of_ok hprogram
  | error diagnostic rest => exact Pairing.parseWith_of_error hprogram

/-- The loop ends where no token is left. -/
theorem Loops.ahead_eq_nil {expression : Parse Node} {isFirst : Bool} {rounds : Nat}
    {items : List Node} {rest : TokenStream}
    (hloops : Loops (statementRound expression) isFirst rounds stream (.ok items rest)) :
    rest.ahead = [] := by
  generalize hresult : EStateM.Result.ok items rest = result at hloops
  induction hloops generalizing items with
  | @ended _ stream _ hend =>
      cases hresult
      rcases stream with ⟨ahead, fault, probed, finish⟩
      cases ahead with
      | nil => cases fault <;> cases hend; rfl
      | cons token others => cases hend
  | faulty => cases hresult
  | left _ hround =>
      rcases Parse.bind_eq_ok.1 hround with ⟨statement, middle, _, hrest⟩
      rcases Parse.bind_eq_ok.1 hrest with ⟨isEnd, next, _, hlast⟩
      cases isEnd with
      | true => cases hlast
      | false =>
          rcases Parse.bind_eq_ok.1 hlast with ⟨_, _, _, hnone⟩
          cases hnone
  | failed => cases hresult
  | @again _ _ _ _ _ _ result _ _ _ ih =>
      cases result with
      | ok others last =>
          cases hresult
          exact ih rfl
      | error diagnostic last => cases hresult

/-- A script is read up to its end. -/
theorem ahead_of_program {tree : Node} {rest : TokenStream}
    (hrun : Grammar.program stream = .ok tree rest) : rest.ahead = [] := by
  rw [program_eq_loop] at hrun
  rcases Parse.bind_eq_ok.1 hrun with ⟨statements, last, hloop, hlast⟩
  cases hlast
  have hexpression : Consumes Grammar.recursive.expression := Coincide.consumes fun bound =>
    (Grammar.nested_recursive_self bound).expression
  rcases loops_loop (fun isFirst stream item rest =>
    statementRound_consumes hexpression isFirst stream (some item) rest)
    (Nat.lt_succ_self stream.ahead.length) true with ⟨rounds, _, hloops⟩
  rw [hloop] at hloops
  exact hloops.ahead_eq_nil

open Grammar

/-- Reading ends, for every vocabulary and every source text, also one that is not a script.

The lexer comes to its end.  The recursion of the grammar has one solution, `recursive`, because a
rule uses its nested readers on fewer tokens than it was given; these readers and those of the
elements of a list consume a token when they succeed.  A bound on the nesting that is greater than
the number of tokens is never met, whatever would be done there, and the same holds for the
operators of an operation.  The loops for lists and for statements go round at most once for each
token that is left, and what the last one gives is what the text is read as. -/
theorem parsing_terminates (vocabulary : Vocabulary) (source : String) :
    (∃ items last, (Lexer.ofSource vocabulary source).Gives items last ∧
      last.next = (none, last) ∧ items.length ≤ source.toList.length ∧
      (TokenStream.ofSource vocabulary source).ahead.length ≤ items.length) ∧
    (∀ readers : Level, readers = readers.above ↔ readers = recursive) ∧
    (∀ count nested nested', Nested count nested nested' →
      Nested (count + 1) nested.above nested'.above) ∧
    (Consumes recursive.atom ∧ Consumes recursive.expression ∧
      ∀ expected, Consumes (TokenStream.advance expected)) ∧
    (∀ base depth, ∀ stream : TokenStream, stream.ahead.length < depth →
      (levelFrom base depth).atom stream = recursive.atom stream ∧
      (levelFrom base depth).expression stream = recursive.expression stream) ∧
    (∀ fuel, ∀ stream : TokenStream, stream.ahead.length < fuel →
      operatorTail recursive.atom fuel stream =
        operatorTail recursive.atom (stream.ahead.length + 1) stream) ∧
    (∀ closing separator fuel, ∀ stream : TokenStream, ∀ {α : Type} (element : Parse α),
      Consumes element → stream.ahead.length < fuel →
      ∃ rounds ≤ stream.ahead.length,
        Loops (elementRound closing separator element) true rounds stream
          (TokenStream.elements closing separator element fuel true stream)) ∧
    ∃ rounds result, rounds ≤ (TokenStream.ofSource vocabulary source).ahead.length ∧
      Loops (statementRound recursive.expression) true rounds
        (TokenStream.ofSource vocabulary source) result ∧
      Script.parseWith vocabulary source = scriptOutcome result := by
  have hatom : Consumes recursive.atom := Coincide.consumes fun bound =>
    (nested_recursive_self bound).atom
  have hexpression : Consumes recursive.expression := Coincide.consumes fun bound =>
    (nested_recursive_self bound).expression
  refine ⟨Lexer.gives_all vocabulary source, eq_above_iff, fun _ _ _ => Nested.above,
    ⟨hatom, hexpression, fun _ => .of_agrees fun _ => Pairing.Agrees.advance _⟩,
    fun base _ _ => levelFrom_eq base, ?operators, ?lists, ?statements⟩
  case operators =>
    intro fuel stream hfuel
    exact (coincide_iff.2 (operatorTail_fuel hatom (Nat.le_refl _) hfuel) stream
      (Nat.lt_succ_self _)).1
  case lists =>
    intro closing separator fuel stream α element helement hfuel
    rw [elements_eq_loop]
    exact loops_loop (fun isFirst _ _ _ => elementRound_consumes closing separator helement isFirst)
      hfuel true
  case statements =>
    have hround : ∀ isFirst stream item rest,
        statementRound recursive.expression isFirst stream = .ok (some item) rest →
        rest.ahead.length < stream.ahead.length :=
      fun isFirst stream item rest =>
        statementRound_consumes hexpression isFirst stream (some item) rest
    rcases loops_loop hround
      (Nat.lt_succ_self (TokenStream.ofSource vocabulary source).ahead.length) true with
      ⟨rounds, hrounds, hloops⟩
    exact ⟨rounds, _, hrounds, hloops, parseWith_eq_scriptOutcome vocabulary source⟩

end Workshop

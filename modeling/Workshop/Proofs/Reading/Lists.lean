import Workshop.Proofs.Reading.Termination

/-!
# Lists between brackets

A list between brackets is read by a loop that tests for the end of the tokens,
for the closing bracket and for a separator, in an order that depends on whether
an element has been read.  This module says what lists look like without saying
how they are read: elements with separators between them, and perhaps one more
behind the last.  The reader of elements is any reader that takes tokens.

Main definitions:

- `TakesTokens`: a reader that takes at least one token whenever it succeeds.
- `ListRest`: what is left of a list is read up to the closing bracket.
- `ListEntry`: an element of a list with the separator behind it.
- `Separated`, `ReadInTurn`: the form of a list, and how its elements are read.

Main results:

- Theorem `elements_iff`: the loop for the elements of a list, with no bound on
  its rounds.
- Theorem `ListRest.exists_entries`, `listRest_of_entries`: what is read has the
  form of a list, and what has this form is read.
- Theorem `listRest_pass`: elements that have a separator behind them are passed.
- Theorem `delimited_accepts_lists`: lists between brackets.
-/

namespace Workshop

open TokenStream

variable {α : Type} {closing separator : String} {element : Parse α} {fuel : Nat} {isFirst : Bool}
  {stream last : TokenStream} {items : List α}

/-- A reader that takes tokens from the front of a stream, at least one whenever it succeeds. -/
def TakesTokens (parse : Parse α) : Prop :=
  ∀ stream a rest, parse stream = .ok a rest →
    ∃ taken, taken ≠ [] ∧ stream.ahead = taken ++ rest.ahead

/-- A reader that takes tokens consumes. -/
theorem TakesTokens.consumes {parse : Parse α} (hparse : TakesTokens parse) : Consumes parse := by
  intro stream a rest hrun
  rcases hparse stream a rest hrun with ⟨taken, htaken, hahead⟩
  have hpos := List.length_pos_iff.2 htaken
  rw [hahead, List.length_append]
  omega

/-! ## Single tokens -/

namespace TokenStream

/-- Whether the given operator comes next. -/
def faces (stream : TokenStream) (operator : String) : Bool :=
  stream.ahead.head?.any fun token => token.is .operator operator

/-- The stream with the given tokens to come, the first of which has been looked at. -/
def facing (stream : TokenStream) (tokens : List Token) : TokenStream :=
  { stream with ahead := tokens, probed := true }

variable {rest : TokenStream} {operator : String}

/-- The next token decides what a stream faces. -/
theorem faces_of_ahead {token : Token} {tokens : List Token}
    (hahead : stream.ahead = token :: tokens) (operator : String) :
    stream.faces operator = token.is .operator operator := by
  rw [faces, hahead]
  rfl

/-- A stream that faces an operator. -/
theorem faces_iff :
    stream.faces operator = true ↔
      ∃ token tokens, stream.ahead = token :: tokens ∧ token.is .operator operator = true := by
  unfold faces
  cases stream.ahead with
  | nil => simp
  | cons token tokens => simp

/-- Such a stream has tokens. -/
theorem ne_nil_of_faces (hfaces : stream.faces operator = true) : stream.ahead ≠ [] := by
  rcases faces_iff.1 hfaces with ⟨token, tokens, hahead, _⟩
  simp [hahead]

/-- Different operators do not come next at once. -/
theorem faces_eq_false {other : String} (hfaces : stream.faces operator = true)
    (hother : operator ≠ other) : stream.faces other = false := by
  rcases faces_iff.1 hfaces with ⟨token, tokens, hahead, htoken⟩
  rw [Bool.eq_false_iff]
  intro hfaces'
  rcases faces_iff.1 hfaces' with ⟨token', tokens', hahead', htoken'⟩
  cases hahead.symm.trans hahead'
  exact hother ((Token.is_iff.1 htoken).2.symm.trans (Token.is_iff.1 htoken').2)

/-- Two ways to test for an operator. -/
theorem is_operator_eq (token : Token) (operator : String) :
    token.is .operator operator =
      (token.kind == .operator && [operator].contains token.text) := by
  simp [Token.is, Bool.beq_eq_decide_eq]

/-- Where tokens are left, an operator can be looked for. -/
theorem nextIs_operator (hahead : stream.ahead ≠ []) (operator : String) :
    nextIs .operator [operator] stream =
      .ok (stream.faces operator) (stream.facing stream.ahead) := by
  rcases stream with ⟨ahead, fault, probed, finish⟩
  cases ahead with
  | nil => exact absurd rfl hahead
  | cons token tokens =>
      rw [faces_of_ahead rfl, is_operator_eq]
      rfl

/-- An operator is required. -/
theorem expectOperator_cons (operator : String) (token : Token) (tokens : List Token)
    (fault : Option LexFault) (probed : Bool) (finish : Position) :
    expectOperator operator ⟨token :: tokens, fault, probed, finish⟩ =
      if token.is .operator operator then .ok token ⟨tokens, fault, false, finish⟩
      else .error (.misplaced token (.expected (alternatives [operator])))
        ⟨tokens, fault, false, finish⟩ := by
  rw [is_operator_eq]
  exact apply_ite (fun parse : Parse Token => parse ⟨tokens, fault, false, finish⟩) _ _ _

/-- A result that does not matter. -/
theorem discard_eq_ok {parse : Parse α} :
    (discard parse : Parse Unit) stream = .ok () rest ↔ ∃ a, parse stream = .ok a rest := by
  simp only [Functor.discard, Functor.mapConst, Function.comp_apply, EStateM.map, Function.const]
  cases parse stream with
  | ok a last => simp
  | error diagnostic last => simp

/-- An operator that has to come next is taken away, and there is no other way to go on. -/
theorem discard_expectOperator_eq_ok :
    (discard (expectOperator operator) : Parse Unit) stream = .ok () rest ↔
      stream.faces operator = true ∧
        rest = { stream with ahead := stream.ahead.tail, probed := false } := by
  rw [discard_eq_ok]
  rcases stream with ⟨ahead, fault, probed, finish⟩
  cases ahead with
  | nil =>
      constructor
      · rintro ⟨token, hrun⟩
        cases fault <;> cases hrun
      · rintro ⟨hfaces, _⟩
        cases hfaces
  | cons token tokens =>
      rw [expectOperator_cons]
      cases htoken : token.is .operator operator <;> simp [faces, htoken, eq_comm]

end TokenStream

/-- The second reader goes on. -/
theorem Parse.bind_of_ok {β : Type} {parse : Parse α} {next : α → Parse β}
    {stream middle : TokenStream} {a : α} (hparse : parse stream = .ok a middle) :
    (parse >>= next) stream = next a middle := by
  simp only [bind, EStateM.bind, hparse]

/-! ## One round of the loop -/

/-- No element is read where no token is left. -/
theorem TakesTokens.ne_nil (helement : TakesTokens element) {tokens : List Token} {value : α}
    (hrun : element (stream.facing tokens) = .ok value last) : tokens ≠ [] := by
  rcases helement _ _ _ hrun with ⟨taken, htaken, hahead⟩
  rintro rfl
  exact htaken (List.append_eq_nil_iff.1 hahead.symm).1

/-- Whether the next token has been looked at does not matter. -/
theorem elementsFrom_facing :
    elementsFrom closing separator element fuel stream =
      elementsFrom closing separator element fuel (stream.facing stream.ahead) := by
  rcases stream with ⟨ahead, fault, probed, finish⟩
  cases ahead with
  | nil => cases fault <;> rfl
  | cons token tokens => rfl

/-- The closing bracket ends the elements. -/
theorem elementsFrom_closing (hcloses : stream.faces closing = true) :
    elementsFrom closing separator element fuel stream =
      .ok [] (stream.facing stream.ahead) := by
  rw [elementsFrom, Parse.bind_of_ok (nextIs_operator (ne_nil_of_faces hcloses) closing),
    if_pos hcloses]
  rfl

/-- Where the closing bracket is not found, an element is read, and then those behind it. -/
theorem elementsFrom_eq_ok (helement : TakesTokens element)
    (hopen : stream.faces closing = false) :
    elementsFrom closing separator element fuel stream = .ok items last ↔
      ∃ value left others, element (stream.facing stream.ahead) = .ok value left ∧
        elements closing separator element fuel false left = .ok others last ∧
        items = value :: others := by
  have hread : elementsFrom closing separator element fuel stream = .ok items last ↔ (do
      let head ← element
      let rest ← elements closing separator element fuel false
      pure (head :: rest)) (stream.facing stream.ahead) = .ok items last := by
    by_cases hahead : stream.ahead = []
    · rcases stream with ⟨ahead, fault, probed, finish⟩
      cases hahead
      cases fault with
      | none => exact Iff.rfl
      | some fault =>
          refine iff_of_false (fun hrun => by cases hrun) fun hrun => ?_
          rcases Parse.bind_eq_ok.1 hrun with ⟨value, left, hvalue, _⟩
          exact helement.ne_nil hvalue rfl
    · rw [elementsFrom, Parse.bind_of_ok (nextIs_operator hahead closing), hopen,
        if_neg Bool.false_ne_true]
  rw [hread, Parse.bind_eq_ok]
  constructor
  · rintro ⟨value, left, hvalue, hrun⟩
    rcases Parse.bind_eq_ok.1 hrun with ⟨others, _, hothers, hitems⟩
    cases hitems
    exact ⟨value, left, others, hvalue, hothers, rfl⟩
  · rintro ⟨value, left, others, hvalue, hothers, rfl⟩
    exact ⟨value, left, hvalue, Parse.bind_eq_ok.2 ⟨others, last, hothers, rfl⟩⟩

/-- Where no token is left, no closing bracket is found. -/
theorem elements_at_nil (hahead : stream.ahead = []) :
    ¬ (elements closing separator element (fuel + 1) isFirst stream = .ok items last ∧
      last.faces closing = true) := by
  rintro ⟨hrun, hcloses⟩
  rcases stream with ⟨ahead, fault, probed, finish⟩
  cases hahead
  cases fault with
  | some fault => cases hrun
  | none =>
      cases hrun
      cases hcloses

/-- Where tokens are left, the closing bracket is looked for, and a separator is taken away unless
the first element may stand there. -/
theorem elements_at_cons (hahead : stream.ahead ≠ []) :
    elements closing separator element (fuel + 1) isFirst stream =
      if stream.faces closing then .ok [] (stream.facing stream.ahead)
      else if isFirst then elementsFrom closing separator element fuel stream
      else (do
        discard (expectOperator separator)
        elementsFrom closing separator element fuel) (stream.facing stream.ahead) := by
  have hround : elements closing separator element (fuel + 1) isFirst stream =
      (do
        if ← nextIs .operator [closing] then pure []
        else if isFirst then elementsFrom closing separator element fuel
        else
          discard (expectOperator separator)
          elementsFrom closing separator element fuel) (stream.facing stream.ahead) := by
    rcases stream with ⟨ahead, fault, probed, finish⟩
    cases ahead with
    | nil => exact absurd rfl hahead
    | cons token tokens => cases isFirst <;> rfl
  have hnext : nextIs .operator [closing] (stream.facing stream.ahead) =
      .ok (stream.faces closing) (stream.facing stream.ahead) := nextIs_operator hahead closing
  rw [hround, Parse.bind_of_ok hnext]
  cases stream.faces closing with
  | true => rfl
  | false =>
      cases isFirst with
      | true => exact elementsFrom_facing.symm
      | false => rfl

/-! ## Elements up to the closing bracket -/

/-- What is left of a list is read up to the closing bracket, which comes next: from a place where
an element may stand, or from behind an element. -/
inductive ListRest (closing separator : String) (element : Parse α) :
    Bool → TokenStream → List α → TokenStream → Prop
  | closed {isFirst : Bool} {stream : TokenStream} :
      stream.faces closing = true →
      ListRest closing separator element isFirst stream [] (stream.facing stream.ahead)
  | element {stream left last : TokenStream} {value : α} {others : List α} :
      stream.faces closing = false → element (stream.facing stream.ahead) = .ok value left →
      ListRest closing separator element false left others last →
      ListRest closing separator element true stream (value :: others) last
  | separator {stream last : TokenStream} {items : List α} :
      stream.faces separator = true →
      ListRest closing separator element true (stream.facing stream.ahead.tail) items last →
      ListRest closing separator element false stream items last

/-- The rest of a list has tokens. -/
theorem ListRest.ne_nil (helement : TakesTokens element)
    (hrest : ListRest closing separator element isFirst stream items last) :
    stream.ahead ≠ [] := by
  cases hrest with
  | closed hcloses => exact ne_nil_of_faces hcloses
  | element _ hvalue _ => exact helement.ne_nil hvalue
  | separator hseparator _ => exact ne_nil_of_faces hseparator

/-- From a place where an element may stand, if what is behind an element is known. -/
theorem elementsFrom_iff (helement : TakesTokens element)
    (hothers : ∀ left others, left.ahead.length < stream.ahead.length →
      (elements closing separator element fuel false left = .ok others last ∧
          last.faces closing = true ↔
        ListRest closing separator element false left others last)) :
    elementsFrom closing separator element fuel stream = .ok items last ∧
        last.faces closing = true ↔
      ListRest closing separator element true stream items last := by
  have hless {value : α} {left : TokenStream}
      (hvalue : element (stream.facing stream.ahead) = .ok value left) :
      left.ahead.length < stream.ahead.length :=
    helement.consumes (stream.facing stream.ahead) value left hvalue
  constructor
  · rintro ⟨hrun, hlast⟩
    cases hcloses : stream.faces closing with
    | true =>
        rw [elementsFrom_closing hcloses] at hrun
        cases hrun
        exact .closed hcloses
    | false =>
        rcases (elementsFrom_eq_ok helement hcloses).1 hrun with
          ⟨value, left, others, hvalue, hrest, rfl⟩
        exact .element hcloses hvalue ((hothers left others (hless hvalue)).1 ⟨hrest, hlast⟩)
  · intro hrest
    cases hrest with
    | closed hcloses => exact ⟨elementsFrom_closing hcloses, hcloses⟩
    | element hopen hvalue hrest =>
        rcases (hothers _ _ (hless hvalue)).2 hrest with ⟨hrun, hlast⟩
        exact ⟨(elementsFrom_eq_ok helement hopen).2 ⟨_, _, _, hvalue, hrun, rfl⟩, hlast⟩

/-- In front of the bracket nothing is left. -/
theorem listRest_of_closing (hdifferent : separator ≠ closing)
    (hcloses : stream.faces closing = true) :
    ListRest closing separator element isFirst stream items last ↔
      items = [] ∧ last = stream.facing stream.ahead := by
  constructor
  · intro hrest
    cases hrest with
    | closed _ => exact ⟨rfl, rfl⟩
    | element hopen _ _ => cases hopen.symm.trans hcloses
    | separator hseparator _ =>
        cases (faces_eq_false hseparator hdifferent).symm.trans hcloses
  · rintro ⟨rfl, rfl⟩
    exact .closed hcloses

/-- The elements of a list up to the closing bracket, with no bound on the rounds. -/
theorem elements_iff (hdifferent : separator ≠ closing) (helement : TakesTokens element)
    (hfuel : stream.ahead.length < fuel) :
    elements closing separator element fuel isFirst stream = .ok items last ∧
        last.faces closing = true ↔
      ListRest closing separator element isFirst stream items last := by
  induction fuel generalizing stream isFirst items with
  | zero => omega
  | succ fuel ih =>
      by_cases hahead : stream.ahead = []
      · exact iff_of_false (elements_at_nil hahead) fun hrest => hrest.ne_nil helement hahead
      rw [elements_at_cons hahead]
      have hplace {place : TokenStream} (hle : place.ahead.length ≤ stream.ahead.length) :
          elementsFrom closing separator element fuel place = .ok items last ∧
              last.faces closing = true ↔
            ListRest closing separator element true place items last :=
        elementsFrom_iff helement fun _ _ _ => ih (by omega)
      cases hcloses : stream.faces closing with
      | true =>
          rw [if_pos rfl, listRest_of_closing hdifferent hcloses]
          constructor
          · rintro ⟨hrun, _⟩
            cases hrun
            exact ⟨rfl, rfl⟩
          · rintro ⟨rfl, rfl⟩
            exact ⟨rfl, hcloses⟩
      | false =>
          cases isFirst with
          | true => exact hplace (Nat.le_refl _)
          | false =>
              have htail := hplace (show (stream.facing stream.ahead.tail).ahead.length ≤
                stream.ahead.length by simp [facing])
              constructor
              · rintro ⟨hrun, hlast⟩
                rcases Parse.bind_eq_ok.1 hrun with ⟨_, middle, hexpect, hrest⟩
                rcases discard_expectOperator_eq_ok.1 hexpect with ⟨hseparator, rfl⟩
                rw [elementsFrom_facing] at hrest
                exact .separator hseparator (htail.1 ⟨hrest, hlast⟩)
              · intro hrest
                cases hrest with
                | closed hcloses' => cases hcloses.symm.trans hcloses'
                | separator hseparator hrest =>
                    rcases htail.2 hrest with ⟨hrun, hlast⟩
                    refine ⟨Parse.bind_eq_ok.2 ⟨(), _,
                      discard_expectOperator_eq_ok.2 ⟨hseparator, rfl⟩, ?_⟩, hlast⟩
                    rw [elementsFrom_facing]
                    exact hrun

/-! ## The form of a list -/

/-- An element of a list: its tokens, its value, and the separator behind it if there is one. -/
structure ListEntry (α : Type) where
  tokens : List Token
  value : α
  separator : Option Token

/-- The tokens of elements and separators that stand one after the other. -/
def ListEntry.spread (entries : List (ListEntry α)) : List Token :=
  entries.flatMap fun entry => entry.tokens ++ entry.separator.toList

@[simp]
theorem ListEntry.spread_nil : spread ([] : List (ListEntry α)) = [] := rfl

/-- The tokens of the first entry come first. -/
@[simp]
theorem ListEntry.spread_cons (entry : ListEntry α) (entries : List (ListEntry α)) :
    spread (entry :: entries) = entry.tokens ++ (entry.separator.toList ++ spread entries) := by
  simp [spread]

open ListEntry

/-- Elements with separators between them, and perhaps one more behind the last.  None of them
starts with the closing bracket. -/
structure Separated (closing separator : String) (entries : List (ListEntry α)) : Prop where
  opens : ∀ entry ∈ entries, ∀ token ∈ entry.tokens.head?, token.is .operator closing = false
  separators : ∀ entry ∈ entries, ∀ token ∈ entry.separator, token.is .operator separator = true
  between : ∀ entry ∈ entries.dropLast, entry.separator.isSome = true

instance (closing separator : String) (entries : List (ListEntry α)) :
    Decidable (Separated closing separator entries) :=
  decidable_of_iff
    ((∀ entry ∈ entries, ∀ token ∈ entry.tokens.head?, token.is .operator closing = false) ∧
      (∀ entry ∈ entries, ∀ token ∈ entry.separator, token.is .operator separator = true) ∧
      ∀ entry ∈ entries.dropLast, entry.separator.isSome = true)
    ⟨fun h => ⟨h.1, h.2.1, h.2.2⟩, fun h => ⟨h.opens, h.separators, h.between⟩⟩

/-- The reader of elements is run at each element, with all that follows it; behind the last element
and its separator the tokens `rest` follow.  It consumes exactly the tokens of the element and
returns its value.  Whatever else it changes in a stream is there in the next run.  The stream that
faces `rest` in the end is `last`. -/
def ReadInTurn (element : Parse α) (rest : List Token) :
    TokenStream → List (ListEntry α) → TokenStream → Prop
  | stream, [], last => last = stream.facing rest
  | stream, entry :: entries, last =>
    ∃ left, element (stream.facing (spread (entry :: entries) ++ rest)) = .ok entry.value left ∧
      left.ahead = entry.separator.toList ++ (spread entries ++ rest) ∧
      ReadInTurn element rest left entries last

section Entries

variable {final : TokenStream} {rest : List Token} {entry : ListEntry α}
  {entries : List (ListEntry α)}

namespace Separated

theorem nil : Separated closing separator ([] : List (ListEntry α)) where
  opens := by simp
  separators := by simp
  between := by simp

/-- Fewer entries. -/
theorem tail (hseparated : Separated closing separator (entry :: entries)) :
    Separated closing separator entries where
  opens other hmem := hseparated.opens other (List.mem_cons_of_mem _ hmem)
  separators other hmem := hseparated.separators other (List.mem_cons_of_mem _ hmem)
  between other hmem := by
    cases entries with
    | nil => cases hmem
    | cons next entries => exact hseparated.between other (List.mem_cons_of_mem _ hmem)

/-- Only the last element may lack a separator. -/
theorem eq_nil (hseparated : Separated closing separator (entry :: entries))
    (hnone : entry.separator = none) : entries = [] := by
  cases entries with
  | nil => rfl
  | cons next entries =>
      have hsome := hseparated.between entry List.mem_cons_self
      rw [hnone] at hsome
      cases hsome

/-- One more entry in front. -/
theorem cons (hopens : ∀ token ∈ entry.tokens.head?, token.is .operator closing = false)
    (hseparators : ∀ token ∈ entry.separator, token.is .operator separator = true)
    (hbetween : entry.separator = none → entries = [])
    (hseparated : Separated closing separator entries) :
    Separated closing separator (entry :: entries) where
  opens := List.forall_mem_cons.2 ⟨hopens, hseparated.opens⟩
  separators := List.forall_mem_cons.2 ⟨hseparators, hseparated.separators⟩
  between other hmem := by
    cases entries with
    | nil => cases hmem
    | cons next entries =>
        rcases List.mem_cons.1 hmem with rfl | hmem
        · rw [Option.isSome_iff_ne_none]
          intro hnone
          cases hbetween hnone
        · exact hseparated.between other hmem

end Separated

/-- The stream looks at what is left. -/
theorem ReadInTurn.facing_eq (hread : ReadInTurn element rest stream entries last) :
    last.facing rest = last := by
  induction entries generalizing stream with
  | nil =>
      cases hread
      rfl
  | cons entry entries ih =>
      rcases hread with ⟨left, _, _, hread⟩
      exact ih hread

/-- The tokens behind the entries are left. -/
theorem ReadInTurn.ahead (hread : ReadInTurn element rest stream entries last) :
    last.ahead = rest :=
  (congrArg TokenStream.ahead hread.facing_eq).symm

/-- The tokens that a stream holds do not matter, since those of the elements take their place. -/
theorem readInTurn_facing {tokens : List Token} :
    ReadInTurn element rest (stream.facing tokens) entries last ↔
      ReadInTurn element rest stream entries last := by
  cases entries <;> exact Iff.rfl

/-- What is read has the form of a list.  Behind an element a separator comes first, unless the
list is at its end. -/
theorem ListRest.exists_entries (helement : TakesTokens element)
    (hrest : ListRest closing separator element isFirst stream items last) :
    ∃ (lead : Option Token) (entries : List (ListEntry α)),
      stream.ahead = lead.toList ++ (spread entries ++ last.ahead) ∧
      (∀ token ∈ lead, isFirst = false ∧ token.is .operator separator = true) ∧
      (lead = none → isFirst = false → entries = []) ∧
      Separated closing separator entries ∧ items = entries.map ListEntry.value ∧
      ReadInTurn element last.ahead stream entries last := by
  induction hrest with
  | closed _ => exact ⟨none, [], rfl, by simp, fun _ _ => rfl, .nil, rfl, rfl⟩
  | @element stream left last value others hopen hvalue _ ih =>
      rcases ih with ⟨lead, entries, hleft, hlead, hnone, hseparated, hothers, hread⟩
      rcases helement _ _ _ hvalue with ⟨taken, htaken, htokens⟩
      have hahead : stream.ahead = spread (⟨taken, value, lead⟩ :: entries) ++ last.ahead := by
        rw [spread_cons, List.append_assoc, List.append_assoc, ← hleft]
        exact htokens
      have hopens : ∀ token ∈ taken.head?, token.is .operator closing = false := by
        intro token htoken
        rcases List.head?_eq_some_iff.1 htoken with ⟨more, rfl⟩
        have hfirst : stream.ahead = token :: (more ++ left.ahead) := htokens
        rw [← faces_of_ahead hfirst, hopen]
      refine ⟨none, ⟨taken, value, lead⟩ :: entries, hahead, by simp, by simp,
        .cons hopens (fun token hmem => (hlead token hmem).2) (fun hlead => hnone hlead rfl)
          hseparated, by rw [hothers]; rfl, left, ?_, hleft, hread⟩
      rw [← hahead]
      exact hvalue
  | @separator stream last items hseparator _ ih =>
      rcases ih with ⟨lead, entries, hahead, hlead, _, hseparated, hitems, hread⟩
      rcases faces_iff.1 hseparator with ⟨token, tokens, hstream, htoken⟩
      cases lead with
      | some token' => cases (hlead token' rfl).1
      | none =>
          have htokens : tokens = spread entries ++ last.ahead := by
            simpa [facing, hstream] using hahead
          refine ⟨some token, entries, ?_, ?_, by simp, hseparated, hitems,
            readInTurn_facing.1 hread⟩
          · rw [hstream, htokens]
            rfl
          · simpa using htoken

/-- An element that is read does not start with the closing bracket, if its tokens do not. -/
theorem faces_closing_of_read (helement : TakesTokens element) {tokens following : List Token}
    {value : α} {left : TokenStream}
    (hopens : ∀ token ∈ tokens.head?, token.is .operator closing = false)
    (hrun : element (stream.facing (tokens ++ following)) = .ok value left)
    (hleft : left.ahead = following) :
    (stream.facing (tokens ++ following)).faces closing = false := by
  rcases helement _ _ _ hrun with ⟨taken, htaken, hahead⟩
  rw [hleft] at hahead
  obtain rfl : tokens = taken := List.append_cancel_right hahead
  cases tokens with
  | nil => exact absurd rfl htaken
  | cons token tokens => exact hopens token rfl

/-- The first of some elements in the form of a list. -/
theorem Separated.faces_closing (helement : TakesTokens element)
    (hseparated : Separated closing separator (entry :: entries))
    (hread : ReadInTurn element rest stream (entry :: entries) last) :
    (stream.facing (spread (entry :: entries) ++ rest)).faces closing = false := by
  rcases hread with ⟨left, hrun, hleft, _⟩
  rw [spread_cons, List.append_assoc, List.append_assoc] at hrun ⊢
  exact faces_closing_of_read helement (hseparated.opens entry List.mem_cons_self) hrun hleft

/-- What has the form of a list is read. -/
theorem listRest_of_entries (helement : TakesTokens element)
    (hseparated : Separated closing separator entries)
    (hread : ReadInTurn element rest stream entries last) (hcloses : last.faces closing = true) :
    ListRest closing separator element true (stream.facing (spread entries ++ rest))
      (entries.map ListEntry.value) last := by
  induction entries generalizing stream with
  | nil =>
      cases hread
      exact .closed hcloses
  | cons entry entries ih =>
      have hopen := hseparated.faces_closing helement hread
      rcases hread with ⟨left, hrun, hleft, hread⟩
      refine .element hopen hrun ?_
      cases hseparator : entry.separator with
      | none =>
          cases hseparated.eq_nil hseparator
          cases hread
          rw [hseparator] at hleft
          have hrest : left.ahead = rest := hleft
          rw [← hrest] at hcloses ⊢
          exact .closed hcloses
      | some token =>
          rw [hseparator] at hleft
          have htoken : token.is .operator separator = true :=
            hseparated.separators entry List.mem_cons_self token hseparator
          refine .separator ((faces_of_ahead hleft separator).trans htoken) ?_
          rw [hleft]
          exact ih hseparated.tail hread

/-- Elements that are read and have a separator behind them are passed.  Then the rest of the list
is read from the place behind them. -/
theorem listRest_pass (hdifferent : separator ≠ closing) (helement : TakesTokens element)
    (hseparated : Separated closing separator entries)
    (hsome : ∀ entry ∈ entries, entry.separator.isSome = true)
    (hread : ReadInTurn element rest stream entries final)
    (hrest : ListRest closing separator element true (stream.facing (spread entries ++ rest)) items
      last) :
    ∃ others, items = entries.map ListEntry.value ++ others ∧
      ListRest closing separator element true final others last := by
  induction entries generalizing stream items with
  | nil =>
      cases hread
      exact ⟨items, rfl, hrest⟩
  | cons entry entries ih =>
      have hopen := hseparated.faces_closing helement hread
      rcases hread with ⟨left, hrun, hleft, hread⟩
      rw [List.forall_mem_cons] at hsome
      rcases Option.isSome_iff_exists.1 hsome.1 with ⟨token, htoken⟩
      have his : token.is .operator separator = true :=
        hseparated.separators entry List.mem_cons_self token htoken
      rw [htoken] at hleft
      have hfaces : left.faces separator = true := (faces_of_ahead hleft separator).trans his
      cases hrest with
      | closed hcloses =>
          rw [hopen] at hcloses
          cases hcloses
      | element _ hvalue hothers =>
          cases hrun.symm.trans hvalue
          cases hothers with
          | closed hcloses =>
              rw [faces_eq_false hfaces hdifferent] at hcloses
              cases hcloses
          | separator _ hothers =>
              rw [hleft] at hothers
              rcases ih hseparated.tail hsome.2 hread hothers with ⟨others, rfl, hplace⟩
              exact ⟨others, rfl, hplace⟩

end Entries

/-! ## Lists with their brackets -/

section Brackets

variable {opening : String} {after : TokenStream}

/-- Whether the next token has been looked at does not matter. -/
theorem listRest_facing :
    ListRest closing separator element isFirst (stream.facing stream.ahead) items last ↔
      ListRest closing separator element isFirst stream items last := by
  constructor
  all_goals
    intro hrest
    cases hrest with
    | closed hcloses => exact .closed hcloses
    | element hopen hvalue hothers => exact .element hopen hvalue hothers
    | separator hseparator hrest => exact .separator hseparator hrest

/-- The opening bracket, the elements, and the closing bracket. -/
theorem delimited_eq_ok (hdifferent : separator ≠ closing) (helement : TakesTokens element) :
    delimited opening closing separator element stream = .ok items after ↔
      stream.faces opening = true ∧ ∃ last,
        ListRest closing separator element true (stream.facing stream.ahead.tail) items last ∧
        last.faces closing = true ∧
        after = { last with ahead := last.ahead.tail, probed := false } := by
  let inner : TokenStream := { stream with ahead := stream.ahead.tail, probed := false }
  have hinner {last : TokenStream} :
      elements closing separator element (inner.ahead.length + 1) true inner = .ok items last ∧
          last.faces closing = true ↔
        ListRest closing separator element true (stream.facing stream.ahead.tail) items last :=
    (elements_iff hdifferent helement (Nat.lt_succ_self _)).trans listRest_facing.symm
  constructor
  · intro hrun
    rcases Parse.bind_eq_ok.1 hrun with ⟨_, middle, hopening, hrun⟩
    rcases discard_expectOperator_eq_ok.1 hopening with ⟨hfaces, rfl⟩
    rcases Parse.bind_eq_ok.1 hrun with ⟨_, _, hget, hrun⟩
    cases hget
    rcases Parse.bind_eq_ok.1 hrun with ⟨found, last, helements, hrun⟩
    rcases Parse.bind_eq_ok.1 hrun with ⟨_, _, hclosing, hpure⟩
    rcases discard_expectOperator_eq_ok.1 hclosing with ⟨hcloses, rfl⟩
    cases hpure
    exact ⟨hfaces, last, hinner.1 ⟨helements, hcloses⟩, hcloses, rfl⟩
  · rintro ⟨hfaces, last, hrest, hcloses, rfl⟩
    have hopening : (discard (expectOperator opening) : Parse Unit) stream = .ok () inner :=
      discard_expectOperator_eq_ok.2 ⟨hfaces, rfl⟩
    have hclosing : (discard (expectOperator closing) : Parse Unit) last =
        .ok () { last with ahead := last.ahead.tail, probed := false } :=
      discard_expectOperator_eq_ok.2 ⟨hcloses, rfl⟩
    refine Parse.bind_eq_ok.2 ⟨(), inner, hopening, ?_⟩
    refine Parse.bind_eq_ok.2 ⟨inner, inner, rfl, ?_⟩
    refine Parse.bind_eq_ok.2 ⟨items, last, (hinner.2 hrest).1, ?_⟩
    exact Parse.bind_eq_ok.2 ⟨(), _, hclosing, rfl⟩

/-- A list is accepted exactly if its tokens have the form of a list. -/
theorem delimited_eq_ok_iff (hdifferent : separator ≠ closing) (helement : TakesTokens element) :
    delimited opening closing separator element stream = .ok items after ↔
      ∃ first entries last rest place,
        stream.ahead = first :: (spread entries ++ last :: rest) ∧
        first.is .operator opening = true ∧ last.is .operator closing = true ∧
        Separated closing separator entries ∧ items = entries.map ListEntry.value ∧
        ReadInTurn element (last :: rest) stream entries place ∧
        after = { place with ahead := rest, probed := false } := by
  rw [delimited_eq_ok hdifferent helement]
  constructor
  · rintro ⟨hfaces, place, hlist, hcloses, rfl⟩
    rcases faces_iff.1 hfaces with ⟨first, tokens, hahead, hfirst⟩
    rcases faces_iff.1 hcloses with ⟨last, rest, hlast, hclosing⟩
    rcases hlist.exists_entries helement with
      ⟨lead, entries, htokens, hlead, _, hseparated, hitems, hread⟩
    cases lead with
    | some token => cases (hlead token rfl).1
    | none =>
        rw [hlast] at htokens hread
        refine ⟨first, entries, last, rest, place, ?_, hfirst, hclosing, hseparated, hitems,
          readInTurn_facing.1 hread, ?_⟩
        · rw [hahead] at htokens ⊢
          exact congrArg (first :: ·) htokens
        · rw [hlast]
          rfl
  · rintro ⟨first, entries, last, rest, place, hahead, hfirst, hclosing, hseparated, rfl, hread,
      rfl⟩
    have hplace := hread.ahead
    have hcloses : place.faces closing = true := (faces_of_ahead hplace closing).trans hclosing
    refine ⟨(faces_of_ahead hahead opening).trans hfirst, place, ?_, hcloses, ?_⟩
    · rw [hahead]
      exact listRest_of_entries helement hseparated hread hcloses
    · rw [hplace]
      rfl

/-- Lists take tokens. -/
theorem TakesTokens.delimited (hdifferent : separator ≠ closing) (helement : TakesTokens element) :
    TakesTokens (TokenStream.delimited opening closing separator element) := by
  intro stream items after hrun
  rcases (delimited_eq_ok_iff hdifferent helement).1 hrun with
    ⟨first, entries, last, rest, place, hahead, _, _, _, _, _, rfl⟩
  refine ⟨first :: (spread entries ++ [last]), List.cons_ne_nil _ _, ?_⟩
  simp [hahead]

/-- So does a single token. -/
theorem takesTokens_advance (expected : String) : TakesTokens (advance expected) := by
  rintro ⟨ahead, fault, probed, finish⟩ token rest hrun
  cases ahead with
  | nil => cases fault <;> cases hrun
  | cons first others =>
      cases hrun
      exact ⟨[token], List.cons_ne_nil _ _, rfl⟩

end Brackets

/-- Lists between brackets, for any reader of elements that takes a token when it succeeds.

A list is read exactly if the tokens to come are the opening bracket, elements with separators
between them and perhaps one more behind the last of them, and the closing bracket.  No element
starts with the closing bracket, and the reader of elements, run where an element stands, consumes
exactly the element and returns its value.  All these tokens are then consumed, and no others.

Let some elements, or none, be read with a separator behind each of them.  If another separator
follows, the list is read only if the reader of elements accepts it as an element.  And if one more
element follows, the list is read only if a separator or the closing bracket stands behind it. -/
theorem delimited_accepts_lists {opening closing separator : String}
    (hdifferent : separator ≠ closing) {element : Parse α} (helement : TakesTokens element)
    (stream : TokenStream) :
    (∀ items after, delimited opening closing separator element stream = .ok items after ↔
      ∃ first entries last rest place,
        stream.ahead = first :: (spread entries ++ last :: rest) ∧
        first.is .operator opening = true ∧ last.is .operator closing = true ∧
        Separated closing separator entries ∧ items = entries.map ListEntry.value ∧
        ReadInTurn element (last :: rest) stream entries place ∧
        after = { place with ahead := rest, probed := false }) ∧
    ∀ items after first entries following place,
      delimited opening closing separator element stream = .ok items after →
      stream.ahead = first :: (spread entries ++ following) →
      Separated closing separator entries →
      (∀ entry ∈ entries, entry.separator.isSome = true) →
      ReadInTurn element following stream entries place →
      (place.faces separator = true → ∃ value left, element place = .ok value left) ∧
      ∀ value left, place.faces closing = false → element place = .ok value left →
        left.faces separator = true ∨ left.faces closing = true := by
  refine ⟨fun items after => delimited_eq_ok_iff hdifferent helement, ?_⟩
  intro items after first entries following place hrun hahead hseparated hsome hread
  rcases (delimited_eq_ok hdifferent helement).1 hrun with ⟨_, last, hlist, _, _⟩
  rw [hahead] at hlist
  rcases listRest_pass hdifferent helement hseparated hsome hread hlist with
    ⟨others, _, hplace⟩
  have hlooked : place.facing place.ahead = place := by
    rw [hread.ahead]
    exact hread.facing_eq
  constructor
  · intro hseparator
    cases hplace with
    | closed hcloses =>
        rw [faces_eq_false hseparator hdifferent] at hcloses
        cases hcloses
    | @element _ left _ value _ _ hvalue _ => exact ⟨value, left, hlooked ▸ hvalue⟩
  · intro value left hopen hvalue
    cases hplace with
    | closed hcloses =>
        rw [hopen] at hcloses
        cases hcloses
    | element _ hvalue' hothers =>
        rw [hlooked] at hvalue'
        cases hvalue.symm.trans hvalue'
        cases hothers with
        | closed hcloses => exact .inr hcloses
        | separator hseparator _ => exact .inl hseparator

/-- An operator in a text of one line. -/
def operatorIn (text : String) (column : Nat) : Token :=
  ⟨.operator, text, ⟨column - 1, 1, column⟩⟩

/-- A name in a text of one line. -/
def nameIn (text : String) (column : Nat) : Token :=
  ⟨.identifier, text, ⟨column - 1, 1, column⟩⟩

/-- The tokens of `((,,a,),()) b`. -/
def nestedLists : TokenStream where
  ahead := [operatorIn "(" 1, operatorIn "(" 2, operatorIn "," 3, operatorIn "," 4, nameIn "a" 5,
    operatorIn "," 6, operatorIn ")" 7, operatorIn "," 8, operatorIn "(" 9, operatorIn ")" 10,
    operatorIn ")" 11, nameIn "b" 13]
  fault := none
  probed := false
  finish := ⟨13, 1, 14⟩

/-- Lists of any tokens as elements of a list.  The first of them starts with two commas, one of
which is an element, and ends with one more. -/
theorem delimited_accepts_lists_nested :
    let inner := delimited "(" ")" "," (advance "an element")
    "," ≠ ")" ∧ TakesTokens (advance "an element") ∧ TakesTokens inner ∧
      TokenStream.ofSource .standard "((,,a,),()) b" = nestedLists ∧
      delimited "(" ")" "," inner nestedLists =
        .ok [[operatorIn "," 3, nameIn "a" 5], []]
          { nestedLists with ahead := [nameIn "b" 13], probed := false } ∧
      ∃ value left, advance "an element" (nestedLists.facing (nestedLists.ahead.drop 2)) =
        .ok value left := by
  intro inner
  have hdifferent : "," ≠ ")" := by decide
  have hany := takesTokens_advance "an element"
  have hinner : TakesTokens inner := hany.delimited hdifferent
  let place := nestedLists.facing nestedLists.ahead.tail
  have hfirst : inner place = .ok [operatorIn "," 3, nameIn "a" 5]
      { place with ahead := place.ahead.drop 6, probed := false } := by
    refine ((delimited_accepts_lists hdifferent hany place).1 _ _).2 ⟨operatorIn "(" 2,
      [⟨[operatorIn "," 3], operatorIn "," 3, some (operatorIn "," 4)⟩,
        ⟨[nameIn "a" 5], nameIn "a" 5, some (operatorIn "," 6)⟩], operatorIn ")" 7, _, _, rfl, rfl,
      rfl, by decide, rfl, ⟨_, rfl, rfl, _, rfl, rfl, rfl⟩, rfl⟩
  have hlist : delimited "(" ")" "," inner nestedLists =
        .ok [[operatorIn "," 3, nameIn "a" 5], []]
          { nestedLists with ahead := [nameIn "b" 13], probed := false } := by
    refine ((delimited_accepts_lists hdifferent hinner nestedLists).1 _ _).2 ⟨operatorIn "(" 1,
      [⟨[operatorIn "(" 2, operatorIn "," 3, operatorIn "," 4, nameIn "a" 5, operatorIn "," 6,
          operatorIn ")" 7], [operatorIn "," 3, nameIn "a" 5], some (operatorIn "," 8)⟩,
        ⟨[operatorIn "(" 9, operatorIn ")" 10], [], none⟩], operatorIn ")" 11, _, _, rfl, rfl,
      rfl, by decide, rfl, ⟨_, hfirst, rfl,
        { nestedLists with ahead := nestedLists.ahead.drop 10, probed := false }, ?_, rfl, rfl⟩,
      rfl⟩
    exact ((delimited_accepts_lists hdifferent hany _).1 _ _).2 ⟨operatorIn "(" 9, [],
      operatorIn ")" 10, _, _, rfl, rfl, rfl, .nil, rfl, rfl, rfl⟩
  refine ⟨hdifferent, hany, hinner, by decide +kernel, hlist, ?_⟩
  exact ((delimited_accepts_lists hdifferent hany place).2 _ _ _ [] _ _ hfirst rfl .nil (by simp)
    rfl).1 rfl

end Workshop

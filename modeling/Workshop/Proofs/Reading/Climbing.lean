import Workshop.Proofs.Reading.Termination

/-!
# Precedence climbing

The grammar reads operators and operands one by one and puts each operator into
the right edge of the tree that was built so far.  Precedence climbing reads the
same tokens in another way: the left operand is complete at any time, and the
right operand of an operator is read by the same reader, which takes only
operators that bind more tightly.  The two readers give the same trees, report
the same errors, and leave the same tokens behind.

Main definitions:

- `Grammar.climbStep`, `Grammar.climb`: precedence climbing, with a left operand
  and the precedence that an operator has to exceed.
- `Grammar.grow`: puts operators into the right edge of a tree, as long as they
  exceed a precedence.

Main results:

- Theorem `Grammar.grow_operation`: what exceeds the precedence of an operator
  goes into its right operand first.
- Theorem `Grammar.climbStep_eq`: one step of climbing.
- Theorem `Grammar.eq_climbStep_iff`: the recursion of climbing has one solution.
- Theorem `Grammar.operation_eq_climbAll`: for every reader of operands that
  consumes tokens, operations are read by climbing.
- Theorem `Grammar.recursive_expression_eq_climbAll`: so are all expressions.
-/

namespace Workshop
namespace Grammar

open TokenStream

variable {α : Type}

/-- Goes on with the next operator if its precedence exceeds the minimum, and is done otherwise. -/
def takeAbove (minimum : Nat) (done : α) (go : BinaryOperator → Parse α) : Parse α := do
  match ← nextOperator with
  | none => pure done
  | some operator => if operator.precedence ≤ minimum then pure done else go operator

/-- An operator and its right operand. -/
def operandOf (atom : Parse Node) (operator : BinaryOperator) : Parse Node := do
  discard (advance operator.symbol)
  atom

/-- One step of precedence climbing.  The right operand of an operator is read with the precedence
of the operator as the minimum, and the operation is the left operand from there on. -/
def climbStep (atom : Parse Node) (climb : Nat → Node → Parse Node) (minimum : Nat) (left : Node) :
    Parse Node :=
  takeAbove minimum left fun operator => do
    let operand ← operandOf atom operator
    let right ← climb operator.precedence operand
    climb minimum (.binary operator left right)

/-- Precedence climbing.  Every step takes a token, so that `fuel` steps are enough once it exceeds
the number of tokens. -/
def climb (atom : Parse Node) : Nat → Nat → Node → Parse Node
  | 0 => fun _ left => pure left
  | fuel + 1 => climbStep atom (climb atom fuel)

/-- One operator, put into a tree. -/
def growStep (atom : Parse Node) (minimum : Nat) (grow : OperatorTree → Parse OperatorTree)
    (tree : OperatorTree) : Parse OperatorTree :=
  takeAbove minimum tree fun operator => do
    let operand ← operandOf atom operator
    grow (tree.push operator operand)

/-- At most `fuel` operators, put into a tree one after the other. -/
def growFor (atom : Parse Node) (minimum : Nat) : Nat → OperatorTree → Parse OperatorTree
  | 0 => pure
  | fuel + 1 => growStep atom minimum (growFor atom minimum fuel)

/-- The operators whose precedence exceeds the minimum, put into a tree one after the other. -/
def grow (atom : Parse Node) (minimum : Nat) (tree : OperatorTree) : Parse OperatorTree :=
  fun stream => growFor atom minimum (stream.ahead.length + 1) tree stream

variable {atom : Parse Node} {minimum bound : Nat} {stream rest : TokenStream} {node : Node}
  {found : Option BinaryOperator} {operator : BinaryOperator} {tree : OperatorTree}

/-! ## One operator -/

/-- Looking for an operator twice is looking for it once. -/
theorem nextOperator_again (hnext : nextOperator stream = .ok found rest) :
    nextOperator rest = .ok found rest ∧ rest.ahead.length = stream.ahead.length := by
  rcases stream with ⟨ahead, fault, probed, finish⟩
  cases ahead with
  | nil =>
      cases fault with
      | none =>
          cases hnext
          exact ⟨rfl, rfl⟩
      | some fault => cases hnext
  | cons token others =>
      cases hnext
      exact ⟨rfl, rfl⟩

section TakeAbove

variable {done : α} {go go' : BinaryOperator → Parse α}

/-- An error in front of the operator. -/
theorem takeAbove_of_error {diagnostic : Diagnostic}
    (hnext : nextOperator stream = .error diagnostic rest) :
    takeAbove minimum done go stream = .error diagnostic rest := by
  simp only [takeAbove, bind, EStateM.bind, hnext]

/-- A weak operator is left alone. -/
theorem takeAbove_of_le (hnext : nextOperator stream = .ok found rest)
    (hle : ∀ operator ∈ found, operator.precedence ≤ minimum) :
    takeAbove minimum done go stream = .ok done rest := by
  simp only [takeAbove, bind, EStateM.bind, hnext]
  cases found with
  | none => rfl
  | some operator =>
      simp only [if_pos (hle operator rfl)]
      rfl

/-- A strong operator is taken. -/
theorem takeAbove_of_lt (hnext : nextOperator stream = .ok (some operator) rest)
    (hlt : minimum < operator.precedence) :
    takeAbove minimum done go stream = go operator rest := by
  simp only [takeAbove, bind, EStateM.bind, hnext, if_neg (Nat.not_le_of_lt hlt)]

/-- The next operator has to be taken, or there is none that has. -/
theorem takeAbove_cases (minimum : Nat) (found : Option BinaryOperator) :
    (∀ operator ∈ found, operator.precedence ≤ minimum) ∨
      ∃ operator, found = some operator ∧ minimum < operator.precedence := by
  cases found with
  | none => exact .inl (by simp)
  | some operator =>
      rcases Nat.lt_or_ge minimum operator.precedence with hlt | hle
      · exact .inr ⟨operator, rfl, hlt⟩
      · exact .inl (by simpa using hle)

end TakeAbove

/-- An operator with its operand takes a token. -/
theorem operandOf_consumes (hatom : Consumes atom) (operator : BinaryOperator) :
    Consumes (operandOf atom operator) := by
  have hoperand (bound : Nat) : Pairing.identical.Agrees 1 bound Eq (operandOf atom operator)
      (operandOf atom operator) :=
    (Pairing.Agrees.advance _).andThen ((hatom.agrees _).mono (Nat.zero_le _) (Nat.le_refl _))
  exact .of_agrees hoperand

/-! ## Growing trees -/

/-- A step uses the loop only after it has consumed a token. -/
theorem coincide_growStep (hatom : Consumes atom)
    {first second : OperatorTree → Parse OperatorTree}
    (hgrow : ∀ tree, Coincide 0 bound (first tree) (second tree)) (tree : OperatorTree) :
    Coincide 0 (bound + 1) (growStep atom minimum first tree)
      (growStep atom minimum second tree) := by
  refine coincide_iff.2 (Pairing.nextOperator.bind fun found => ?_)
  rcases takeAbove_cases minimum found with hle | ⟨operator, rfl, hlt⟩
  · cases found with
    | none => exact .pure rfl
    | some operator =>
        simp only [if_pos (hle operator rfl)]
        exact .pure rfl
  · simp only [if_neg (Nat.not_le_of_lt hlt)]
    refine ((operandOf_consumes hatom operator).agrees _).bind fun operand => ?_
    exact (coincide_iff.1 (hgrow _)).mono (Nat.le_refl _) (by omega)

/-- Every operator is a token, so that more steps than tokens do not matter. -/
theorem coincide_growFor (hatom : Consumes atom) {fuel fuel' : Nat} (hfuel : bound ≤ fuel)
    (hfuel' : bound ≤ fuel') (tree : OperatorTree) :
    Coincide 0 bound (growFor atom minimum fuel tree) (growFor atom minimum fuel' tree) := by
  induction bound generalizing fuel fuel' tree with
  | zero => exact fun _ hlength => absurd hlength (Nat.not_lt_zero _)
  | succ bound ih =>
      cases fuel with
      | zero => omega
      | succ fuel =>
          cases fuel' with
          | zero => omega
          | succ fuel' =>
              exact coincide_growStep hatom
                (ih (Nat.le_of_succ_le_succ hfuel) (Nat.le_of_succ_le_succ hfuel')) tree

/-- Growing a tree is a step, and growing what that gives. -/
theorem grow_eq (hatom : Consumes atom) (tree : OperatorTree) :
    grow atom minimum tree = growStep atom minimum (grow atom minimum) tree := by
  funext stream
  have hgrow (tree : OperatorTree) : Coincide 0 stream.ahead.length
      (growFor atom minimum stream.ahead.length tree) (grow atom minimum tree) := by
    intro short hlength
    exact coincide_growFor hatom hlength (Nat.le_refl _) tree short (Nat.lt_succ_self _)
  exact ((coincide_growStep hatom hgrow tree) stream (Nat.lt_succ_self _)).1.symm

section Runs

variable (hatom : Consumes atom)

include hatom

/-- Growing a tree gives no tokens back. -/
theorem length_le_of_grow {grown : OperatorTree}
    (hgrow : grow atom minimum tree stream = .ok grown rest) :
    rest.ahead.length ≤ stream.ahead.length :=
  ((coincide_growFor hatom (Nat.le_refl _) (Nat.le_refl _) tree) stream (Nat.lt_succ_self _)).2
    grown rest hgrow

/-- An error in front of the operator. -/
theorem grow_of_error {diagnostic : Diagnostic}
    (hnext : nextOperator stream = .error diagnostic rest) :
    grow atom minimum tree stream = .error diagnostic rest := by
  rw [grow_eq hatom, growStep, takeAbove_of_error hnext]

/-- A weak operator ends the tree. -/
theorem grow_of_le (hnext : nextOperator stream = .ok found rest)
    (hle : ∀ operator ∈ found, operator.precedence ≤ minimum) :
    grow atom minimum tree stream = .ok tree rest := by
  rw [grow_eq hatom, growStep, takeAbove_of_le hnext hle]

/-- A strong operator is added to the tree. -/
theorem grow_of_lt (hnext : nextOperator stream = .ok (some operator) rest)
    (hlt : minimum < operator.precedence) :
    grow atom minimum tree stream =
      (do
        let operand ← operandOf atom operator
        grow atom minimum (tree.push operator operand)) rest := by
  rw [grow_eq hatom, growStep, takeAbove_of_lt hnext hlt]

/-- A tree grows in the same way after the next operator was looked at. -/
theorem grow_again (hnext : nextOperator stream = .ok found rest) :
    grow atom minimum tree stream = grow atom minimum tree rest := by
  have hagain := (nextOperator_again hnext).1
  rcases takeAbove_cases minimum found with hle | ⟨operator, rfl, hlt⟩
  · rw [grow_of_le hatom hnext hle, grow_of_le hatom hagain hle]
  · rw [grow_of_lt hatom hnext hlt, grow_of_lt hatom hagain hlt]

/-- What exceeds the precedence of an operator goes into its right operand first. -/
theorem grow_operation {left right : OperatorTree} (hle : minimum ≤ operator.precedence) :
    grow atom minimum (.operation operator left right) =
      (do
        let grown ← grow atom operator.precedence right
        grow atom minimum (.operation operator left grown)) := by
  funext stream
  -- The induction is on the number of tokens that are left.
  induction hlength : stream.ahead.length using Nat.strong_induction_on
    generalizing stream right with
  | _ length ih =>
      cases hnext : nextOperator stream with
      | error diagnostic rest =>
          simp only [bind, EStateM.bind, grow_of_error hatom hnext]
      | ok found rest =>
          rcases takeAbove_cases operator.precedence found with hstop | ⟨above, rfl, hlt⟩
          · simp only [bind, EStateM.bind, grow_of_le hatom hnext hstop]
            exact grow_again hatom hnext
          · rw [grow_of_lt hatom hnext (Nat.lt_of_le_of_lt hle hlt)]
            simp only [bind, EStateM.bind, grow_of_lt hatom hnext hlt]
            cases hoperand : operandOf atom above rest with
            | error diagnostic last => rfl
            | ok operand last =>
                have hpush : (OperatorTree.operation operator left right).push above operand =
                    .operation operator left (right.push above operand) := if_pos hlt
                have hless := operandOf_consumes hatom above rest operand last hoperand
                have hsame := (nextOperator_again hnext).2
                simp only [hpush]
                exact ih last.ahead.length (by omega) last rfl

/-- A tree stops to grow where no operator exceeds the minimum. -/
theorem nextOperator_of_grow {grown : OperatorTree}
    (hgrow : grow atom minimum tree stream = .ok grown rest) :
    ∃ found, nextOperator rest = .ok found rest ∧
      ∀ operator ∈ found, operator.precedence ≤ minimum := by
  induction hlength : stream.ahead.length using Nat.strong_induction_on
    generalizing stream tree with
  | _ length ih =>
      cases hnext : nextOperator stream with
      | error diagnostic middle =>
          rw [grow_of_error hatom hnext] at hgrow
          cases hgrow
      | ok found middle =>
          rcases takeAbove_cases minimum found with hle | ⟨operator, rfl, hlt⟩
          · rw [grow_of_le hatom hnext hle] at hgrow
            cases hgrow
            exact ⟨found, (nextOperator_again hnext).1, hle⟩
          · rw [grow_of_lt hatom hnext hlt] at hgrow
            rcases Parse.bind_eq_ok.1 hgrow with ⟨operand, last, hoperand, hrest⟩
            have hless := operandOf_consumes hatom operator middle operand last hoperand
            have hsame := (nextOperator_again hnext).2
            exact ih last.ahead.length (by omega) hrest rfl

end Runs

/-! ## Trees that stand for the same node -/

/-- The node of the tree that grows. -/
def grownNode (atom : Parse Node) (minimum : Nat) (tree : OperatorTree) : Parse Node := do
  let grown ← grow atom minimum tree
  pure grown.toNode

section Nodes

variable (hatom : Consumes atom)

include hatom

/-- A weak operator ends the node. -/
theorem grownNode_of_le (hnext : nextOperator stream = .ok found rest)
    (hle : ∀ operator ∈ found, operator.precedence ≤ minimum) :
    grownNode atom minimum tree stream = .ok tree.toNode rest := by
  simp only [grownNode, bind, EStateM.bind, grow_of_le hatom hnext hle]
  rfl

/-- A strong operator is added to the node. -/
theorem grownNode_of_lt (hnext : nextOperator stream = .ok (some operator) rest)
    (hlt : minimum < operator.precedence) :
    grownNode atom minimum tree stream =
      (do
        let operand ← operandOf atom operator
        grownNode atom minimum (tree.push operator operand)) rest := by
  simp only [grownNode, bind, EStateM.bind, grow_of_lt hatom hnext hlt]
  cases operandOf atom operator rest <;> rfl

/-- Nothing is put into the left operand of an operator, so that only its node matters. -/
theorem grownNode_left {left left' right : OperatorTree} (hleft : left.toNode = left'.toNode) :
    grownNode atom minimum (.operation operator left right) =
      grownNode atom minimum (.operation operator left' right) := by
  funext stream
  induction hlength : stream.ahead.length using Nat.strong_induction_on
    generalizing stream operator left left' right with
  | _ length ih =>
      cases hnext : nextOperator stream with
      | error diagnostic rest =>
          simp only [grownNode, bind, EStateM.bind, grow_of_error hatom hnext]
      | ok found rest =>
          rcases takeAbove_cases minimum found with hle | ⟨next, rfl, hlt⟩
          · rw [grownNode_of_le hatom hnext hle, grownNode_of_le hatom hnext hle]
            simp only [OperatorTree.toNode, hleft]
          · rw [grownNode_of_lt hatom hnext hlt, grownNode_of_lt hatom hnext hlt]
            simp only [bind, EStateM.bind]
            cases hoperand : operandOf atom next rest with
            | error diagnostic last => rfl
            | ok operand last =>
                have hless := operandOf_consumes hatom next rest operand last hoperand
                have hsame := (nextOperator_again hnext).2
                simp only [OperatorTree.push]
                split
                · exact ih last.ahead.length (by omega) hleft last rfl
                · refine ih last.ahead.length (by omega) ?_ last rfl
                  simp only [OperatorTree.toNode, hleft]

/-- Where no operator exceeds that of an operation, the operation is a single operand. -/
theorem grownNode_operand {left right : OperatorTree}
    (hnext : nextOperator stream = .ok found rest)
    (hle : ∀ next ∈ found, next.precedence ≤ operator.precedence) :
    grownNode atom minimum (.operation operator left right) stream =
      grownNode atom minimum (.operand (.binary operator left.toNode right.toNode)) stream := by
  rcases takeAbove_cases minimum found with hstop | ⟨next, rfl, hlt⟩
  · rw [grownNode_of_le hatom hnext hstop, grownNode_of_le hatom hnext hstop]
    rfl
  · rw [grownNode_of_lt hatom hnext hlt, grownNode_of_lt hatom hnext hlt]
    have hpush (operand : Node) :
        grownNode atom minimum ((OperatorTree.operation operator left right).push next operand) =
          grownNode atom minimum ((OperatorTree.operand
            (.binary operator left.toNode right.toNode)).push next operand) := by
      have hstop : (OperatorTree.operation operator left right).push next operand =
          .operation next (.operation operator left right) (.operand operand) :=
        if_neg (Nat.not_lt_of_le (hle next rfl))
      rw [hstop]
      exact grownNode_left hatom rfl
    simp only [hpush]

/-- What follows an operator and its operand is read in two parts: first what belongs to the right
operand, then what takes the whole operation as its left operand. -/
theorem grownNode_operation (hle : minimum ≤ operator.precedence) (left operand : Node) :
    grownNode atom minimum (.operation operator (.operand left) (.operand operand)) =
      (do
        let right ← grownNode atom operator.precedence (.operand operand)
        grownNode atom minimum (.operand (.binary operator left right))) := by
  funext stream
  have hsplit : grownNode atom minimum
      (.operation operator (.operand left) (.operand operand)) =
      (do
        let right ← grow atom operator.precedence (.operand operand)
        grownNode atom minimum (.operation operator (.operand left) right)) := by
    rw [grownNode, grow_operation hatom hle, bind_assoc]
    rfl
  rw [hsplit]
  simp only [bind, EStateM.bind, grownNode.eq_1 atom operator.precedence]
  cases hgrow : grow atom operator.precedence (.operand operand) stream with
  | error diagnostic rest => rfl
  | ok right rest =>
      rcases nextOperator_of_grow hatom hgrow with ⟨found, hstop, hweaker⟩
      exact grownNode_operand hatom hstop hweaker

/-- Growing a node gives no tokens back. -/
theorem length_le_of_grownNode (hgrown : grownNode atom minimum tree stream = .ok node rest) :
    rest.ahead.length ≤ stream.ahead.length := by
  rcases Parse.bind_eq_ok.1 hgrown with ⟨grown, middle, hgrow, hpure⟩
  cases hpure
  exact length_le_of_grow hatom hgrow

/-- One step of climbing.  If climbing gives the grown tree where fewer tokens are left, then the
step does. -/
theorem climbStep_eq {climb : Nat → Node → Parse Node}
    (hclimb : ∀ minimum left, ∀ stream : TokenStream, stream.ahead.length < bound →
      climb minimum left stream = grownNode atom minimum (.operand left) stream)
    (minimum : Nat) (left : Node) (hlength : stream.ahead.length < bound + 1) :
    climbStep atom climb minimum left stream =
      grownNode atom minimum (.operand left) stream := by
  cases hnext : nextOperator stream with
  | error diagnostic rest =>
      rw [climbStep, takeAbove_of_error hnext]
      simp only [grownNode, bind, EStateM.bind, grow_of_error hatom hnext]
  | ok found rest =>
      rcases takeAbove_cases minimum found with hle | ⟨operator, rfl, hlt⟩
      · rw [climbStep, takeAbove_of_le hnext hle, grownNode_of_le hatom hnext hle]
        rfl
      · rw [climbStep, takeAbove_of_lt hnext hlt, grownNode_of_lt hatom hnext hlt]
        simp only [OperatorTree.push, grownNode_operation hatom (Nat.le_of_lt hlt), bind,
          EStateM.bind]
        cases hoperand : operandOf atom operator rest with
        | error diagnostic last => rfl
        | ok operand last =>
            have hless := operandOf_consumes hatom operator rest operand last hoperand
            have hsame := (nextOperator_again hnext).2
            simp only [hclimb operator.precedence operand last (by omega)]
            cases hright : grownNode atom operator.precedence (.operand operand) last with
            | error diagnostic final => rfl
            | ok right final =>
                have hfinal := length_le_of_grownNode hatom hright
                exact hclimb minimum _ final (by omega)

/-- Climbing with enough steps. -/
theorem climb_eq {fuel : Nat} (minimum : Nat) (left : Node) (hfuel : stream.ahead.length < fuel) :
    climb atom fuel minimum left stream = grownNode atom minimum (.operand left) stream := by
  induction fuel generalizing stream minimum left with
  | zero => omega
  | succ fuel ih =>
      exact climbStep_eq hatom (fun minimum left _ => ih minimum left) minimum left hfuel

end Nodes

/-! ## Operations -/

/-- The operators of an operation are put into a tree one by one. -/
theorem operatorTail_eq_growFor (atom : Parse Node) (fuel : Nat) (tree : OperatorTree) :
    (do
      let tail ← operatorTail atom fuel
      pure (tail.foldl (fun tree link => tree.push link.1 link.2) tree)) =
      growFor atom 0 fuel tree := by
  induction fuel generalizing tree with
  | zero => rfl
  | succ fuel ih =>
      rw [operatorTail, growFor, growStep, takeAbove, bind_assoc]
      congr 1
      funext found
      cases found with
      | none => rfl
      | some operator =>
          simp only [if_neg (Nat.not_le_of_lt operator.precedence_pos), operandOf, bind_assoc,
            pure_bind, ← ih, List.foldl_cons]

/-- Precedence climbing without a bound: as many steps as there are tokens, and one more. -/
def climbAll (atom : Parse Node) (minimum : Nat) (left : Node) : Parse Node :=
  fun stream => climb atom (stream.ahead.length + 1) minimum left stream

/-- An operation is grown from its first operand. -/
theorem operation_eq_grownNode (atom : Parse Node) :
    operation atom =
      (do
        let first ← atom
        grownNode atom 0 (.operand first)) := by
  rw [operation]
  congr 1
  funext first stream
  have htail := operatorTail_eq_growFor atom (stream.ahead.length + 1) (.operand first)
  change (operatorTail atom (stream.ahead.length + 1) >>= fun tail =>
    pure (OperatorTree.ofChain first tail).toNode) stream =
    (growFor atom 0 (stream.ahead.length + 1) (.operand first) >>= fun grown =>
      pure grown.toNode) stream
  rw [← htail, bind_assoc]
  simp only [pure_bind]
  rfl

section Solutions

variable (hatom : Consumes atom)

include hatom

/-- Climbing and growing are the same. -/
theorem climbAll_eq_grownNode (minimum : Nat) (left : Node) :
    climbAll atom minimum left = grownNode atom minimum (.operand left) := by
  funext stream
  exact climb_eq hatom minimum left (Nat.lt_succ_self _)

/-- The recursion of climbing has one solution. -/
theorem eq_climbStep_iff (climb : Nat → Node → Parse Node) :
    climb = climbStep atom climb ↔ climb = climbAll atom := by
  constructor
  · intro hclimb
    have hgrown (bound : Nat) : ∀ minimum left, ∀ stream : TokenStream,
        stream.ahead.length < bound →
        climb minimum left stream = grownNode atom minimum (.operand left) stream := by
      induction bound with
      | zero => exact fun _ _ _ hlength => absurd hlength (Nat.not_lt_zero _)
      | succ bound ih =>
          intro minimum left stream hlength
          calc climb minimum left stream
              = climbStep atom climb minimum left stream := by rw [← hclimb]
            _ = grownNode atom minimum (.operand left) stream :=
                climbStep_eq hatom ih minimum left hlength
    funext minimum left stream
    rw [climbAll_eq_grownNode hatom]
    exact hgrown _ minimum left stream (Nat.lt_succ_self _)
  · rintro rfl
    funext minimum left stream
    have hstep := climbStep_eq hatom
      (fun minimum left stream (_ : stream.ahead.length < _) =>
        congrFun (climbAll_eq_grownNode hatom minimum left) stream)
      minimum left (Nat.lt_succ_self stream.ahead.length)
    rw [hstep, climbAll_eq_grownNode hatom]

/-- Operations are read by precedence climbing, whatever operands are, as long as reading an operand
consumes a token.  The trees, the errors and the tokens that are left are the same. -/
theorem operation_eq_climbAll :
    operation atom =
      (do
        let first ← atom
        climbAll atom 0 first) := by
  simp only [operation_eq_grownNode, climbAll_eq_grownNode hatom]

end Solutions

/-- Expressions are read by precedence climbing, and then the arguments behind them. -/
theorem recursive_expression_eq_climbAll :
    recursive.expression =
      (do
        let first ← recursive.atom
        let node ← climbAll recursive.atom 0 first
        callSuffix recursive node) := by
  have hatom : Consumes recursive.atom := Coincide.consumes fun bound =>
    (nested_recursive_self bound).atom
  rw [recursive_expression, operation_eq_climbAll hatom, bind_assoc]

end Grammar
end Workshop

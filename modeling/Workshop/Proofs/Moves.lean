import Workshop.Proofs.Storage

/-!
# Operations on storage

What can be done to the variables of both domains, without any script.  Scopes
can be opened and closed one by one, or around other operations.

Main definitions:

- `Move`: one change of storage.
- `Operation`: a move, or operations in a scope of their own.
- `Operation.performAll`: what operations do, for any effect of the single moves.

Main result:

- Theorem `Operation.performAll_eq_foldl`: operations do what their moves do.
-/

namespace Workshop

/-- A change of storage.  Nothing makes sure that scopes are left as often as they are entered, or
that a name is new. -/
inductive Move where
  | enter
  | leave
  | declare (domain : Domain) (name : String) (type : ValueType)
  | useBank (domain : Domain) (bank : Bank)
  | retype (domain : Domain) (name : String) (type : ValueType)
deriving DecidableEq

/-- The bindings after a move.  A declaration that fails changes nothing. -/
def Move.apply (bindings : Bindings) : Move → Bindings
  | enter => bindings.enter
  | leave => bindings.leave
  | declare domain name type =>
    match bindings.declare domain name type with
    | .ok (_, later) => later
    | .error _ => bindings
  | useBank domain bank => bindings.useBank domain bank
  | retype domain name type => bindings.retype domain name type

/-- A move, or operations in a scope of their own. -/
inductive Operation where
  | single (move : Move)
  | inScope (body : List Operation)

namespace Operation

variable {σ : Type} (step : σ → Move → σ)

mutual

/-- What an operation does, if single moves do what the given function says. -/
def perform (state : σ) : Operation → σ
  | single move => step state move
  | inScope body => step (performAll (step state .enter) body) .leave

/-- What several operations do. -/
def performAll (state : σ) : List Operation → σ
  | [] => state
  | operation :: rest => performAll (perform state operation) rest

end

mutual

/-- The moves of an operation, with those that open and close its scopes. -/
def moves : Operation → List Move
  | single move => [move]
  | inScope body => .enter :: movesAll body ++ [.leave]

/-- The moves of several operations. -/
def movesAll : List Operation → List Move
  | [] => []
  | operation :: rest => operation.moves ++ movesAll rest

end

mutual

/-- An operation does what its moves do. -/
theorem perform_eq_foldl (state : σ) :
    (operation : Operation) → operation.perform step state = operation.moves.foldl step state
  | single move => by
      rw [perform, moves]
      rfl
  | inScope body => by
      rw [perform, moves, List.foldl_append, performAll_eq_foldl (step state .enter) body]
      rfl

/-- Operations do what their moves do. -/
theorem performAll_eq_foldl (state : σ) :
    (operations : List Operation) →
      performAll step state operations = (movesAll operations).foldl step state
  | [] => by
      rw [performAll, movesAll]
      rfl
  | operation :: rest => by
      rw [performAll, movesAll, List.foldl_append, perform_eq_foldl state operation,
        performAll_eq_foldl _ rest]

end

end Operation

/-- The bindings after several moves. -/
def Bindings.run (bindings : Bindings) (moves : List Move) : Bindings :=
  moves.foldl Move.apply bindings

/-- One more move. -/
theorem Bindings.run_concat (bindings : Bindings) (moves : List Move) (move : Move) :
    bindings.run (moves ++ [move]) = move.apply (bindings.run moves) :=
  List.foldl_concat _ _ _ _

end Workshop

/-!
# Binary operators

The operators that stand between two operands, with their spelling and binding strength.

Main result: Theorem `BinaryOperator.ofSymbol?_eq_some_iff`: an operator is read from exactly its
own spelling.
-/

namespace Workshop

/-- An operator between two operands. -/
inductive BinaryOperator where
  | or
  | and
  | lt
  | gt
  | le
  | ge
  | eq
  | ne
  | add
  | sub
  | mul
  | div
  | rem
deriving DecidableEq, Repr

namespace BinaryOperator

/-- All operators. -/
def all : List BinaryOperator :=
  [or, and, lt, gt, le, ge, eq, ne, add, sub, mul, div, rem]

/-- The spelling of an operator. -/
def symbol : BinaryOperator → String
  | or => "||"
  | and => "&&"
  | lt => "<"
  | gt => ">"
  | le => "<="
  | ge => ">="
  | eq => "=="
  | ne => "!="
  | add => "+"
  | sub => "-"
  | mul => "*"
  | div => "/"
  | rem => "%"

/-- The operator with the given spelling. -/
def ofSymbol? (symbol : String) : Option BinaryOperator :=
  all.find? fun operator => operator.symbol == symbol

/-- Binding strength: an operator of higher precedence takes its operands first. -/
def precedence : BinaryOperator → Nat
  | or => 2
  | and => 3
  | lt | gt | le | ge | eq | ne => 4
  | add | sub => 5
  | mul | div | rem => 6

/-- Whether an operator compares its operands. -/
def isComparison (operator : BinaryOperator) : Bool :=
  operator.precedence == 4

theorem mem_all (operator : BinaryOperator) : operator ∈ all := by
  cases operator <;> decide

theorem symbol_injective {a b : BinaryOperator} (h : a.symbol = b.symbol) : a = b := by
  revert h
  cases a <;> cases b <;> decide

theorem ofSymbol?_symbol (operator : BinaryOperator) :
    ofSymbol? operator.symbol = some operator := by
  cases operator <;> decide

theorem ofSymbol?_eq_some_iff {symbol : String} {operator : BinaryOperator} :
    ofSymbol? symbol = some operator ↔ operator.symbol = symbol := by
  constructor
  · intro h
    simpa using List.find?_some h
  · rintro rfl
    exact ofSymbol?_symbol operator

theorem precedence_pos (operator : BinaryOperator) : 0 < operator.precedence := by
  cases operator <;> decide

end BinaryOperator
end Workshop

import Workshop.Compilation.Program

/-!
# Resolving names

What a name stands for can be found out by walking through a script in source
order, without looking at types and without writing any text.  The walk keeps
the open scopes of global variables, the variables of players, the bank that is
selected for either domain, and a list of all declarations so far.  A
declaration takes the slot in the selected bank whose number is the count of
earlier declarations of its domain in this bank.

The result is a tree without names of variables: every declaration and every
use of a variable shows its slot.

Main definitions:

- `Scoping`: what the walk has seen.
- `Scoping.slotOf?`: the slot of the one declaration of a name in sight.
- `Scoping.expression?`, `Scoping.action?`, `Scoping.statement?`: the trees
  with slots in place of names.
-/

namespace Workshop
namespace Resolution

/-! ## Trees without names of variables -/

/-- An expression in which every variable is given by its slot. -/
inductive Expression where
  | number (digits : String)
  | text (body : String)
  | boolean (value : Bool)
  /-- The player an event concerns. -/
  | player
  | enumMember (enumName member : String)
  /-- The value of a constant. -/
  | constant (name : String)
  /-- Reads a global variable. -/
  | readGlobal (slot : Slot)
  /-- Reads a variable of a player. -/
  | readPlayer (actor : Expression) (slot : Slot)
  | call (callee : String) (receiver : Option Expression) (arguments : List Expression)
  | negation (operand : Expression)
  | binary (operator : BinaryOperator) (left right : Expression)
  | choice (condition thenBranch elseBranch : Expression)

/-- An action in which every variable is given by its slot. -/
inductive Action where
  /-- Gives a global variable a value. -/
  | writeGlobal (slot : Slot) (value : Expression)
  /-- Gives a variable of a player a value. -/
  | writePlayer (actor : Expression) (slot : Slot) (value : Expression)
  | call (callee : String) (receiver : Option Expression) (arguments : List Expression)
  /-- A new variable of a domain, in the slot that it received. -/
  | declare (domain : Domain) (slot : Slot) (typeName : String) (initial : Option Expression)
  /-- The choice of a bank, which has no text. -/
  | useBank
  | block (actions : List Action)
  | choice (condition : Expression) (thenBranch : Action) (elseBranch : Option Action)

/-- A rule condition. -/
structure Comparison where
  operator : BinaryOperator
  left : Expression
  right : Expression

/-- A top level statement in which every variable is given by its slot. -/
inductive Statement where
  | block (statements : List Statement)
  | constant (name : String) (value : Expression)
  | declare (domain : Domain) (slot : Slot) (typeName : String) (initial : Option Expression)
  | rule (name event : String) (conditions : Option (List Comparison)) (actions : List Action)
  | useBank

/-! ## What the walk has seen -/

/-- A declaration with the slot that it received. -/
structure Declared where
  domain : Domain
  name : String
  typeName : String
  slot : Slot
deriving DecidableEq, Repr

/-- A scope: the bank selected in it, and the names declared in it with their slots. -/
structure Scope where
  bank : Bank
  declared : List (String × Slot)
deriving DecidableEq, Repr

/-- What a walk through a script has seen. -/
structure Scoping where
  /-- The innermost open scope of global variables. -/
  inner : Scope
  /-- The open scopes around it, from the inside out. -/
  outer : List Scope
  /-- The variables of players, which no scope ends. -/
  players : Scope
  /-- The names of the constants. -/
  constants : List String
  /-- All declarations in source order, also those in scopes that are closed. -/
  history : List Declared
deriving DecidableEq, Repr

/-- How many of some declarations are of the given domain and in the given bank. -/
def countIn (history : List Declared) (domain : Domain) (bank : Bank) : Nat :=
  history.countP fun declared => declared.domain = domain ∧ declared.slot.bank = bank

namespace Scoping

/-- Before the first statement, nothing is declared and the first bank is selected. -/
def initial : Scoping := ⟨⟨.first, []⟩, [], ⟨.first, []⟩, [], []⟩

/-- Opens a scope.  It starts with the bank of the scope around it. -/
def enter (scoping : Scoping) : Scoping :=
  { scoping with inner := ⟨scoping.inner.bank, []⟩, outer := scoping.inner :: scoping.outer }

/-- Closes the innermost scope.  The scope of the program stays open. -/
def leave (scoping : Scoping) : Scoping :=
  match scoping.outer with
  | [] => scoping
  | scope :: outer => { scoping with inner := scope, outer := outer }

/-- The declarations of a domain that are in sight: those of all open scopes, or those of
players. -/
def visible (scoping : Scoping) : Domain → List (String × Slot)
  | .global => (scoping.inner :: scoping.outer).flatMap Scope.declared
  | .player => scoping.players.declared

/-- The slot of the declaration of a name, if exactly one is in sight. -/
def slotOf? (scoping : Scoping) (domain : Domain) (name : String) : Option Slot :=
  match (scoping.visible domain).filter (fun entry => entry.1 == name) with
  | [entry] => some entry.2
  | _ => none

/-- The bank selected for a domain. -/
def bank (scoping : Scoping) : Domain → Bank
  | .global => scoping.inner.bank
  | .player => scoping.players.bank

/-- The slot for the next declaration of a domain. -/
def nextSlot (scoping : Scoping) (domain : Domain) : Slot :=
  ⟨scoping.bank domain, countIn scoping.history domain (scoping.bank domain)⟩

/-- Declares a variable. -/
def declare (scoping : Scoping) (domain : Domain) (name typeName : String) : Scoping :=
  let slot := scoping.nextSlot domain
  let history := scoping.history ++ [⟨domain, name, typeName, slot⟩]
  match domain with
  | .global =>
    { scoping with
      inner := { scoping.inner with declared := (name, slot) :: scoping.inner.declared }
      history := history }
  | .player =>
    { scoping with
      players := { scoping.players with declared := (name, slot) :: scoping.players.declared }
      history := history }

/-- Selects the bank for later declarations: those of the innermost scope, or those of players. -/
def useBank (scoping : Scoping) (domain : Domain) (bank : Bank) : Scoping :=
  match domain with
  | .global => { scoping with inner := { scoping.inner with bank := bank } }
  | .player => { scoping with players := { scoping.players with bank := bank } }

/-- Defines a constant. -/
def define (scoping : Scoping) (name : String) : Scoping :=
  { scoping with constants := name :: scoping.constants }

/-! ## Expressions -/

mutual

/-- An expression with slots in place of names. -/
@[simp]
def expression? (scoping : Scoping) (catalog : Catalog) : Node → Option Expression
  | .block statements =>
    match statements with
    | [single] => scoping.expression? catalog single
    | _ => none
  | .call callee receiver arguments =>
    match callee with
    | .identifier name none => do
      let receiver ← scoping.optional? catalog receiver
      let arguments ← scoping.expressions? catalog arguments
      some (.call name receiver arguments)
    | _ => none
  | .enumMember enumName member => some (.enumMember enumName member)
  | .negation operand => do
    let operand ← scoping.expression? catalog operand
    some (.negation operand)
  | .binary operator left right => do
    let left ← scoping.expression? catalog left
    let right ← scoping.expression? catalog right
    some (.binary operator left right)
  | .choice condition thenBranch elseBranch =>
    match elseBranch with
    | none => none
    | some elseBranch => do
      let condition ← scoping.expression? catalog condition
      let thenBranch ← scoping.expression? catalog thenBranch
      let elseBranch ← scoping.expression? catalog elseBranch
      some (.choice condition thenBranch elseBranch)
  | .number digits => some (.number digits)
  | .text body => some (.text body)
  | .boolean value => some (.boolean value)
  | .player => some .player
  | .identifier name receiver =>
    match receiver with
    | none =>
      if scoping.constants.contains name then some (.constant name)
      else (scoping.slotOf? .global name).map .readGlobal
    | some receiver =>
      match catalog.namedEnumeration? receiver with
      | some enumName => some (.enumMember enumName name)
      | none => do
        let actor ← scoping.expression? catalog receiver
        let slot ← scoping.slotOf? .player name
        some (.readPlayer actor slot)
  | _ => none
termination_by structural node => node

/-- Several expressions with slots in place of names. -/
@[simp]
def expressions? (scoping : Scoping) (catalog : Catalog) : List Node → Option (List Expression)
  | [] => some []
  | node :: rest => do
    let first ← scoping.expression? catalog node
    let others ← scoping.expressions? catalog rest
    some (first :: others)
termination_by structural nodes => nodes

/-- An expression that may be missing with slots in place of names. -/
@[simp]
def optional? (scoping : Scoping) (catalog : Catalog) : Option Node → Option (Option Expression)
  | none => some none
  | some node => do
    let expression ← scoping.expression? catalog node
    some (some expression)
termination_by structural node => node

end

/-- A rule condition with slots in place of names. -/
def comparison? (scoping : Scoping) (catalog : Catalog) : Node → Option Comparison
  | .binary operator left right => do
    let left ← scoping.expression? catalog left
    let right ← scoping.expression? catalog right
    some ⟨operator, left, right⟩
  | _ => none

/-- The conditions of a rule with slots in place of names. -/
def comparisons? (scoping : Scoping) (catalog : Catalog) :
    Option (List Node) → Option (Option (List Comparison))
  | none => some none
  | some conditions => (conditions.mapM (scoping.comparison? catalog)).map some

/-! ## Statements -/

/-- A declaration and what has been seen after it.  Its first value is resolved before the name is
in sight. -/
def declaration? (scoping : Scoping) (catalog : Catalog) (typeName name : String)
    (domain : Domain) (initial : Option Node) : Option (Slot × Option Expression × Scoping) := do
  let initial ← scoping.optional? catalog initial
  some (scoping.nextSlot domain, initial, scoping.declare domain name typeName)

mutual

/-- An action with slots in place of names, and what has been seen after it. -/
@[simp]
def action? (catalog : Catalog) : Node → Scoping → Option (Action × Scoping)
  | .assign target receiver value, scoping =>
    match receiver with
    | none => do
      let value ← scoping.expression? catalog value
      let slot ← scoping.slotOf? .global target
      some (.writeGlobal slot value, scoping)
    | some receiver => do
      let value ← scoping.expression? catalog value
      let actor ← scoping.expression? catalog receiver
      let slot ← scoping.slotOf? .player target
      some (.writePlayer actor slot value, scoping)
  | .block statements, scoping => do
    let (actions, scoping) ← actions? catalog statements scoping.enter
    some (.block actions, scoping.leave)
  | .call callee receiver arguments, scoping =>
    match callee with
    | .identifier name none => do
      let receiver ← scoping.optional? catalog receiver
      let arguments ← scoping.expressions? catalog arguments
      some (.call name receiver arguments, scoping)
    | _ => none
  | .declare typeName name perPlayer initial, scoping => do
    let domain := Domain.ofPerPlayer perPlayer
    let (slot, initial, scoping) ← scoping.declaration? catalog typeName name domain initial
    some (.declare domain slot typeName initial, scoping)
  | .useBank domain bank, scoping => some (.useBank, scoping.useBank domain bank)
  | .choice condition thenBranch elseBranch, scoping => do
    let condition ← scoping.expression? catalog condition
    let (thenBranch, scoping) ← action? catalog thenBranch scoping
    match elseBranch with
    | none => some (.choice condition thenBranch none, scoping)
    | some elseBranch => do
      let (elseBranch, scoping) ← action? catalog elseBranch scoping
      some (.choice condition thenBranch (some elseBranch), scoping)
  | _, _ => none
termination_by structural node => node

/-- Several actions with slots in place of names, and what has been seen after them. -/
@[simp]
def actions? (catalog : Catalog) : List Node → Scoping → Option (List Action × Scoping)
  | [], scoping => some ([], scoping)
  | node :: rest, scoping => do
    let (first, scoping) ← action? catalog node scoping
    let (others, scoping) ← actions? catalog rest scoping
    some (first :: others, scoping)
termination_by structural nodes => nodes

end

mutual

/-- A top level statement with slots in place of names, and what has been seen after it. -/
@[simp]
def statement? (catalog : Catalog) : Node → Scoping → Option (Statement × Scoping)
  | .block statements, scoping => do
    let (statements, scoping) ← statements? catalog statements scoping
    some (.block statements, scoping)
  | .constant name value, scoping => do
    let value ← scoping.expression? catalog value
    some (.constant name value, scoping.define name)
  | .declare typeName name perPlayer initial, scoping => do
    let domain := Domain.ofPerPlayer perPlayer
    let (slot, initial, scoping) ← scoping.declaration? catalog typeName name domain initial
    some (.declare domain slot typeName initial, scoping)
  | .rule name event conditions actions, scoping => do
    let conditions ← scoping.enter.comparisons? catalog conditions
    let (actions, scoping) ← actions? catalog actions scoping.enter
    some (.rule name event conditions actions, scoping.leave)
  | .useBank domain bank, scoping => some (.useBank, scoping.useBank domain bank)
  | _, _ => none
termination_by structural node => node

/-- Several top level statements with slots in place of names, and what has been seen after
them. -/
@[simp]
def statements? (catalog : Catalog) : List Node → Scoping → Option (List Statement × Scoping)
  | [], scoping => some ([], scoping)
  | node :: rest, scoping => do
    let (first, scoping) ← statement? catalog node scoping
    let (others, scoping) ← statements? catalog rest scoping
    some (first :: others, scoping)
termination_by structural nodes => nodes

end

end Scoping
end Resolution
end Workshop

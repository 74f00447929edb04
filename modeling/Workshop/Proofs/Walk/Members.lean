import Workshop.Proofs.Walk.Coverage
import Workshop.Proofs.Walk.Preservation
import Workshop.Proofs.Walk.Typing

/-!
# Members of enumerations in variables

Members of enumerations are not to be stored in variables, and a value whose
type is an enumeration is refused.  But the type of a choice is that of one of
its branches, and a branch of an unknown type accepts a member in the branch
before it.  The choice then has an unknown type, and the member gets through.
This module proves that this is the only way.

Main definitions:

- `DefersTo`: the value of an expression can be that of another one.
- `Expression.CanBe`: the possible results of an expression.
- `Expression.HidesMember`: somewhere on the way to its results, an expression
  chooses between a member and something of an unknown type, in this order.

Main results:

- Theorem `Expression.hidesMember_of_canBe`: an expression of another type whose
  result can be a member hides it.
- Theorem `stored_members_are_hidden`: exactly the expressions that hide a
  member can bring one into a variable.
- Theorem `member_stored_by_choice`: there is an accepted program that stores a
  member.
-/

namespace Workshop

/-! ## Possible results -/

/-- An expression, and what the names in it stand for. -/
structure Expression where
  bindings : Bindings
  node : Node

/-- The value of an expression can be that of another one: the only statement of a block, a branch
of a choice, or what a constant was defined as. -/
inductive DefersTo (catalog : Catalog) (program : Node) : Expression → Expression → Prop
  | block (bindings : Bindings) (node : Node) :
      DefersTo catalog program ⟨bindings, .block [node]⟩ ⟨bindings, node⟩
  | thenBranch (bindings : Bindings) (condition thenBranch elseBranch : Node) :
      DefersTo catalog program ⟨bindings, .choice condition thenBranch (some elseBranch)⟩
        ⟨bindings, thenBranch⟩
  | elseBranch (bindings : Bindings) (condition thenBranch elseBranch : Node) :
      DefersTo catalog program ⟨bindings, .choice condition thenBranch (some elseBranch)⟩
        ⟨bindings, elseBranch⟩
  | constant {bindings : Bindings} {name : String} {node : Node} {value : Typed}
      {state : CompileState} :
      bindings.constants.find? name = some value →
      Reaches catalog (.start .initial program) ⟨.statement (.constant name node), state⟩ →
      catalog.valueOf state.bindings node = .ok value →
      DefersTo catalog program ⟨bindings, .identifier name none⟩ ⟨state.bindings, node⟩

/-- Whether a node names a member of an enumeration. -/
def Node.isMember (catalog : Catalog) : Node → Bool
  | .enumMember _ _ => true
  | .identifier _ (some receiver) => (catalog.namedEnumeration? receiver).isSome
  | _ => false

namespace Expression

/-- Whether the value of an expression is its own. -/
def isFinal (expression : Expression) : Bool :=
  match expression.node with
  | .block [_] => false
  | .choice _ _ (some _) => false
  | .identifier name none => !expression.bindings.constants.contains name
  | _ => true

/-- A node is one of the possible results of an expression. -/
def CanBe (catalog : Catalog) (program : Node) (expression : Expression) (result : Node) : Prop :=
  ∃ bindings, Relation.ReflTransGen (DefersTo catalog program) expression ⟨bindings, result⟩ ∧
    isFinal ⟨bindings, result⟩ = true

/-- On the way to its results, an expression chooses between something whose type is an enumeration
and something of an unknown type, in this order. -/
def HidesMember (catalog : Catalog) (program : Node) (expression : Expression) : Prop :=
  ∃ bindings condition thenBranch elseBranch thenValue elseValue,
    Relation.ReflTransGen (DefersTo catalog program) expression
      ⟨bindings, .choice condition thenBranch (some elseBranch)⟩ ∧
    catalog.valueOf bindings thenBranch = .ok thenValue ∧ thenValue.type.isEnum = true ∧
    catalog.valueOf bindings elseBranch = .ok elseValue ∧ elseValue.type.isDynamic = true

variable {catalog : Catalog} {program : Node} {expression next : Expression} {result : Node}

/-- What an expression defers to. -/
theorem CanBe.of_defersTo (hdefers : DefersTo catalog program expression next)
    (hresult : next.CanBe catalog program result) : expression.CanBe catalog program result := by
  rcases hresult with ⟨bindings, hpath, hfinal⟩
  exact ⟨bindings, .head hdefers hpath, hfinal⟩

/-- The same for hidden members. -/
theorem HidesMember.of_defersTo (hdefers : DefersTo catalog program expression next)
    (hhides : next.HidesMember catalog program) : expression.HidesMember catalog program := by
  rcases hhides with
    ⟨bindings, condition, thenBranch, elseBranch, thenValue, elseValue, hpath, hrest⟩
  exact ⟨bindings, condition, thenBranch, elseBranch, thenValue, elseValue, .head hdefers hpath,
    hrest⟩

/-- A member stands for itself. -/
theorem isFinal_of_isMember {bindings : Bindings} {node : Node}
    (hmember : node.isMember catalog = true) : isFinal ⟨bindings, node⟩ = true := by
  unfold Node.isMember at hmember
  split at hmember
  · rfl
  · rfl
  · cases hmember

end Expression

/-! ## Enumerations of the standard catalog -/

namespace Catalog

variable {value : Typed}

/-- No value that can be called is a member of an enumeration. -/
theorem standard_isEnum_of_applyCall {callee : Node} {receiver : Option ValueResult}
    {arguments : List ValueResult}
    (hvalue : standard.applyCall .value callee receiver arguments = .ok value) :
    value.type.isEnum = false := by
  have hresults : ∀ builtin ∈ standard.values, ∀ type ∈ standard.registry.types,
      type.name = builtin.result → type.isEnum = false := by decide
  rcases applyCall_type hvalue with ⟨builtin, hmem, htype⟩
  exact hresults builtin hmem _ (mem_registry_of_type htype) (name_of_type htype)

/-- Members of an enumeration have the type of an enumeration. -/
theorem standard_isEnum_of_enumMember {enumName member : String}
    (hvalue : standard.enumMember enumName member = .ok value) : value.type.isEnum = true := by
  have htypes : ∀ enumeration ∈ standard.enumerations, ∀ type ∈ standard.registry.types,
      type.name = ValueType.enumName enumeration.name → type.isEnum = true := by decide
  rcases enumMember_type hvalue with ⟨enumeration, hfound, htype⟩
  have hname := List.find?_some hfound
  have hmem : enumeration ∈ standard.enumerations :=
    List.mem_reverse.1 (List.mem_of_find?_eq_some hfound)
  apply htypes enumeration hmem _ (mem_registry_of_type htype)
  rw [beq_iff_eq.1 hname]
  exact name_of_type htype

/-- Members have the type of their enumeration. -/
theorem standard_isEnum_of_isMember {bindings : Bindings} {node : Node}
    (hvalue : standard.valueOf bindings node = .ok value)
    (hmember : node.isMember standard = true) : value.type.isEnum = true := by
  unfold Node.isMember at hmember
  split at hmember
  · exact standard_isEnum_of_enumMember hvalue
  · rename_i name receiver
    rcases Option.isSome_iff_exists.1 hmember with ⟨enumName, hnamed⟩
    simp only [valueOf, hnamed] at hvalue
    exact standard_isEnum_of_enumMember hvalue
  · cases hmember

/-- An enumeration accepts nothing but enumerations, and only the unknown type accepts an
enumeration without being one. -/
theorem standard_isEnum_of_accepts {target source : ValueType}
    (htarget : target ∈ standard.registry.types) (hsource : source ∈ standard.registry.types)
    (haccepts : target.accepts source = true) :
    (target.isEnum = true → source.isEnum = true) ∧
      (target.isEnum = false → source.isEnum = true → target.isDynamic = true) := by
  have hpairs : ∀ target ∈ standard.registry.types, ∀ source ∈ standard.registry.types,
      target.accepts source = true →
      (target.isEnum = true → source.isEnum = true) ∧
        (target.isEnum = false → source.isEnum = true → target.isDynamic = true) := by
    decide
  exact hpairs target htarget source hsource haccepts

end Catalog

/-- What the type of a choice tells about its branches: if it is an enumeration, so is the first
branch, and if it is none, the second branch is none either and is of an unknown type after a
member. -/
theorem Catalog.standard_isEnum_of_choose {condition : String} {thenValue elseValue value : Typed}
    (hthen : thenValue.type ∈ standard.registry.types)
    (helse : elseValue.type ∈ standard.registry.types)
    (hchoose : choose condition thenValue elseValue = .ok value) :
    (value.type.isEnum = true → thenValue.type.isEnum = true) ∧
      (value.type.isEnum = false → elseValue.type.isEnum = false ∧
        (thenValue.type.isEnum = true → elseValue.type.isDynamic = true)) := by
  have hknown := holds_of_choose hthen helse hchoose
  rcases choose_type hchoose with ⟨htype, hacceptsThen, hacceptsElse⟩
  rcases standard_isEnum_of_accepts hknown hthen hacceptsThen with ⟨henum, hdynamicThen⟩
  rcases standard_isEnum_of_accepts hknown helse hacceptsElse with ⟨_, hdynamicElse⟩
  refine ⟨henum, ?_⟩
  intro hplain
  by_cases hsame : value.type = elseValue.type
  · rw [hsame] at hplain hdynamicThen
    exact ⟨hplain, hdynamicThen hplain⟩
  · -- The type is that of the first branch, which therefore is not the unknown type.
    have hfirst : value.type = thenValue.type := by
      rcases choiceType_eq thenValue.type elseValue.type with hchoice | hchoice
      · exact htype.trans hchoice
      · exact (hsame (htype.trans hchoice)).elim
    have hknownType : value.type.isDynamic = false := by
      by_contra hdynamic
      rw [hfirst, Bool.not_eq_false] at hdynamic
      rw [choiceType, hdynamic] at htype
      exact hsame htype
    constructor
    · by_contra henumElse
      have hdynamic := hdynamicElse hplain (Bool.not_eq_false _ ▸ henumElse)
      rw [hknownType] at hdynamic
      cases hdynamic
    · intro henumThen
      rw [hfirst, henumThen] at hplain
      cases hplain

/-- The branches of a choice. -/
theorem Catalog.standard_branches {bindings : Bindings} {condition thenBranch elseBranch : Node}
    {value : Typed} (hwell : WellTyped standard bindings)
    (hvalue : standard.valueOf bindings (.choice condition thenBranch (some elseBranch)) =
      .ok value) :
    ∃ thenValue elseValue, standard.valueOf bindings thenBranch = .ok thenValue ∧
      standard.valueOf bindings elseBranch = .ok elseValue ∧
      (value.type.isEnum = true → thenValue.type.isEnum = true) ∧
      (value.type.isEnum = false → elseValue.type.isEnum = false ∧
        (thenValue.type.isEnum = true → elseValue.type.isDynamic = true)) := by
  rcases valueOf_choice_eq_ok.1 hvalue with ⟨text, thenValue, elseValue, _, hthen, helse, hchoose⟩
  have hthenType := type_mem_of_valueOf hwell hthen
  have helseType := type_mem_of_valueOf hwell helse
  exact ⟨thenValue, elseValue, hthen, helse,
    standard_isEnum_of_choose hthenType helseType hchoose⟩

/-! ## Members behind other types -/

section Standard

variable {program : Node}

/-- Every constant whose type is an enumeration can be a member. -/
def MembersTraced (program : Node) (bindings : Bindings) : Prop :=
  bindings.AllConstants fun name value => value.type.isEnum = true →
    ∃ node state result,
      Reaches .standard (.start .initial program) ⟨.statement (.constant name node), state⟩ ∧
      Catalog.standard.valueOf state.bindings node = .ok value ∧
      Expression.CanBe .standard program ⟨state.bindings, node⟩ result ∧
      result.isMember .standard = true

/-- A member can be itself. -/
theorem Expression.canBe_self {bindings : Bindings} {node : Node}
    (hmember : node.isMember .standard = true) :
    ∃ result, CanBe .standard program ⟨bindings, node⟩ result ∧
      result.isMember .standard = true :=
  ⟨node, ⟨bindings, .refl, isFinal_of_isMember hmember⟩, hmember⟩

/-- An expression whose type is an enumeration can be a member. -/
theorem Expression.canBe_of_isEnum {bindings : Bindings} {node : Node} {value : Typed}
    (hwell : WellTyped .standard bindings) (htraced : MembersTraced program bindings)
    (hvalue : Catalog.standard.valueOf bindings node = .ok value)
    (henum : value.type.isEnum = true) :
    ∃ result, CanBe .standard program ⟨bindings, node⟩ result ∧
      result.isMember .standard = true := by
  induction node generalizing value with
  | block statements ih =>
      match statements with
      | [single] =>
          rcases ih single List.mem_cons_self hvalue henum with ⟨result, hresult, hmember⟩
          exact ⟨result, hresult.of_defersTo (.block bindings single), hmember⟩
      | [] => cases hvalue
      | _ :: _ :: _ => cases hvalue
  | choice condition thenBranch elseBranch _ ihthen _ =>
      cases elseBranch with
      | none => cases hvalue
      | some elseBranch =>
          rcases Catalog.standard_branches hwell hvalue with ⟨thenValue, _, hthen, _, hthenEnum, _⟩
          rcases ihthen hthen (hthenEnum henum) with ⟨result, hresult, hmember⟩
          exact ⟨result, hresult.of_defersTo (.thenBranch _ _ _ _), hmember⟩
  | enumMember enumName member => exact canBe_self rfl
  | identifier name receiver _ =>
      cases receiver with
      | none =>
          rcases hwell.of_name hvalue with hconstant | ⟨_, hplain⟩
          · rcases htraced name value hconstant henum with
              ⟨definition, state, result, hreaches, hdefined, hresult, hmember⟩
            exact ⟨result, hresult.of_defersTo (.constant hconstant hreaches hdefined), hmember⟩
          · simp [henum] at hplain
      | some receiver =>
          cases hnamed : Catalog.standard.namedEnumeration? receiver with
          | some enumName => exact canBe_self (by rw [Node.isMember, hnamed]; rfl)
          | none =>
              simp only [Catalog.valueOf, hnamed] at hvalue
              rcases Except.bind_eq_ok.1 hvalue with ⟨_, _, hrest⟩
              rcases Except.bind_eq_ok.1 hrest with ⟨player, _, hmember⟩
              simp [(hwell.of_playerMember hmember).2] at henum
  -- No other expression has the type of an enumeration.
  | call callee receiver arguments _ _ _ =>
      simp [Catalog.standard_isEnum_of_applyCall hvalue] at henum
  | negation operand _ =>
      rcases Except.bind_eq_ok.1 hvalue with ⟨_, _, hnegate⟩
      rw [negate_type hnegate] at henum
      cases henum
  | binary operator left right _ _ =>
      rcases Except.bind_eq_ok.1 hvalue with ⟨_, _, hrest⟩
      rcases Except.bind_eq_ok.1 hrest with ⟨_, _, hresult⟩
      have hplain := ValueType.isEnum_of_mem_basic (applyOperator_type hresult)
      simp [hplain] at henum
  | number _ | text _ | boolean _ | player =>
      cases hvalue
      cases henum
  | _ => cases hvalue

/-- All definitions of a program can be traced. -/
theorem Reaches.membersTraced {point : Point}
    (hreaches : Reaches .standard (.start .initial program) point) :
    MembersTraced program point.state.bindings := by
  refine hreaches.constants ?_ ?_
  · intro name node state value hdefinition hvalue htraced henum
    rcases Expression.canBe_of_isEnum hdefinition.wellTyped htraced hvalue henum with
      ⟨result, hresult, hmember⟩
    exact ⟨node, state, result, hdefinition, hvalue, hresult, hmember⟩
  · intro name value hvalue
    cases hvalue

namespace Expression

variable {expression next : Expression}

/-- The names of an expression stand for what they stand for at a point of the walk. -/
def Occurs (program : Node) (expression : Expression) : Prop :=
  ∃ point, Reaches .standard (.start .initial program) point ∧
    point.state.bindings = expression.bindings

variable (hoccurs : expression.Occurs program)

include hoccurs

/-- What it defers to occurs. -/
theorem Occurs.of_defersTo (hdefers : DefersTo .standard program expression next) :
    next.Occurs program := by
  cases hdefers with
  | constant _ hreaches _ => exact ⟨_, hreaches, rfl⟩
  | _ => exact hoccurs

/-- So does what that defers to. -/
theorem Occurs.of_path
    (hpath : Relation.ReflTransGen (DefersTo .standard program) expression next) :
    next.Occurs program := by
  induction hpath with
  | refl => exact hoccurs
  | tail _ hdefers ih => exact ih.of_defersTo hdefers

/-- The bindings there are well typed. -/
theorem Occurs.wellTyped : WellTyped .standard expression.bindings := by
  rcases hoccurs with ⟨point, hreaches, hsame⟩
  exact hsame ▸ hreaches.wellTyped

/-- The members there are traced. -/
theorem Occurs.membersTraced : MembersTraced program expression.bindings := by
  rcases hoccurs with ⟨point, hreaches, hsame⟩
  exact hsame ▸ hreaches.membersTraced

/-- An expression that hides a member can be one. -/
theorem canBe_of_hidesMember (hhides : expression.HidesMember .standard program) :
    ∃ result, expression.CanBe .standard program result ∧ result.isMember .standard = true := by
  rcases hhides with
    ⟨bindings, condition, thenBranch, elseBranch, thenValue, elseValue, hpath, hthen, henum, _⟩
  have hthenPath := hpath.tail (.thenBranch bindings condition thenBranch elseBranch)
  have hthenOccurs := hoccurs.of_path hthenPath
  rcases canBe_of_isEnum hthenOccurs.wellTyped hthenOccurs.membersTraced hthen henum with
    ⟨result, ⟨last, hrest, hfinal⟩, hmember⟩
  exact ⟨result, ⟨last, hthenPath.trans hrest, hfinal⟩, hmember⟩

/-- An expression whose type is not an enumeration, but which can be a member, hides it. -/
theorem hidesMember_of_canBe {value : Typed} {result : Node}
    (hvalue : Catalog.standard.valueOf expression.bindings expression.node = .ok value)
    (hplain : value.type.isEnum = false) (hresult : expression.CanBe .standard program result)
    (hmember : result.isMember .standard = true) : expression.HidesMember .standard program := by
  rcases hresult with ⟨last, hpath, _⟩
  -- The induction follows the expression to its result.
  induction hpath using Relation.ReflTransGen.head_induction_on generalizing value with
  | refl =>
      rw [Catalog.standard_isEnum_of_isMember hvalue hmember] at hplain
      cases hplain
  | head hdefers _ ih =>
      have hnext := hoccurs.of_defersTo hdefers
      cases hdefers with
      | block bindings node => exact (ih hnext hvalue hplain).of_defersTo (.block bindings node)
      | constant hconstant hreaches hdefined =>
          have hname : _ = Except.ok value := hvalue
          simp only [Catalog.valueOf, Storage.name_eq, hconstant] at hname
          cases hname
          exact (ih hnext hdefined hplain).of_defersTo (.constant hconstant hreaches hdefined)
      | thenBranch bindings condition thenBranch elseBranch =>
          rcases Catalog.standard_branches hoccurs.wellTyped hvalue with
            ⟨thenValue, elseValue, hthen, helse, _, hbranches⟩
          by_cases henum : thenValue.type.isEnum = true
          · exact ⟨bindings, condition, thenBranch, elseBranch, thenValue, elseValue, .refl, hthen,
              henum, helse, (hbranches hplain).2 henum⟩
          · have hthenPlain := Bool.not_eq_true _ ▸ henum
            exact (ih hnext hthen hthenPlain).of_defersTo (.thenBranch _ _ _ _)
      | elseBranch bindings condition thenBranch elseBranch =>
          rcases Catalog.standard_branches hoccurs.wellTyped hvalue with
            ⟨_, elseValue, _, helse, _, hbranches⟩
          exact (ih hnext helse (hbranches hplain).1).of_defersTo (.elseBranch _ _ _ _)

end Expression
end Standard

/-! ## Stored values -/

namespace Catalog

variable {catalog : Catalog} {state final : CompileState}

/-- A member is never assigned. -/
theorem isEnum_of_assign {target text : String} {receiver : Option Node} {node : Node}
    (hrun : catalog.assign target receiver node state = .ok text final) :
    ∃ value, catalog.valueOf state.bindings node = .ok value ∧ value.type.isEnum = false := by
  cases receiver with
  | none =>
      rcases assign_none_eq_ok.1 hrun with ⟨_, value, _, _, _, hvalue, _, hstored, _⟩
      exact ⟨value, hvalue, (storable_of_storedText hstored).1⟩
  | some receiver =>
      rcases assign_some_eq_ok.1 hrun with ⟨value, _, _, _, _, _, hvalue, _, _, _, hstored, _⟩
      exact ⟨value, hvalue, (storable_of_storedText hstored).1⟩

/-- A member is no first value. -/
theorem isEnum_of_declare {typeName name : String} {domain : Domain} {node : Node}
    {written : Option String}
    (hrun : catalog.declare typeName name domain (some node) state = .ok written final) :
    ∃ value, catalog.valueOf state.bindings node = .ok value ∧ value.type.isEnum = false := by
  rcases declare_some_eq_ok.1 hrun with ⟨_, _, value, _, _, _, _, _, hvalue, _, hstored, _⟩
  exact ⟨value, hvalue, (storable_of_storedText hstored).1⟩

end Catalog

/-- Where a program succeeds, the type of a stored value is never an enumeration. -/
theorem Point.isEnum_of_visits {catalog : Catalog} {start : Point} {statement node : Node}
    {state : CompileState} (hsucceeds : start.Succeeds catalog)
    (hvisits : start.Visits catalog statement state) (hstored : statement.stored? = some node) :
    ∃ value, catalog.valueOf state.bindings node = .ok value ∧ value.type.isEnum = false := by
  rcases hvisits with hreaches | hreaches
  · rcases Point.succeeds_action.1 (hreaches.succeeds hsucceeds) with ⟨lines, final, hrun⟩
    unfold Node.stored? at hstored
    split at hstored
    · cases hstored
      rcases Compile.bind_eq_ok.1 hrun with ⟨text, middle, hassign, _⟩
      exact Catalog.isEnum_of_assign hassign
    · subst hstored
      rcases Compile.bind_eq_ok.1 hrun with ⟨written, middle, hdeclare, _⟩
      exact Catalog.isEnum_of_declare hdeclare
    · cases hstored
  · rcases Point.succeeds_statement.1 (hreaches.succeeds hsucceeds) with ⟨rules, final, hrun⟩
    unfold Node.stored? at hstored
    split at hstored
    · cases hrun
    · subst hstored
      rcases Compile.bind_eq_ok.1 hrun with ⟨_, middle, hdeclare, _⟩
      rcases Compile.discard_eq_ok.1 hdeclare with ⟨written, hdeclare⟩
      exact Catalog.isEnum_of_declare hdeclare
    · cases hstored

/-- An accepted program succeeds. -/
theorem Point.succeeds_of_compileTree {program : Node} {options : CompileOptions} {text : String}
    (haccepted : compileTree program options = .ok text) :
    (Point.start .initial program).Succeeds .standard := by
  unfold compileTree at haccepted
  split at haccepted
  · rename_i plain houtcome
    rcases Session.compile_eq_ok.1 houtcome with ⟨final, hprogram, _⟩
    rcases Catalog.program_eq_ok.1 hprogram with ⟨rules, hrules, _⟩
    exact Point.succeeds_statement.2 ⟨rules, final, hrules⟩
  · cases haccepted

/-- The walk through an accepted program comes to every statement that stores a value, wherever it
stands.  When it does, a member of an enumeration is among the possible results of the stored
expression exactly if the expression chooses, on the way to its results, between something whose
type is an enumeration and something of an unknown type, in this order. -/
theorem stored_members_are_hidden {program : Node} {options : CompileOptions} {text : String}
    (haccepted : compileTree program options = .ok text) :
    (∀ part : Node, part.StandsIn program → part.stored?.isSome →
      ∃ state, (Point.start .initial program).Visits .standard part state) ∧
    ∀ statement state node, (Point.start .initial program).Visits .standard statement state →
      statement.stored? = some node →
      ((∃ result, Expression.CanBe .standard program ⟨state.bindings, node⟩ result ∧
          result.isMember .standard = true) ↔
        Expression.HidesMember .standard program ⟨state.bindings, node⟩) := by
  have hsucceeds := Point.succeeds_of_compileTree haccepted
  constructor
  · rcases Point.succeeds_statement.1 hsucceeds with ⟨rules, final, hrun⟩
    exact Catalog.topLevel_covers hrun
  · intro statement state node hvisits hstored
    rcases Point.isEnum_of_visits hsucceeds hvisits hstored with ⟨value, hvalue, hplain⟩
    have hoccurs : Expression.Occurs program ⟨state.bindings, node⟩ := by
      rcases hvisits with hreaches | hreaches
      · exact ⟨_, hreaches, rfl⟩
      · exact ⟨_, hreaches, rfl⟩
    constructor
    · rintro ⟨result, hresult, hmember⟩
      exact Expression.hidesMember_of_canBe hoccurs hvalue hplain hresult hmember
    · intro hhides
      exact Expression.canBe_of_hidesMember hoccurs hhides

/-- The member `Button.jump`. -/
def jumpButton : Node := .identifier "jump" (some (.identifier "Button" none))

/-- A choice between a member and a variable. -/
def jumpOrLast : Node := .choice (.boolean true) jumpButton (some (.identifier "last" none))

/-- A choice between a constant and a number. -/
def usualOrFive : Node :=
  .choice (.boolean true) (.identifier "usual" none) (some (.number "5"))

/-- A program that stores a member in a number: a constant hides the member, and a choice gives the
constant the type of a number. -/
def numberFromMember : Node :=
  .block [.declare "var" "last" false none, .constant "usual" jumpOrLast,
    .rule "move" "global" none [.declare "number" "speed" false (some usualOrFive)]]

/-- The state after a variable without a type has been declared. -/
def lastState : CompileState :=
  (Catalog.standard.topLevel (.declare "var" "last" false none)).after
    ⟨Session.initial.bindings, #[]⟩

/-- The state after the constant has been defined as well. -/
def usualState : CompileState :=
  (Catalog.standard.topLevel (.constant "usual" jumpOrLast)).after lastState

/-- The state at the beginning of a rule. -/
def StateOn.inRule (state : CompileState) : CompileState :=
  ⟨state.bindings.enter, state.journal.push (.ruleBegun "move" "global")⟩

/-- The number that the program declares hides a member, and so it can be one. -/
theorem stored_members_are_hidden_number :
    (∃ text, compileTree numberFromMember ⟨false⟩ = .ok text) ∧
    (Point.start .initial numberFromMember).Visits .standard
      (.declare "number" "speed" false (some usualOrFive)) usualState.inRule ∧
    Expression.HidesMember .standard numberFromMember
      ⟨usualState.inRule.bindings, usualOrFive⟩ ∧
    ∃ result, Expression.CanBe .standard numberFromMember
      ⟨usualState.inRule.bindings, usualOrFive⟩ result ∧ result.isMember .standard = true := by
  have haccepted : ∃ text, compileTree numberFromMember ⟨false⟩ = .ok text := ⟨_, rfl⟩
  have hlast : Catalog.standard.topLevel (.declare "var" "last" false none)
      ⟨Session.initial.bindings, #[]⟩ = .ok [] lastState := rfl
  have husual : Catalog.standard.topLevel (.constant "usual" jumpOrLast) lastState =
      .ok [] usualState := rfl
  have hevent : Catalog.standard.eventText "global" = .ok "Ongoing - Global" := rfl
  have hconditions (bindings : Bindings) :
      Catalog.standard.ruleConditions bindings none = .ok none := rfl
  have hdefinition : Reaches .standard (.start .initial numberFromMember)
      ⟨.statement (.constant "usual" jumpOrLast), lastState⟩ :=
    .head (.block _ _) <| .head (.otherStatements _ hlast) <| .single (.firstStatement _ _ _)
  have hvisits : (Point.start .initial numberFromMember).Visits .standard
      (.declare "number" "speed" false (some usualOrFive)) usualState.inRule :=
    .inl <| .head (.block _ _) <| .head (.otherStatements _ hlast) <|
      .head (.otherStatements _ husual) <| .head (.firstStatement _ _ _) <|
      .head (.rule _ hevent (hconditions _)) <| .single (.firstAction _ _ _)
  have hhides : Expression.HidesMember .standard numberFromMember
      ⟨usualState.inRule.bindings, usualOrFive⟩ := by
    refine ⟨lastState.bindings, .boolean true, jumpButton, .identifier "last" none, _, _, ?_,
      rfl, rfl, rfl, rfl⟩
    exact .head (.thenBranch _ _ _ _) <| .single (.constant rfl hdefinition rfl)
  rcases haccepted with ⟨text, htext⟩
  have hiff := (stored_members_are_hidden htext).2 _ _ _ hvisits rfl
  exact ⟨⟨text, htext⟩, hvisits, hhides, hiff.2 hhides⟩

/-- A program that assigns a member to a variable whose type is not known yet. -/
def lastFromMember : Node :=
  .block [.declare "var" "last" false none,
    .rule "move" "global" none [.assign "last" none jumpOrLast]]

/-- Members can be stored: this program is accepted, and the member is a possible result of the
expression that it stores. -/
theorem member_stored_by_choice :
    (∃ text, compileTree lastFromMember ⟨false⟩ = .ok text) ∧
    (Node.assign "last" none jumpOrLast).StandsIn lastFromMember ∧
    (Point.start .initial lastFromMember).Visits .standard (.assign "last" none jumpOrLast)
      lastState.inRule ∧
    Expression.CanBe .standard lastFromMember ⟨lastState.inRule.bindings, jumpOrLast⟩ jumpButton ∧
    jumpButton.isMember .standard = true := by
  have hlast : Catalog.standard.topLevel (.declare "var" "last" false none)
      ⟨Session.initial.bindings, #[]⟩ = .ok [] lastState := rfl
  have hevent : Catalog.standard.eventText "global" = .ok "Ongoing - Global" := rfl
  have hconditions (bindings : Bindings) :
      Catalog.standard.ruleConditions bindings none = .ok none := rfl
  refine ⟨⟨_, rfl⟩, ?_, ?_, ?_, rfl⟩
  · exact .inPart (List.mem_cons_of_mem _ List.mem_cons_self) (.inPart List.mem_cons_self (.here _))
  · exact .inl <| .head (.block _ _) <| .head (.otherStatements _ hlast) <|
      .head (.firstStatement _ _ _) <| .head (.rule _ hevent (hconditions _)) <|
      .single (.firstAction _ _ _)
  · exact ⟨lastState.inRule.bindings, .single (.thenBranch _ _ _ _), rfl⟩

-- In the other order, a choice between the two is refused.
example :
    let member : Node := .identifier "jump" (some (.identifier "Button" none))
    compileTree (.block [.declare "var" "last" false none, .rule "move" "global" none
      [.assign "last" none (.choice (.boolean true) (.identifier "last" none) (some member))]])
      ⟨false⟩ = .error (.semantic (.notConvertible "dynamic" "enum-Button")) := rfl

end Workshop

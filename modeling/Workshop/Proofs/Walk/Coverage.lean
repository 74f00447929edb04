import Workshop.Proofs.Walk.Points

/-!
# Every statement is visited

A program that is accepted has been walked through completely: wherever in its
tree a value is stored, the walk has come to this statement.  Expressions are
not walked through, but an expression that has a value contains no statement.

Main definitions:

- `Node.stored?`: the expression whose value a statement stores.
- `Point.Visits`: the walk comes to a statement in a state.

Main results:

- Theorem `Catalog.storesNothing_of_valueOf`: nothing is stored within an
  expression that has a value.
- Theorem `Catalog.topLevel_covers`: the walk visits every statement that stores
  a value.
-/

namespace Workshop

/-! ## Statements that store a value -/

namespace Node

/-- The expression whose value a statement stores, if it stores one. -/
def stored? : Node → Option Node
  | assign _ _ value => some value
  | declare _ _ _ initial => initial
  | _ => none

/-- Nothing is stored anywhere in a tree. -/
def StoresNothing (node : Node) : Prop :=
  ∀ part : Node, part.StandsIn node → part.stored? = none

/-- A tree whose parts store nothing. -/
theorem StoresNothing.of_parts {node : Node} (hself : node.stored? = none)
    (hparts : ∀ part ∈ node.parts, part.StoresNothing) : node.StoresNothing :=
  forall_standsIn_iff.2 ⟨hself, hparts⟩

/-- An operation stores nothing. -/
theorem StoresNothing.binary {left right : Node} (hleft : left.StoresNothing)
    (hright : right.StoresNothing) (operator : BinaryOperator) :
    (Node.binary operator left right).StoresNothing := by
  refine .of_parts rfl ?_
  intro part hpart
  simp only [parts, List.mem_cons, List.not_mem_nil, or_false] at hpart
  rcases hpart with rfl | rfl
  · exact hleft
  · exact hright

end Node

/-! ## Expressions -/

namespace Catalog

variable {catalog : Catalog} {bindings : Bindings}

/-- Nor does a call. -/
theorem storesNothing_of_applyCall {mode : CallMode} {callee : Node} {receiver : Option Node}
    {arguments : List Node} {value : Typed}
    (hparts : ∀ node, node ∈ receiver ∨ node ∈ arguments →
      ∀ value, catalog.valueOf bindings node = .ok value → node.StoresNothing)
    (hcall : catalog.applyCall mode callee (catalog.optionalValueOf bindings receiver)
      (catalog.valuesOf bindings arguments) = .ok value) :
    ∀ part ∈ (Node.call callee receiver arguments).parts, part.StoresNothing := by
  rw [optionalValueOf_eq_map, valuesOf_eq_map] at hcall
  rcases applyCall_operands hcall with ⟨⟨name, rfl⟩, hreceiver, harguments⟩
  intro part hpart
  simp only [Node.parts, List.cons_append, List.mem_cons, List.mem_append,
    Option.mem_toList] at hpart
  rcases hpart with rfl | hpart | hpart
  · refine .of_parts rfl ?_
    intro part hpart
    cases hpart
  · rcases hreceiver _ (Option.mem_map_of_mem _ hpart) with ⟨value, hvalue⟩
    exact hparts part (.inl hpart) value hvalue
  · rcases harguments _ (List.mem_map_of_mem hpart) with ⟨value, hvalue⟩
    exact hparts part (.inr hpart) value hvalue

/-- Nothing is stored within an expression that has a value. -/
theorem storesNothing_of_valueOf {node : Node} {value : Typed}
    (hvalue : catalog.valueOf bindings node = .ok value) : node.StoresNothing := by
  induction node generalizing value with
  | block statements ih =>
      match statements with
      | [single] =>
          refine .of_parts rfl ?_
          intro part hpart
          rw [List.mem_singleton.1 hpart]
          exact ih single List.mem_cons_self hvalue
      | [] => cases hvalue
      | _ :: _ :: _ => cases hvalue
  | call callee receiver arguments _ ihreceiver iharguments =>
      refine .of_parts rfl (storesNothing_of_applyCall ?_ hvalue)
      intro node hnode value hvalue
      rcases hnode with hmem | hmem
      · exact ihreceiver node hmem hvalue
      · exact iharguments node hmem hvalue
  | negation operand ih =>
      rcases Except.bind_eq_ok.1 hvalue with ⟨typed, htyped, _⟩
      refine .of_parts rfl ?_
      intro part hpart
      rw [List.mem_singleton.1 hpart]
      exact ih htyped
  | binary operator left right ihleft ihright =>
      rcases Except.bind_eq_ok.1 hvalue with ⟨leftValue, hleft, hrest⟩
      rcases Except.bind_eq_ok.1 hrest with ⟨rightValue, hright, _⟩
      exact (ihleft hleft).binary (ihright hright) operator
  | choice condition thenBranch elseBranch ihcondition ihthen ihelse =>
      cases elseBranch with
      | none => cases hvalue
      | some elseBranch =>
          rcases valueOf_choice_eq_ok.1 hvalue with
            ⟨text, thenValue, elseValue, htext, hthen, helse, _⟩
          rcases valueOf_of_condition htext with ⟨conditionValue, hcondition⟩
          refine .of_parts rfl ?_
          intro part hpart
          simp only [Node.parts, Option.toList_some, List.mem_cons, List.not_mem_nil,
            or_false] at hpart
          rcases hpart with rfl | rfl | rfl
          · exact ihcondition hcondition
          · exact ihthen hthen
          · exact ihelse part rfl helse
  | identifier name receiver ih =>
      refine .of_parts rfl ?_
      intro part hpart
      have hreceiver : receiver = some part := Option.mem_toList.1 hpart
      subst hreceiver
      -- The name of an enumeration has no value of its own, but it is a plain name.
      simp only [valueOf] at hvalue
      cases hnamed : catalog.namedEnumeration? part with
      | some enumName =>
          unfold namedEnumeration? at hnamed
          split at hnamed
          · refine .of_parts rfl ?_
            intro inner hinner
            cases hinner
          · cases hnamed
      | none =>
          rw [hnamed] at hvalue
          rcases Except.bind_eq_ok.1 hvalue with ⟨typed, htyped, _⟩
          exact ih part rfl htyped
  | constant name body _ => cases hvalue
  | declare typeName name perPlayer initial _ => cases hvalue
  | useBank domain bank => cases hvalue
  | rule name event conditions actions _ _ => cases hvalue
  | assign target receiver body _ _ => cases hvalue
  | enumMember _ _ | number _ | text _ | boolean _ | player =>
      refine .of_parts rfl ?_
      intro part hpart
      cases hpart

/-- Nothing is stored within the conditions of a rule. -/
theorem storesNothing_of_ruleConditions {conditions : List Node} {texts : List String}
    (htexts : conditions.mapM (catalog.ruleCondition bindings) = .ok texts) :
    ∀ condition ∈ conditions, condition.StoresNothing := by
  induction conditions generalizing texts with
  | nil => simp
  | cons condition rest ih =>
      simp only [List.mapM_cons, Except.bind_eq_ok, Except.pure_eq_ok] at htexts
      rcases htexts with ⟨text, htext, others, hothers, _⟩
      intro node hmem
      rcases List.mem_cons.1 hmem with rfl | hmem
      · unfold ruleCondition at htext
        split at htext
        · split at htext
          · rcases Except.bind_eq_ok.1 htext with ⟨leftValue, hleft, hrest⟩
            rcases Except.bind_eq_ok.1 hrest with ⟨rightValue, hright, _⟩
            exact (storesNothing_of_valueOf hleft).binary (storesNothing_of_valueOf hright) _
          · cases htext
        · cases htext
      · exact ih hothers node hmem

end Catalog

/-! ## Statements -/

namespace Point

variable {catalog : Catalog} {point next : Point} {node : Node}

/-- From a point, the walk comes to a statement in a state. -/
def Visits (catalog : Catalog) (point : Point) (statement : Node) (state : CompileState) : Prop :=
  Reaches catalog point ⟨.action statement, state⟩ ∨
    Reaches catalog point ⟨.statement statement, state⟩

/-- From a point, the walk comes to all statements of a tree that store a value. -/
def Covers (catalog : Catalog) (point : Point) (node : Node) : Prop :=
  ∀ part : Node, part.StandsIn node → part.stored?.isSome → ∃ state, point.Visits catalog part state

namespace Covers

/-- What stores nothing is covered. -/
theorem of_storesNothing (hnothing : node.StoresNothing) : point.Covers catalog node := by
  intro part hpart hstored
  rw [hnothing part hpart] at hstored
  cases hstored

/-- A point covers what the next one covers. -/
theorem of_leads (hleads : Leads catalog point next) (hcovers : next.Covers catalog node) :
    point.Covers catalog node := by
  intro part hpart hstored
  rcases hcovers part hpart hstored with ⟨state, hreaches | hreaches⟩
  · exact ⟨state, .inl (.head hleads hreaches)⟩
  · exact ⟨state, .inr (.head hleads hreaches)⟩

/-- A tree is covered with its parts. -/
theorem of_parts {state : CompileState} (hself : point.Visits catalog node state)
    (hparts : ∀ part ∈ node.parts, point.Covers catalog part) : point.Covers catalog node := by
  intro part hpart hstored
  cases hpart with
  | here => exact ⟨state, hself⟩
  | inPart hmem hinner => exact hparts _ hmem part hinner hstored

/-- A statement itself, where nothing is stored within its parts. -/
theorem of_visit {state : CompileState} (hself : point.Visits catalog node state)
    (hparts : ∀ part ∈ node.parts, part.StoresNothing) : point.Covers catalog node :=
  of_parts hself fun part hpart => of_storesNothing (hparts part hpart)

end Covers
end Point

namespace Catalog

variable {catalog : Catalog} {state final : CompileState}

/-- The parts of an assignment store nothing. -/
theorem storesNothing_of_assign {target text : String} {receiver : Option Node} {value : Node}
    (hrun : catalog.assign target receiver value state = .ok text final) :
    ∀ part ∈ (Node.assign target receiver value).parts, part.StoresNothing := by
  intro part hpart
  cases receiver with
  | none =>
      rcases assign_none_eq_ok.1 hrun with ⟨_, typed, _, _, _, htyped, _⟩
      rw [List.mem_singleton.1 hpart]
      exact storesNothing_of_valueOf htyped
  | some receiver =>
      rcases assign_some_eq_ok.1 hrun with ⟨typed, actor, _, _, _, _, htyped, hactor, _⟩
      simp only [Node.parts, Option.toList_some, List.mem_cons, List.not_mem_nil, or_false] at hpart
      rcases hpart with rfl | rfl
      · exact storesNothing_of_valueOf htyped
      · exact storesNothing_of_valueOf hactor

/-- Nor do those of a declaration. -/
theorem storesNothing_of_declare {typeName name : String} {domain : Domain} {perPlayer : Bool}
    {initial : Option Node} {written : Option String}
    (hrun : catalog.declare typeName name domain initial state = .ok written final) :
    ∀ part ∈ (Node.declare typeName name perPlayer initial).parts, part.StoresNothing := by
  intro part hpart
  cases initial with
  | none => cases hpart
  | some initial =>
      rcases declare_some_eq_ok.1 hrun with ⟨_, _, typed, _, _, _, _, _, htyped, _⟩
      rw [List.mem_singleton.1 hpart]
      exact storesNothing_of_valueOf htyped

/-- A list of actions is covered if every single action is. -/
theorem actionList_covers {nodes : List Node} {lines : List Line}
    (hcovers : ∀ node ∈ nodes, ∀ state lines final, catalog.action node state = .ok lines final →
      Point.Covers catalog ⟨.action node, state⟩ node)
    (hrun : catalog.actionList nodes state = .ok lines final) :
    ∀ node ∈ nodes, Point.Covers catalog ⟨.actions nodes, state⟩ node := by
  induction nodes generalizing state lines final with
  | nil => simp
  | cons first rest ih =>
      rcases Compile.append_eq_ok.1 hrun with ⟨firstLines, middle, others, hfirst, hothers, _⟩
      intro node hmem
      rcases List.mem_cons.1 hmem with rfl | hmem
      · exact .of_leads (.firstAction _ _ _) (hcovers node hmem state firstLines middle hfirst)
      · refine .of_leads (.otherActions rest hfirst) (ih ?_ hothers node hmem)
        intro node hmem
        exact hcovers node (List.mem_cons_of_mem _ hmem)

/-- Where an action succeeds, the walk comes to all statements in it that store a value. -/
theorem action_covers {node : Node} {lines : List Line}
    (hrun : catalog.action node state = .ok lines final) :
    Point.Covers catalog ⟨.action node, state⟩ node := by
  have hself : Point.Visits catalog ⟨.action node, state⟩ node state := .inl .refl
  induction node generalizing state lines final with
  | assign target receiver value _ _ =>
      rcases Compile.bind_eq_ok.1 hrun with ⟨text, middle, hassign, _⟩
      exact .of_visit hself (storesNothing_of_assign hassign)
  | block statements ih =>
      rcases Compile.inScope_eq_ok.1 hrun with ⟨middle, hactions, _⟩
      refine .of_parts hself ?_
      intro part hpart
      refine .of_leads (.innerBlock statements state) (actionList_covers ?_ hactions part hpart)
      intro node hmem state lines final hrun
      exact ih node hmem hrun (.inl .refl)
  | call callee receiver arguments _ _ _ =>
      rcases Compile.bind_eq_ok.1 hrun with ⟨value, middle, hcall, _⟩
      rcases Compile.query_eq_ok.1 hcall with ⟨hcall, _⟩
      refine .of_visit hself (storesNothing_of_applyCall ?_ hcall)
      intro node _ value hvalue
      exact storesNothing_of_valueOf hvalue
  | declare typeName name perPlayer initial _ =>
      rcases Compile.bind_eq_ok.1 hrun with ⟨written, middle, hdeclare, _⟩
      exact .of_visit hself (storesNothing_of_declare hdeclare)
  | useBank domain bank =>
      refine .of_parts hself ?_
      intro part hpart
      cases hpart
  | choice condition thenBranch elseBranch _ ihthen ihelse =>
      rcases action_choice_eq_ok.1 hrun with ⟨_, _, middle, _, hcondition, hthen, helse, _⟩
      rcases valueOf_of_condition hcondition with ⟨conditionValue, hvalue⟩
      refine .of_parts hself ?_
      intro part hpart
      simp only [Node.parts, List.mem_cons, Option.mem_toList] at hpart
      rcases hpart with rfl | rfl | hpart
      · exact .of_storesNothing (storesNothing_of_valueOf hvalue)
      · exact .of_leads (.thenBranch part elseBranch hcondition) (ihthen hthen (.inl .refl))
      · cases hpart
        rcases Compile.bind_pure_eq_ok.1 helse with ⟨elseLines, hinner, _⟩
        exact .of_leads (.elseBranch part hcondition hthen) (ihelse part rfl hinner (.inl .refl))
  | _ => cases hrun

/-- A list of top level statements is covered if every single statement is. -/
theorem topLevelList_covers {nodes : List Node} {rules : List String}
    (hcovers : ∀ node ∈ nodes, ∀ state rules final, catalog.topLevel node state = .ok rules final →
      Point.Covers catalog ⟨.statement node, state⟩ node)
    (hrun : catalog.topLevelList nodes state = .ok rules final) :
    ∀ node ∈ nodes, Point.Covers catalog ⟨.statements nodes, state⟩ node := by
  induction nodes generalizing state rules final with
  | nil => simp
  | cons first rest ih =>
      rcases Compile.append_eq_ok.1 hrun with ⟨firstRules, middle, others, hfirst, hothers, _⟩
      intro node hmem
      rcases List.mem_cons.1 hmem with rfl | hmem
      · exact .of_leads (.firstStatement _ _ _) (hcovers node hmem state firstRules middle hfirst)
      · refine .of_leads (.otherStatements rest hfirst) (ih ?_ hothers node hmem)
        intro node hmem
        exact hcovers node (List.mem_cons_of_mem _ hmem)

/-- Where a top level statement succeeds, the walk comes to all statements in it that store a
value. -/
theorem topLevel_covers {node : Node} {rules : List String}
    (hrun : catalog.topLevel node state = .ok rules final) :
    Point.Covers catalog ⟨.statement node, state⟩ node := by
  have hself : Point.Visits catalog ⟨.statement node, state⟩ node state := .inr .refl
  induction node generalizing state rules final with
  | block statements ih =>
      refine .of_parts hself ?_
      intro part hpart
      refine .of_leads (.block statements state) (topLevelList_covers ?_ hrun part hpart)
      intro node hmem state rules final hrun
      exact ih node hmem hrun (.inr .refl)
  | constant name value _ =>
      rcases Compile.bind_eq_ok.1 hrun with ⟨_, middle, hdefine, _⟩
      rcases define_eq_ok.1 hdefine with ⟨_, typed, htyped, _⟩
      refine .of_visit hself ?_
      intro part hpart
      rw [List.mem_singleton.1 hpart]
      exact storesNothing_of_valueOf htyped
  | declare typeName name perPlayer initial _ =>
      rcases Compile.bind_eq_ok.1 hrun with ⟨_, middle, hdeclare, _⟩
      rcases Compile.discard_eq_ok.1 hdeclare with ⟨written, hdeclare⟩
      exact .of_visit hself (storesNothing_of_declare hdeclare)
  | useBank domain bank =>
      refine .of_parts hself ?_
      intro part hpart
      cases hpart
  | rule name event conditions actions _ _ =>
      rcases Compile.bind_eq_ok.1 hrun with ⟨text, middle, hrule, _⟩
      rcases rule_eq_ok.1 hrule with
        ⟨eventText, texts, lines, inner, hevent, hconditions, hactions, _⟩
      refine .of_parts hself ?_
      intro part hpart
      rcases List.mem_append.1 hpart with hpart | hpart
      · cases conditions with
        | none => cases hpart
        | some conditions =>
            rcases Except.bind_eq_ok.1 hconditions with ⟨list, hlist, _⟩
            exact .of_storesNothing (storesNothing_of_ruleConditions hlist part hpart)
      · refine .of_leads (.rule actions hevent hconditions)
          (actionList_covers ?_ hactions part hpart)
        intro node _ state lines final hrun
        exact action_covers hrun
  | _ => cases hrun

end Catalog
end Workshop

import Workshop.Proofs.Output.Nesting
import Workshop.Proofs.Reading.ValidWords
import Workshop.Proofs.Walk.Members

/-!
# Values are arguments

Every value is compiled to a text that can stand in one place between
separators: it closes what it opens, and it has no separator of its own.  So
wherever a value is written, it cannot break out of its place.

Main definitions:

- `Catalog.IsClosed`: the calls, conversions and members of a catalog cannot do so
  by themselves.
- `Bindings.IsSound`: all types are known, and the texts of constants are
  arguments.

Main result: Theorem `Catalog.isArgument_of_valueOf`: the text of a value is an
argument.
-/

namespace Workshop

/-! ## Accesses to variables -/

variable {value player text : String}

/-- Bank and index of a slot are arguments. -/
theorem forall_isArgument_slot (slot : Slot) {others : List String}
    (hothers : ∀ other ∈ others, IsArgument other) :
    ∀ argument ∈ slot.bank.text :: toString slot.index :: others, IsArgument argument :=
  List.forall_mem_cons.2 ⟨isArgument_bank slot.bank,
    List.forall_mem_cons.2 ⟨isArgument_toString slot.index, hothers⟩⟩

namespace Term

/-- The text that gives a global variable a value: its bank, its slot and the value. -/
def writeGlobalTemplate : Template :=
  ⟨[.literal "Set Global Variable At Index(", .argument 0, .literal ", ", .argument 1,
    .literal ", ", .argument 2, .literal ")"]⟩

/-- The text that gives a variable of a player a value: the player, its bank, its slot and the
value. -/
def writePlayerTemplate : Template :=
  ⟨[.literal "Set Player Variable At Index(", .argument 0, .literal ", ", .argument 1,
    .literal ", ", .argument 2, .literal ", ", .argument 3, .literal ")"]⟩

/-- A global variable is written by a template. -/
theorem writeGlobal_eq_fill (slot : Slot) (value : String) :
    writeGlobal slot value =
      writeGlobalTemplate.fill [slot.bank.text, toString slot.index, value] :=
  rfl

/-- So is a variable of a player. -/
theorem writePlayer_eq_fill (player : String) (slot : Slot) (value : String) :
    writePlayer player slot value =
      writePlayerTemplate.fill [player, slot.bank.text, toString slot.index, value] :=
  rfl

end Term

/-- Reading a variable is an argument. -/
theorem isArgument_readGlobal (slot : Slot) : IsArgument (Term.readGlobal slot) := by
  have hclosed : Template.IsClosed ⟨[.literal "Value In Array(Global Variable(", .argument 0,
      .literal "), ", .argument 1, .literal ")"]⟩ := by
    decide
  exact hclosed.isArgument_fill (forall_isArgument_slot slot (List.forall_mem_nil _))

/-- So is writing one. -/
theorem isArgument_writeGlobal (slot : Slot) (hvalue : IsArgument value) :
    IsArgument (Term.writeGlobal slot value) := by
  have hclosed : Term.writeGlobalTemplate.IsClosed := by decide
  exact hclosed.isArgument_fill (forall_isArgument_slot slot (List.forall_mem_singleton.2 hvalue))

/-- Reading a variable of a player is an argument. -/
theorem isArgument_readPlayer (hplayer : IsArgument player) (slot : Slot) :
    IsArgument (Term.readPlayer player slot) := by
  have hclosed : Template.IsClosed ⟨[.literal "Value In Array(Player Variable(", .argument 0,
      .literal ", ", .argument 1, .literal "), ", .argument 2, .literal ")"]⟩ := by
    decide
  have hslot := forall_isArgument_slot slot (List.forall_mem_nil _)
  exact hclosed.isArgument_fill (List.forall_mem_cons.2 ⟨hplayer, hslot⟩)

/-- So is writing one. -/
theorem isArgument_writePlayer (hplayer : IsArgument player) (slot : Slot)
    (hvalue : IsArgument value) : IsArgument (Term.writePlayer player slot value) := by
  have hclosed : Term.writePlayerTemplate.IsClosed := by decide
  have hslot := forall_isArgument_slot slot (List.forall_mem_singleton.2 hvalue)
  exact hclosed.isArgument_fill (List.forall_mem_cons.2 ⟨hplayer, hslot⟩)

/-! ## Conversions and operators -/

/-- A conversion that closes what it opens. -/
def Conversion.IsClosed (conversion : Conversion) : Prop :=
  Template.IsClosed ⟨[.literal conversion.before, .argument 0, .literal conversion.after]⟩
deriving Decidable

/-- Conversions keep arguments. -/
theorem Conversion.IsClosed.isArgument_apply {conversion : Conversion}
    (hclosed : conversion.IsClosed) (htext : IsArgument text) :
    IsArgument (conversion.apply text) := by
  have hfill := Template.IsClosed.isArgument_fill (List.forall_mem_singleton.2 htext) hclosed
  simpa [Template.fill, TemplatePiece.fill, apply, String.append_assoc] using hfill

/-- All conversions to a type close what they open. -/
def ValueType.IsClosed (type : ValueType) : Prop :=
  ∀ conversion ∈ type.conversions, conversion.IsClosed
deriving Decidable

/-- The text of a value is an argument, and stays one as a value of another type. -/
structure Typed.IsSound (value : Typed) : Prop where
  type : value.type.IsClosed
  text : IsArgument value.text

/-- So do changes of type. -/
theorem isArgument_of_as {value : Typed} {target : ValueType} (htarget : target.IsClosed)
    (hvalue : IsArgument value.text) (has : value.as target = .ok text) : IsArgument text := by
  unfold Typed.as ValueType.adapt at has
  split at has
  · split at has
    · cases has
      exact hvalue
    · split at has
      · rename_i conversion hfound
        cases has
        exact (htarget conversion (List.mem_of_find?_eq_some hfound)).isArgument_apply hvalue
      · cases has
        exact hvalue
  · cases has

section Operators

variable {left right value : Typed} {operator : BinaryOperator}

/-- Operands of a comparison are arguments. -/
theorem isArgument_of_comparable {texts : String × String} (hleft : left.IsSound)
    (hright : right.IsSound) (htexts : comparable operator left right = .ok texts) :
    IsArgument texts.1 ∧ IsArgument texts.2 := by
  rcases comparable_eq_ok htexts with ⟨htext, has⟩ | ⟨has, htext⟩
  · exact ⟨htext ▸ hleft.text, isArgument_of_as hleft.type hright.text has⟩
  · exact ⟨isArgument_of_as hright.type hleft.text has, htext ▸ hright.text⟩

/-- So are operands of an operator. -/
theorem isArgument_of_firstSignature? {signatures : List OperatorSignature} {type : ValueType}
    {leftText rightText : String}
    (hclosed : ∀ signature ∈ signatures, signature.left.IsClosed ∧ signature.right.IsClosed)
    (hleft : left.IsSound) (hright : right.IsSound)
    (hfirst : firstSignature? left right signatures = some (type, leftText, rightText)) :
    IsArgument leftText ∧ IsArgument rightText := by
  rcases firstSignature?_eq_some hfirst with ⟨signature, hmem, _, hasLeft, hasRight⟩
  exact ⟨isArgument_of_as (hclosed signature hmem).1 hleft.text hasLeft,
    isArgument_of_as (hclosed signature hmem).2 hright.text hasRight⟩

/-- Operators are arguments. -/
theorem isArgument_symbol (operator : BinaryOperator) : IsArgument operator.symbol := by
  cases operator <;> decide

/-- Operations are arguments. -/
theorem isArgument_of_applyOperator (hleft : left.IsSound) (hright : right.IsSound)
    (hvalue : applyOperator operator left right = .ok value) : IsArgument value.text := by
  unfold applyOperator at hvalue
  split at hvalue
  · rcases Except.bind_eq_ok.1 hvalue with ⟨texts, htexts, hresult⟩
    cases hresult
    rcases isArgument_of_comparable hleft hright htexts with ⟨hleftText, hrightText⟩
    have hclosed : Template.IsClosed ⟨[.literal "Compare(", .argument 0, .literal ", ",
        .argument 1, .literal ", ", .argument 2, .literal ")"]⟩ := by
      decide
    have hoperands : ∀ operand ∈ [texts.1, operator.symbol, texts.2], IsArgument operand := by
      simp [hleftText, hrightText, isArgument_symbol]
    exact hclosed.isArgument_fill hoperands
  · split at hvalue
    · rename_i type leftText rightText hfirst
      cases hvalue
      have hsignatures : ∀ signature ∈ operator.signatures,
          signature.left.IsClosed ∧ signature.right.IsClosed := by
        cases operator <;> decide
      rcases isArgument_of_firstSignature? hsignatures hleft hright hfirst with
        ⟨hleftText, hrightText⟩
      have hclosed : Template.IsClosed ⟨[.literal operator.function, .literal "(", .argument 0,
          .literal ", ", .argument 1, .literal ")"]⟩ := by
        cases operator <;> decide
      have hoperands : ∀ operand ∈ [leftText, rightText], IsArgument operand := by
        simp [hleftText, hrightText]
      have hfill := hclosed.isArgument_fill hoperands
      -- The text of the function has to be known for the pieces to be joined.
      cases operator <;> exact hfill
    · cases hvalue

/-- Negations are arguments. -/
theorem isArgument_of_negate {operand : Typed} (hoperand : operand.IsSound)
    (hvalue : negate operand = .ok value) : IsArgument value.text := by
  rcases negate_eq_ok hvalue with ⟨text, has, rfl⟩
  have hboolean : ValueType.boolean.IsClosed := by decide
  have htext := isArgument_of_as hboolean hoperand.text has
  have hclosed : Template.IsClosed ⟨[.literal "Not(", .argument 0, .literal ")"]⟩ := by decide
  exact hclosed.isArgument_fill (List.forall_mem_singleton.2 htext)

/-- Choices are arguments. -/
theorem isArgument_of_choose {condition : String} (hcondition : IsArgument condition)
    (hleft : left.IsSound) (hright : right.IsSound)
    (hvalue : choose condition left right = .ok value) : IsArgument value.text := by
  rcases Except.bind_eq_ok.1 hvalue with ⟨leftText, hasLeft, hrest⟩
  rcases Except.bind_eq_ok.1 hrest with ⟨rightText, hasRight, hresult⟩
  cases hresult
  have htype : (choiceType left.type right.type).IsClosed :=
    holds_choiceType hleft.type hright.type
  have hclosed : Template.IsClosed ⟨[.literal "If-Then-Else(", .argument 0, .literal ", ",
      .argument 1, .literal ", ", .argument 2, .literal ")"]⟩ := by
    decide
  have hoperands : ∀ operand ∈ [condition, leftText, rightText], IsArgument operand := by
    simp [hcondition, isArgument_of_as htype hleft.text hasLeft,
      isArgument_of_as htype hright.text hasRight]
  exact hclosed.isArgument_fill hoperands

end Operators

/-! ## Calls and names -/

namespace Catalog

/-- The calls, conversions and members of a catalog close what they open, and have no separators
of their own. -/
structure IsClosed (catalog : Catalog) : Prop where
  calls : ∀ builtin ∈ catalog.actions ++ catalog.values, ∀ texts,
    texts.length = builtin.parameters.length → (∀ text ∈ texts, IsArgument text) →
    IsArgument (builtin.render texts)
  types : ∀ type ∈ catalog.registry.types, type.IsClosed
  members : ∀ enumeration ∈ catalog.enumerations, ∀ member ∈ enumeration.members,
    IsArgument member.2

variable {method : String}

/-- What can be called in scripts has a template. -/
theorem exists_template_of_mem {builtin : Builtin}
    (hmem : builtin ∈ standard.actions ++ standard.values) :
    ∃ entry ∈ standardActions ++ standardValues, entry.toBuiltin = builtin := by
  rw [standard, ← List.map_append] at hmem
  exact List.mem_map.1 hmem

/-- The standard catalog has closed texts. -/
theorem standard_isClosed : standard.IsClosed where
  calls := by
    intro builtin hmem texts hlength htexts
    rcases exists_template_of_mem hmem with ⟨entry, hentry, rfl⟩
    have hclosed : ∀ entry ∈ standardActions ++ standardValues, entry.template.IsClosed := by
      decide
    rw [TemplateBuiltin.render_toBuiltin hlength]
    exact (hclosed entry hentry).isArgument_fill htexts
  types := by decide
  members := by decide

variable {catalog : Catalog}

/-- The receiver is an argument of the call. -/
theorem mem_of_receiverArgument {builtin : Builtin} {receiver : Option ValueResult}
    {values : List Typed}
    (hvalues : catalog.receiverArgument method builtin receiver = .ok values) :
    ∀ value ∈ values, receiver = some (.ok value) := by
  unfold receiverArgument at hvalues
  split at hvalues
  · cases hvalues
    simp
  · split at hvalues
    · cases hvalues
    · rcases Except.bind_eq_ok.1 hvalues with ⟨value, rfl, hrest⟩
      rcases Except.bind_eq_ok.1 hrest with ⟨accepted, _, hresult⟩
      split at hresult
      · cases hresult
        simp
      · cases hresult

/-- Arguments come from their expressions. -/
theorem mem_of_producedArguments {position : Nat} {arguments : List ValueResult}
    {values : List Typed} (hvalues : producedArguments method position arguments = .ok values) :
    ∀ value ∈ values, .ok value ∈ arguments := by
  induction arguments generalizing position values with
  | nil =>
      cases hvalues
      simp
  | cons argument rest ih =>
      rcases Except.bind_eq_ok.1 hvalues with ⟨value, rfl, hrest⟩
      split at hrest
      · cases hrest
      · rcases Except.bind_eq_ok.1 hrest with ⟨others, hothers, hresult⟩
        cases hresult
        intro other hmem
        rcases List.mem_cons.1 hmem with rfl | hmem
        · exact List.mem_cons_self
        · exact List.mem_cons_of_mem _ (ih hothers other hmem)

/-- Adapted arguments are arguments. -/
theorem isArgument_of_adaptedArguments (hclosed : catalog.IsClosed) {position : Nat}
    {arguments : List Typed} {parameters texts : List String}
    (harguments : ∀ argument ∈ arguments, IsArgument argument.text)
    (htexts : catalog.adaptedArguments method position arguments parameters = .ok texts) :
    ∀ text ∈ texts, IsArgument text := by
  induction arguments generalizing position parameters texts with
  | nil =>
      cases htexts
      simp
  | cons argument rest ih =>
      rw [List.forall_mem_cons] at harguments
      cases parameters with
      | nil =>
          cases htexts
          simp
      | cons parameter parameters =>
          rcases Except.bind_eq_ok.1 htexts with ⟨expected, hexpected, hrest⟩
          split at hrest
          · rcases Except.bind_eq_ok.1 hrest with ⟨text, has, hrest⟩
            rcases Except.bind_eq_ok.1 hrest with ⟨others, hothers, hresult⟩
            cases hresult
            have htype := hclosed.types expected (mem_registry_of_type hexpected)
            exact List.forall_mem_cons.2
              ⟨isArgument_of_as htype harguments.1 has, ih harguments.2 hothers⟩
          · cases hrest

/-- The text of a call is an argument if its receiver and its arguments are. -/
theorem isArgument_of_applyCall (hclosed : catalog.IsClosed) {bindings : Bindings}
    {mode : CallMode} {callee : Node} {receiver : Option Node} {arguments : List Node}
    {value : Typed}
    (hreceiver : ∀ node ∈ receiver, ∀ value, catalog.valueOf bindings node = .ok value →
      IsArgument value.text)
    (harguments : ∀ node ∈ arguments, ∀ value, catalog.valueOf bindings node = .ok value →
      IsArgument value.text)
    (hvalue : catalog.applyCall mode callee (catalog.optionalValueOf bindings receiver)
      (catalog.valuesOf bindings arguments) = .ok value) :
    IsArgument value.text := by
  rw [optionalValueOf_eq_map, valuesOf_eq_map] at hvalue
  rcases applyCall_eq_ok hvalue with
    ⟨name, builtin, first, others, rfl, hfound, hfirst, hothers, happly⟩
  rcases applyBuiltin_eq_ok.1 happly with ⟨hlength, texts, _, htexts, _, rfl⟩
  have hall : ∀ argument ∈ first ++ others, IsArgument argument.text := by
    intro argument hmem
    rcases List.mem_append.1 hmem with hmem | hmem
    · have houtcome := mem_of_receiverArgument hfirst argument hmem
      rcases Option.map_eq_some_iff.1 houtcome with ⟨node, hnode, hargument⟩
      exact hreceiver node hnode argument hargument
    · have houtcome := mem_of_producedArguments hothers argument hmem
      rcases List.mem_map.1 houtcome with ⟨node, hnode, hargument⟩
      exact harguments node hnode argument hargument
  exact hclosed.calls builtin (mem_of_builtin? hfound) texts
    (length_of_adaptedArguments hlength htexts) (isArgument_of_adaptedArguments hclosed hall htexts)

/-- Members are arguments. -/
theorem isArgument_of_enumMember (hclosed : catalog.IsClosed) {enumName member : String}
    {value : Typed} (hvalue : catalog.enumMember enumName member = .ok value) :
    IsArgument value.text := by
  unfold enumMember at hvalue
  split at hvalue
  · cases hvalue
  · rename_i enumeration hfound
    split at hvalue
    · cases hvalue
    · rename_i text hmember
      rcases Except.bind_eq_ok.1 hvalue with ⟨type, _, hresult⟩
      cases hresult
      rcases Option.map_eq_some_iff.1 hmember with ⟨entry, hentry, rfl⟩
      exact hclosed.members enumeration (List.mem_reverse.1 (List.mem_of_find?_eq_some hfound))
        entry (List.mem_of_find?_eq_some hentry)

end Catalog

/-- Players are arguments. -/
theorem isArgument_of_playerText {member : String} {receiver : Typed}
    (hreceiver : IsArgument receiver.text) (hplayer : playerText member receiver = .ok player) :
    IsArgument player := by
  unfold playerText at hplayer
  split at hplayer
  · cases hplayer
    exact hreceiver
  · cases hplayer

namespace Bindings

variable {bindings : Bindings} {value : Typed}

/-- Names stand for arguments. -/
theorem isArgument_of_name {name : String}
    (hconstants : bindings.AllConstants fun _ value => IsArgument value.text)
    (hvalue : Storage.name bindings name = .ok value) : IsArgument value.text := by
  rw [Storage.name_eq] at hvalue
  split at hvalue
  · rename_i found hfound
    cases hvalue
    exact hconstants name _ hfound
  · split at hvalue
    · cases hvalue
      exact isArgument_readGlobal _
    · cases hvalue

/-- So do members of players. -/
theorem isArgument_of_playerMember {player name : String} (hplayer : IsArgument player)
    (hvalue : Storage.playerMember bindings player name = .ok value) : IsArgument value.text := by
  rw [Storage.playerMember_eq] at hvalue
  split at hvalue
  · cases hvalue
    exact isArgument_readPlayer hplayer _
  · cases hvalue

end Bindings

/-! ## Expressions -/

/-- Bindings whose types are known, and whose constants are arguments. -/
structure Bindings.IsSound (catalog : Catalog) (bindings : Bindings) : Prop where
  wellTyped : WellTyped catalog bindings
  constants : bindings.AllConstants fun _ value => IsArgument value.text

namespace Catalog

variable {catalog : Catalog} {bindings : Bindings} {node : Node}

/-- Values of known types are sound. -/
theorem IsClosed.isSound (hclosed : catalog.IsClosed) (hbindings : bindings.IsSound catalog)
    {value : Typed} (hvalue : catalog.valueOf bindings node = .ok value)
    (htext : IsArgument value.text) : value.IsSound :=
  ⟨hclosed.types _ (type_mem_of_valueOf hbindings.wellTyped hvalue), htext⟩

/-- The text of a value is an argument. -/
theorem isArgument_of_valueOf (hclosed : catalog.IsClosed) (hbindings : bindings.IsSound catalog)
    (hnode : node.IsWellFormed) {value : Typed}
    (hvalue : catalog.valueOf bindings node = .ok value) : IsArgument value.text := by
  induction node generalizing value with
  | block statements ih =>
      have hparts := Node.proper_block.1 hnode
      match statements with
      | [single] => exact ih single List.mem_cons_self (hparts single List.mem_cons_self) hvalue
      | [] => cases hvalue
      | _ :: _ :: _ => cases hvalue
  | call callee receiver arguments _ ihreceiver iharguments =>
      have hparts := Node.proper_call.1 hnode
      refine isArgument_of_applyCall hclosed ?_ ?_ hvalue
      · intro node hmem typed htyped
        exact ihreceiver node hmem (hparts.2.1 node hmem).2 htyped
      · intro node hmem typed htyped
        exact iharguments node hmem (hparts.2.2 node hmem) htyped
  | enumMember enumName member => exact isArgument_of_enumMember hclosed hvalue
  | negation operand ih =>
      have hparts := Node.proper_negation.1 hnode
      rcases Except.bind_eq_ok.1 hvalue with ⟨operandValue, hoperand, hnegate⟩
      exact isArgument_of_negate (hclosed.isSound hbindings hoperand (ih hparts hoperand)) hnegate
  | binary operator left right ihleft ihright =>
      have hparts := Node.proper_binary.1 hnode
      rcases Except.bind_eq_ok.1 hvalue with ⟨leftValue, hleft, hrest⟩
      rcases Except.bind_eq_ok.1 hrest with ⟨rightValue, hright, hresult⟩
      exact isArgument_of_applyOperator (hclosed.isSound hbindings hleft (ihleft hparts.1 hleft))
        (hclosed.isSound hbindings hright (ihright hparts.2 hright)) hresult
  | choice condition thenBranch elseBranch ihcondition ihthen ihelse =>
      have hparts := Node.proper_choice.1 hnode
      cases elseBranch with
      | none => cases hvalue
      | some elseBranch =>
          rcases valueOf_choice_eq_ok.1 hvalue with
            ⟨text, thenValue, elseValue, htext, hthen, helse, hchoose⟩
          rcases Except.bind_eq_ok.1 htext with ⟨conditionValue, hcondition, has⟩
          have hboolean : ValueType.boolean.IsClosed := by decide
          refine isArgument_of_choose ?_ ?_ ?_ hchoose
          · exact isArgument_of_as hboolean (ihcondition hparts.1 hcondition) has
          · exact hclosed.isSound hbindings hthen (ihthen hparts.2.1 hthen)
          · exact hclosed.isSound hbindings helse
              (ihelse elseBranch rfl (hparts.2.2 elseBranch rfl) helse)
  | identifier name receiver ih =>
      have hparts := Node.proper_identifier.1 hnode
      cases receiver with
      | none => exact Bindings.isArgument_of_name hbindings.constants hvalue
      | some receiver =>
          simp only [valueOf] at hvalue
          split at hvalue
          · exact isArgument_of_enumMember hclosed hvalue
          · rcases Except.bind_eq_ok.1 hvalue with ⟨receiverValue, hreceiver, hrest⟩
            rcases Except.bind_eq_ok.1 hrest with ⟨player, hplayer, hmember⟩
            have htext := ih receiver rfl (hparts.2 receiver rfl).2 hreceiver
            exact Bindings.isArgument_of_playerMember (isArgument_of_playerText htext hplayer)
              hmember
  | number digits =>
      have hparts := Node.proper_number.1 hnode
      cases hvalue
      exact isArgument_of_isNumeral hparts
  | text body =>
      have hparts := Node.proper_text.1 hnode
      cases hvalue
      exact isArgument_customString hparts
  | boolean truth =>
      cases hvalue
      cases truth <;> decide
  | player =>
      cases hvalue
      show IsArgument Term.eventPlayer
      decide
  | constant name body _ => cases hvalue
  | declare typeName name perPlayer initial _ => cases hvalue
  | useBank domain bank => cases hvalue
  | rule name event conditions actions _ _ => cases hvalue
  | assign target receiver body _ _ => cases hvalue

/-- So is that of a value which is used as a truth value. -/
theorem isArgument_of_condition (hclosed : catalog.IsClosed) (hbindings : bindings.IsSound catalog)
    (hnode : node.IsWellFormed) {text : String}
    (htext : catalog.condition bindings node = .ok text) : IsArgument text := by
  rcases Except.bind_eq_ok.1 htext with ⟨value, hvalue, has⟩
  have hboolean : ValueType.boolean.IsClosed := by decide
  exact isArgument_of_as hboolean (isArgument_of_valueOf hclosed hbindings hnode hvalue) has

end Catalog
end Workshop

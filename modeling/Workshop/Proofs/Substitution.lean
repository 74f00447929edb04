import Workshop.Proofs.NameMap

/-!
# Constants are put in place of their names

A constant has the value that its expression had where it was defined.  If the
expression refers to no variable, this is also its value everywhere later, so
that the definition can be left out and the expression written instead of the
name.

The two runs differ in one entry of the table of constants: the run of the
original program has it, the other one has not.  The relation between the
bindings of both runs also remembers the bindings before the definition, for
the constants that the expression refers to.

Main results:

- Theorem `Catalog.valueOf_of_isVariableFree`: the value of an expression
  without variables only depends on constants.
- Theorem `compileTree_substitute`: a program without the definition and with
  the expression in place of the name has the same text.
-/

namespace Workshop

namespace Node

/-! ## Expressions without variables -/

mutual

/-- The names of the constants that a top level statement defines. -/
def definedConstants : Node → List String
  | block statements => definedConstantsList statements
  | constant name _ => [name]
  | _ => []
termination_by structural node => node

/-- The names of the constants that several top level statements define. -/
def definedConstantsList : List Node → List String
  | [] => []
  | node :: rest => node.definedConstants ++ definedConstantsList rest
termination_by structural nodes => nodes

end

mutual

/-- Whether an expression refers to no variable: its plain names are among the given constants,
and its members are those of enumerations. -/
def isVariableFree (catalog : Catalog) (constants : List String) : Node → Bool
  | block statements => areVariableFree catalog constants statements
  | call _ receiver arguments =>
    isVariableFreeOption catalog constants receiver && areVariableFree catalog constants arguments
  | negation operand => operand.isVariableFree catalog constants
  | binary _ left right =>
    left.isVariableFree catalog constants && right.isVariableFree catalog constants
  | choice condition thenBranch elseBranch =>
    condition.isVariableFree catalog constants && thenBranch.isVariableFree catalog constants &&
      isVariableFreeOption catalog constants elseBranch
  | identifier name receiver =>
    match receiver with
    | none => constants.contains name
    | some receiver => (catalog.namedEnumeration? receiver).isSome
  | enumMember _ _ | number _ | text _ | boolean _ | player => true
  | constant _ _ | declare _ _ _ _ | useBank _ _ | rule _ _ _ _ | assign _ _ _ => false
termination_by structural node => node

/-- Whether several expressions refer to no variable. -/
def areVariableFree (catalog : Catalog) (constants : List String) : List Node → Bool
  | [] => true
  | node :: rest =>
    node.isVariableFree catalog constants && areVariableFree catalog constants rest
termination_by structural nodes => nodes

/-- Whether an expression that may be missing refers to no variable. -/
def isVariableFreeOption (catalog : Catalog) (constants : List String) : Option Node → Bool
  | none => true
  | some node => node.isVariableFree catalog constants
termination_by structural node => node

end

variable {catalog : Catalog} {constants : List String}

/-- Nodes are free of variables one by one. -/
theorem areVariableFree_iff {nodes : List Node} :
    areVariableFree catalog constants nodes = true ↔
      ∀ node ∈ nodes, node.isVariableFree catalog constants = true := by
  induction nodes with
  | nil => simp [areVariableFree]
  | cons node rest ih => simp [areVariableFree, ih]

end Node

/-- The value of an expression without variables is the same wherever the constants that it refers
to are. -/
theorem Catalog.valueOf_of_isVariableFree {catalog : Catalog} {constants : List String}
    {b b' : Bindings}
    (hnames : ∀ name ∈ constants, Transfers (Storage.name b name) (Storage.name b' name))
    {node : Node} (hfree : node.isVariableFree catalog constants = true) :
    Transfers (catalog.valueOf b node) (catalog.valueOf b' node) := by
  induction node with
  | block statements ih =>
      intro value hvalue
      match statements, hvalue with
      | [single], hvalue =>
          have hsingle : single.isVariableFree catalog constants = true := by
            simpa [Node.isVariableFree, Node.areVariableFree] using hfree
          exact ih single (by simp) hsingle hvalue
  | call callee receiver arguments _ ihreceiver iharguments =>
      simp only [Node.isVariableFree, Bool.and_eq_true, Node.areVariableFree_iff] at hfree
      simp only [valueOf, optionalValueOf_eq_map, valuesOf_eq_map]
      apply applyCall_map_transfers
      · rintro part rfl
        exact ihreceiver part rfl hfree.1
      · exact fun argument hmem => iharguments argument hmem (hfree.2 argument hmem)
  | negation operand ih => exact (ih hfree).bind fun _ _ => .refl _
  | binary operator left right ihleft ihright =>
      simp only [Node.isVariableFree, Bool.and_eq_true] at hfree
      exact (ihleft hfree.1).bind fun _ _ => (ihright hfree.2).bind fun _ _ => .refl _
  | choice condition thenBranch elseBranch ihcondition ihthen ihelse =>
      simp only [Node.isVariableFree, Bool.and_eq_true] at hfree
      obtain ⟨⟨hcondition, hthen⟩, helse⟩ := hfree
      cases elseBranch with
      | none => exact .refl _
      | some elseBranch =>
          refine (ihcondition hcondition).bind fun _ _ => (Transfers.refl _).bind fun _ _ => ?_
          exact (ihthen hthen).bind fun _ _ => (ihelse elseBranch rfl helse).bind fun _ _ => .refl _
  | identifier name receiver ih =>
      cases receiver with
      | none => exact hnames name (by simpa [Node.isVariableFree] using hfree)
      | some receiver =>
          obtain ⟨enumName, henum⟩ := Option.isSome_iff_exists.1 hfree
          simp only [valueOf, henum]
          exact .refl _
  | enumMember | number | text | boolean | player => exact .refl _
  | _ => cases hfree

/-! ## The constants of a run -/

namespace Catalog

/-- No step changes the value of a constant. -/
theorem keeps_constant (catalog : Catalog) (name : String) (typed : Typed) :
    catalog.Maintains fun b => b.constants.find? name = some typed where
  declare := by
    intro b c domain _ type slot hconstant _ hdeclare
    rw [(Bindings.declare_eq_ok hdeclare).1]
    exact hconstant
  define := by
    intro b other value hconstant hfree
    have hne : other ≠ name := by
      rintro rfl
      simp [isTaken_eq, Table.contains, hconstant] at hfree
    rw [Table.find?_insert, if_neg hne]
    exact hconstant
  retype := by
    intro b domain _ type hconstant
    cases domain <;> exact hconstant
  useBank := by
    intro b domain bank hconstant
    cases domain <;> exact hconstant
  enter := fun hconstant => hconstant
  leave := fun hconstant => hconstant

/-- No constant has a reserved name. -/
theorem keeps_unreserved (catalog : Catalog) :
    catalog.Maintains fun b => ∀ name, b.constants.contains name = true →
      catalog.isReserved name = false where
  declare := by
    intro b c domain _ type slot hunreserved _ hdeclare
    rw [(Bindings.declare_eq_ok hdeclare).1]
    exact hunreserved
  define := by
    intro b other value hunreserved hfree name hcontains
    rw [Table.contains, Table.find?_insert] at hcontains
    split at hcontains
    · rename_i heq
      subst heq
      simp only [isTaken_eq, Bool.or_eq_false_iff] at hfree
      exact hfree.1.1
    · exact hunreserved name hcontains
  retype := by
    intro b domain _ type hunreserved
    cases domain <;> exact hunreserved
  useBank := by
    intro b domain bank hunreserved
    cases domain <;> exact hunreserved
  enter := fun hunreserved => hunreserved
  leave := fun hunreserved => hunreserved

variable {catalog : Catalog}

/-- Statements run part by part. -/
theorem topLevelList_append {first second : List Node} {rules : List String}
    {state final : CompileState} :
    catalog.topLevelList (first ++ second) state = .ok rules final ↔
      ∃ rules₁ rules₂ middle, catalog.topLevelList first state = .ok rules₁ middle ∧
        catalog.topLevelList second middle = .ok rules₂ final ∧ rules = rules₁ ++ rules₂ := by
  induction first generalizing state final rules with
  | nil =>
      simp only [List.nil_append, topLevelList_nil, Compile.pure_eq_ok]
      constructor
      · intro h
        exact ⟨[], rules, state, ⟨rfl, rfl⟩, h, rfl⟩
      · rintro ⟨_, _, _, ⟨rfl, rfl⟩, h, rfl⟩
        exact h
  | cons node rest ih =>
      simp only [List.cons_append, topLevelList_cons, Compile.bind_eq_ok, Compile.pure_eq_ok, ih]
      constructor
      · rintro ⟨head, _, hhead, _, _, ⟨rules₁, rules₂, middle, hrest, hsecond, rfl⟩, rfl, rfl⟩
        exact ⟨head ++ rules₁, rules₂, middle, ⟨head, _, hhead, rules₁, middle, hrest, rfl, rfl⟩,
          hsecond, by simp⟩
      · rintro ⟨_, rules₂, middle, ⟨head, _, hhead, rules₁, _, hrest, rfl, rfl⟩, hsecond, rfl⟩
        exact ⟨head, _, hhead, _, _, ⟨rules₁, rules₂, _, hrest, hsecond, rfl⟩, by simp, rfl⟩

/-- Constants are known at the end. -/
theorem contains_of_definedConstantsList {nodes : List Node}
    (ih : ∀ node ∈ nodes, ∀ {state final : CompileState} {rules : List String},
      catalog.topLevel node state = .ok rules final →
      ∀ name ∈ node.definedConstants, final.bindings.constants.contains name = true)
    {state final : CompileState} {rules : List String}
    (h : catalog.topLevelList nodes state = .ok rules final) :
    ∀ name ∈ Node.definedConstantsList nodes, final.bindings.constants.contains name = true := by
  induction nodes generalizing state rules with
  | nil =>
      intro name hmem
      cases hmem
  | cons node rest ihrest =>
      intro name hmem
      simp only [topLevelList_cons, Compile.bind_eq_ok, Compile.pure_eq_ok] at h
      obtain ⟨_, middle, hnode, _, _, hrest, _, rfl⟩ := h
      rcases List.mem_append.1 hmem with hmem | hmem
      · -- What the first statement defines is still there after the others.
        have hcontains := ih node (by simp) hnode name hmem
        obtain ⟨typed, hfound⟩ := Option.isSome_iff_exists.1 hcontains
        have hkept := (catalog.keeps_constant name typed).topLevelList hfound hrest
        rw [Table.contains, hkept]
        rfl
      · exact ihrest (fun other hother => ih other (by simp [hother])) hrest name hmem

/-- The constants that statements define exist from then on. -/
theorem contains_of_definedConstants (node : Node) {state final : CompileState}
    {rules : List String} (h : catalog.topLevel node state = .ok rules final) :
    ∀ name ∈ node.definedConstants, final.bindings.constants.contains name = true := by
  induction node generalizing state final rules with
  | block statements ih =>
      exact contains_of_definedConstantsList (fun node hmem _ _ _ h => ih node hmem h) h
  | constant name value _ =>
      intro other hmem
      obtain rfl : other = name := by simpa [Node.definedConstants] using hmem
      simp only [topLevel, topLevelOf, Compile.bind_eq_ok, define_eq_ok, Compile.pure_eq_ok] at h
      obtain ⟨_, _, ⟨_, typed, _, rfl⟩, _, rfl⟩ := h
      simp [Table.contains, Table.find?_insert]
  | _ =>
      intro name hmem
      cases hmem

end Catalog

/-! ## The expression in place of the name -/

/-- The map that puts an expression in place of a plain name. -/
def NameMap.substitution (name : String) (value : Node) : NameMap where
  plain other := if other = name then value else .identifier other none
  declared other := other
  member _ other := other

/-- The tree with an expression in place of a plain name.  The names of members, of targets of
assignments and of what is called are left alone. -/
def Node.substitute (name : String) (value node : Node) : Node :=
  node.mapNames (.substitution name value)

/-- The bindings of a run with a constant and of one without it.  All constants that were there
before are there in both. -/
structure LacksConstant (before : Bindings) (name : String) (typed : Typed) (b b' : Bindings) :
    Prop where
  globals : b'.globals = b.globals
  players : b'.players = b.players
  present : b.constants.find? name = some typed
  absent : b'.constants.find? name = none
  others : ∀ other, other ≠ name → b'.constants.find? other = b.constants.find? other
  kept : ∀ other value, before.constants.find? other = some value →
    b'.constants.find? other = some value

namespace LacksConstant

variable {before b b' : Bindings} {name : String} {typed : Typed}

variable (h : LacksConstant before name typed b b')

include h

/-- Both know the same variables. -/
theorem find?_eq (domain : Domain) (other : String) :
    b'.find? domain other = b.find? domain other := by
  cases domain with
  | global => simp only [Bindings.find?, h.globals]
  | player => simp only [Bindings.find?, h.players]

/-- Other names mean the same. -/
theorem name_eq {other : String} (hother : other ≠ name) :
    Storage.name b' other = Storage.name b other := by
  simp only [Storage.name_eq, h.others other hother, h.globals]

/-- The name is taken in the run that has the constant. -/
theorem ne_of_contains_eq_false {other : String} (hother : b.constants.contains other = false) :
    other ≠ name := by
  rintro rfl
  simp [Table.contains, h.present] at hother

/-- No constant is added. -/
theorem contains_eq_false {other : String} (hother : b.constants.contains other = false) :
    b'.constants.contains other = false := by
  have hne := h.ne_of_contains_eq_false hother
  rw [Table.contains, h.others other hne]
  exact hother

/-- Free names are free. -/
theorem isTaken_eq_false {catalog : Catalog} {domain : Domain} {other : String}
    (hfree : catalog.isTaken b domain other = false) :
    b.constants.contains other = false ∧ catalog.isTaken b' domain other = false := by
  simp only [Catalog.isTaken_eq, Bool.or_eq_false_iff] at hfree ⊢
  obtain ⟨⟨hreserved, hconstant⟩, hvariable⟩ := hfree
  refine ⟨hconstant, ⟨hreserved, h.contains_eq_false hconstant⟩, ?_⟩
  rw [h.find?_eq domain other]
  exact hvariable

/-- A declaration does the same in both runs. -/
theorem declare {c : Bindings} {domain : Domain} {other : String} {type : ValueType} {slot : Slot}
    (hdeclare : b.declare domain other type = .ok (slot, c)) :
    ∃ c', b'.declare domain other type = .ok (slot, c') ∧ LacksConstant before name typed c c' := by
  cases domain with
  | global =>
      obtain ⟨⟨_, globals⟩, hglobals, hfinal⟩ := Except.bind_eq_ok.1 hdeclare
      cases hfinal
      refine ⟨{ b' with globals := globals }, ?_, ?_⟩
      · rw [← h.globals] at hglobals
        exact Except.bind_eq_ok.2 ⟨_, hglobals, rfl⟩
      · exact { h with globals := rfl }
  | player =>
      obtain ⟨⟨_, players⟩, hplayers, hfinal⟩ := Except.bind_eq_ok.1 hdeclare
      cases hfinal
      refine ⟨{ b' with players := players }, ?_, ?_⟩
      · rw [← h.players] at hplayers
        exact Except.bind_eq_ok.2 ⟨_, hplayers, rfl⟩
      · exact { h with players := rfl }

/-- Both define another constant. -/
theorem define {other : String} (value : Typed) (hother : b.constants.contains other = false) :
    LacksConstant before name typed { b with constants := b.constants.insert other value }
      { b' with constants := b'.constants.insert other value } := by
  have hne := h.ne_of_contains_eq_false hother
  refine ⟨h.globals, h.players, ?_, ?_, ?_, ?_⟩
  · rw [Table.find?_insert, if_neg hne]
    exact h.present
  · rw [Table.find?_insert, if_neg hne]
    exact h.absent
  · intro third hthird
    simp only [Table.find?_insert, h.others third hthird]
  · intro third old hold
    have hkept := h.kept third old hold
    have hthird : other ≠ third := by
      rintro rfl
      have hcontains := h.contains_eq_false hother
      simp [Table.contains, hkept] at hcontains
    rw [Table.find?_insert, if_neg hthird]
    exact hkept

/-- Both give a new type. -/
theorem retype (domain : Domain) (other : String) (type : ValueType) :
    LacksConstant before name typed (b.retype domain other type) (b'.retype domain other type) := by
  cases domain with
  | global => exact { h with globals := by simp only [Bindings.retype, h.globals] }
  | player => exact { h with players := by simp only [Bindings.retype, h.players] }

/-- Both choose a bank. -/
theorem useBank (domain : Domain) (bank : Bank) :
    LacksConstant before name typed (b.useBank domain bank) (b'.useBank domain bank) := by
  cases domain with
  | global => exact { h with globals := by simp only [Bindings.useBank, h.globals] }
  | player => exact { h with players := by simp only [Bindings.useBank, h.players] }

end LacksConstant

/-- The value of a constant of the bindings. -/
theorem Bindings.name_of_constant {b : Bindings} {name : String} {typed : Typed}
    (hfound : b.constants.find? name = some typed) : Storage.name b name = .ok typed := by
  simp [Storage.name_eq, hfound]

/-- Writing the expression instead of the name simulates the run with the constant. -/
theorem Catalog.substitution_simulates {catalog : Catalog} {before : Bindings} {name : String}
    {value : Node} {typed : Typed} {constants : List String}
    (hname : catalog.isReserved name = false)
    (hvalue : catalog.valueOf before value = .ok typed)
    (hfree : value.isVariableFree catalog constants = true)
    (hconstants : ∀ other ∈ constants, before.constants.contains other = true ∧
      catalog.isReserved other = false) :
    (NameMap.substitution name value).Simulates catalog (LacksConstant before name typed) where
  name := by
    intro b b' h other
    by_cases hother : other = name
    · subst hother
      intro found hfound
      rw [Bindings.name_of_constant h.present] at hfound
      cases hfound
      simp only [NameMap.substitution, if_pos]
      refine valueOf_of_isVariableFree ?_ hfree hvalue
      intro constant hmem
      obtain ⟨old, hold⟩ := Option.isSome_iff_exists.1 (hconstants constant hmem).1
      rw [Bindings.name_of_constant hold, Bindings.name_of_constant (h.kept constant old hold)]
      exact .refl _
    · simp only [NameMap.substitution, if_neg hother, valueOf, h.name_eq hother]
      exact .refl _
  enumeration := by
    intro other henum
    have hother : other ≠ name := by
      rintro rfl
      simp [isReserved, henum] at hname
    simp only [NameMap.substitution, if_neg hother]
  receiver := by
    intro b b' other _ h henum _
    simp only [NameMap.substitution]
    split
    · -- The expression is no plain name of an enumeration, because such a name is reserved.
      unfold namedEnumeration?
      split
      · rename_i constant
        have hmem : constant ∈ constants := by simpa [Node.isVariableFree] using hfree
        have hreserved := (hconstants constant hmem).2
        simp only [isReserved, Bool.or_eq_false_iff] at hreserved
        rw [if_neg (by simp [hreserved.2])]
      · rfl
    · simp [namedEnumeration?, henum]
  enumMember := by
    intro receiver other _
    rfl
  playerMember := by
    intro receiver other _
    rfl
  constant := by
    intro b b' other found h hother _
    exact h.contains_eq_false hother
  find := by
    intro b b' domain other found h hfound
    exact (h.find?_eq domain other).trans hfound
  free := by
    intro b b' domain other h hother
    exact (h.isTaken_eq_false hother).2
  declare := by
    intro b b' c domain other type slot h _ hdeclare
    exact h.declare hdeclare
  define := by
    intro b b' other found h hother
    exact h.define found (h.isTaken_eq_false hother).1
  retype := by
    intro b b' domain other type h
    exact h.retype domain other type
  useBank := by
    intro b b' domain bank h
    exact h.useBank domain bank
  enter := by
    intro b b' h
    exact { h with globals := by simp only [h.globals] }
  leave := by
    intro b b' h
    exact { h with globals := by simp only [h.globals] }

/-! ## Programs without the definition -/

/-- A definition whose expression refers to no variable can be left out of a program. -/
theorem Catalog.topLevelList_substitute {catalog : Catalog} {pre post : List Node} {name : String}
    {value : Node} {rules : List String} {final : CompileState}
    (hfree : value.isVariableFree catalog (Node.definedConstantsList pre) = true)
    (h : catalog.topLevelList (pre ++ .constant name value :: post)
      ⟨Session.initial.bindings, #[]⟩ = .ok rules final) :
    ∃ final', catalog.topLevelList (pre ++ post.map (Node.substitute name value))
      ⟨Session.initial.bindings, #[]⟩ = .ok rules final' := by
  obtain ⟨rules₁, _, middle, hpre, hpost, rfl⟩ := topLevelList_append.1 h
  have hdefined := contains_of_definedConstants (.block pre) hpre
  have hunreserved := catalog.keeps_unreserved.topLevelList (by intro name hname; cases hname) hpre
  -- The definition leaves all else as it is, so that the runs differ in this constant only.
  simp only [topLevelList_cons, topLevel, topLevelOf, Compile.bind_eq_ok, define_eq_ok,
    Compile.pure_eq_ok] at hpost
  obtain ⟨_, _, ⟨_, _, ⟨hname, typed, htyped, rfl⟩, rfl, rfl⟩, rules₂, _, hpost, rfl, rfl⟩ := hpost
  simp only [isTaken_eq, Bool.or_eq_false_iff] at hname
  have hrelated : LacksConstant middle.bindings name typed
      { middle.bindings with constants := middle.bindings.constants.insert name typed }
      middle.bindings := by
    refine ⟨rfl, rfl, ?_, ?_, ?_, fun _ _ hold => hold⟩
    · rw [Table.find?_insert, if_pos rfl]
    · simpa [Table.contains] using hname.1.2
    · intro other hother
      rw [Table.find?_insert, if_neg hother.symm]
  have hsimulates := substitution_simulates hname.1.1 htyped hfree fun other hmem =>
    ⟨hdefined other hmem, hunreserved other (hdefined other hmem)⟩
  have hsimulated := NameMap.Simulates.topLevelList post fun node _ => hsimulates.topLevel node
  obtain ⟨final', hpost', _⟩ := @hsimulated _ middle _ _ hrelated hpost
  exact ⟨final', topLevelList_append.2 ⟨rules₁, rules₂, middle, hpre, hpost', by simp⟩⟩

/-- Constants are pure substitution: if a program with the definition of a constant is accepted,
and the expression of the constant refers to no variable, then the program without the definition
and with the expression in place of the name is accepted, with the same text. -/
theorem compileTree_substitute {pre post : List Node} {name : String} {value : Node}
    {options : CompileOptions} {text : String}
    (hfree : value.isVariableFree .standard (Node.definedConstantsList pre) = true)
    (haccepted : compileTree (.block (pre ++ .constant name value :: post)) options = .ok text) :
    compileTree (.block (pre ++ post.map (Node.substitute name value))) options = .ok text := by
  unfold compileTree at haccepted ⊢
  split at haccepted
  · rename_i output houtcome
    obtain ⟨final, hprogram, _⟩ := Session.compile_eq_ok.1 houtcome
    obtain ⟨rules, hrules, rfl⟩ := Catalog.program_eq_ok.1 hprogram
    obtain ⟨final', hrules'⟩ := Catalog.topLevelList_substitute hfree hrules
    have hblock : Catalog.standard.topLevel
        (.block (pre ++ post.map (Node.substitute name value)))
        ⟨Session.initial.bindings, #[]⟩ = .ok rules final' := hrules'
    have hprogram' := Catalog.program_eq_ok.2 ⟨rules, hblock, rfl⟩
    simp only [Session.compile, hprogram']
    exact haccepted
  · cases haccepted

/-- Statements that use a constant as the receiver of a call, in another constant and in a
condition. -/
def leaderStatements : List Node :=
  [.declare "number" "height" false none,
    .constant "target" (.identifier "leader" none),
    .rule "follow" "player"
      (some [.binary .eq (.identifier "leader" none) (.identifier "target" none)])
      [.assign "height" none (.call (.identifier "getAltitude" none)
        (some (.identifier "leader" none)) [])]]

/-- A constant that is another name of an earlier constant is replaced by that name. -/
theorem compileTree_substitute_leader :
    (Node.identifier "self" none).isVariableFree .standard
      (Node.definedConstantsList [.constant "self" .player]) = true ∧
    ∃ text,
      compileTree (.block ([.constant "self" .player] ++
        .constant "leader" (.identifier "self" none) :: leaderStatements)) ⟨false⟩ = .ok text ∧
      compileTree (.block ([.constant "self" .player] ++ leaderStatements.map
        (Node.substitute "leader" (.identifier "self" none)))) ⟨false⟩ = .ok text := by
  have hfree : (Node.identifier "self" none).isVariableFree .standard
      (Node.definedConstantsList [.constant "self" .player]) = true := by decide +kernel
  refine ⟨hfree, ?_⟩
  cases hresult : compileTree (.block ([.constant "self" .player] ++
      .constant "leader" (.identifier "self" none) :: leaderStatements)) ⟨false⟩ with
  | ok text => exact ⟨text, rfl, compileTree_substitute hfree hresult⟩
  | error diagnostic =>
      have haccepted : (compileTree (.block ([.constant "self" .player] ++
          .constant "leader" (.identifier "self" none) :: leaderStatements))
          ⟨false⟩).toOption.isSome = true := by decide +kernel
      rw [hresult] at haccepted
      cases haccepted

end Workshop

import Workshop.Proofs.Success
import Workshop.Proofs.Tree

/-!
# Rewriting the names of a script

A name map says what becomes of the names in a script: of plain names that are
used as expressions, of the names of variables and constants where they are
declared or assigned, and of the members of receivers.  Renaming variables and
putting expressions in place of names are two such maps.

A map simulates a script if the bindings before and after rewriting can be
kept in a relation through every statement.  Then the rewritten script is
accepted whenever the script is, with the same text.

Main results:

- Theorem `NameMap.Simulates.valueOf`: rewritten expressions keep their values.
- Theorem `NameMap.Simulates.action`: rewritten actions keep their lines.
- Theorem `NameMap.Simulates.topLevel`: rewritten programs keep their rules.
- Theorem `Catalog.Maintains.topLevelList`: what single steps keep, programs keep.
-/

namespace Workshop

/-- What becomes of the names in a script. -/
structure NameMap where
  /-- What stands in place of a plain name that is used as an expression. -/
  plain : String → Node
  /-- The name of a variable or constant where it is declared or assigned. -/
  declared : String → String
  /-- The name of a member of the given receiver. -/
  member : Node → String → String

namespace Node

mutual

/-- The tree with its names rewritten.  The names of types, events, enumerations in front of
keywords and everything that is called stay as they are. -/
def mapNames (map : NameMap) : Node → Node
  | block statements => block (mapNamesList map statements)
  | constant name value => constant (map.declared name) (value.mapNames map)
  | declare typeName name perPlayer initial =>
    declare typeName (map.declared name) perPlayer (mapNamesOption map initial)
  | useBank domain bank => useBank domain bank
  | rule name event conditions actions =>
    rule name event
      (match conditions with
        | none => none
        | some conditions => some (mapNamesList map conditions))
      (mapNamesList map actions)
  | assign target receiver value =>
    assign (map.declared target) (mapNamesOption map receiver) (value.mapNames map)
  | call callee receiver arguments =>
    call callee (mapNamesOption map receiver) (mapNamesList map arguments)
  | enumMember enumName member => enumMember enumName member
  | negation operand => negation (operand.mapNames map)
  | binary operator left right => binary operator (left.mapNames map) (right.mapNames map)
  | choice condition thenBranch elseBranch =>
    choice (condition.mapNames map) (thenBranch.mapNames map) (mapNamesOption map elseBranch)
  | number digits => number digits
  | text body => text body
  | boolean value => boolean value
  | player => player
  | identifier name receiver =>
    match receiver with
    | none => map.plain name
    | some receiver => identifier (map.member receiver name) (some (receiver.mapNames map))
termination_by structural node => node

/-- Several trees with their names rewritten. -/
def mapNamesList (map : NameMap) : List Node → List Node
  | [] => []
  | node :: rest => node.mapNames map :: mapNamesList map rest
termination_by structural nodes => nodes

/-- A tree that may be missing with its names rewritten. -/
def mapNamesOption (map : NameMap) : Option Node → Option Node
  | none => none
  | some node => some (node.mapNames map)
termination_by structural node => node

end

/-- Names change in each node. -/
theorem mapNamesList_eq_map (map : NameMap) (nodes : List Node) :
    mapNamesList map nodes = nodes.map (mapNames map) := by
  induction nodes with
  | nil => rfl
  | cons node rest ih => simp [mapNamesList, ih]

/-- The same where a node may be missing. -/
theorem mapNamesOption_eq_map (map : NameMap) (node : Option Node) :
    mapNamesOption map node = node.map (mapNames map) := by
  cases node <;> rfl

/-- The names of a rule. -/
theorem mapNames_rule (map : NameMap) (name event : String) (conditions : Option (List Node))
    (actions : List Node) :
    (rule name event conditions actions).mapNames map =
      rule name event (conditions.map (·.map (mapNames map))) (actions.map (mapNames map)) := by
  cases conditions <;> simp [mapNames, mapNamesList_eq_map]

end Node

/-! ## Simulation -/

/-- The bindings before and after rewriting the names stay related through every step of
compiling. -/
structure NameMap.Simulates (catalog : Catalog) (map : NameMap)
    (R : Bindings → Bindings → Prop) : Prop where
  name : ∀ {b b' : Bindings}, R b b' → ∀ name,
    Transfers (Storage.name b name) (catalog.valueOf b' (map.plain name))
  enumeration : ∀ {name : String}, (catalog.enumeration? name).isSome = true →
    map.plain name = .identifier name none
  receiver : ∀ {b b' : Bindings} {name : String} {value : Typed}, R b b' →
    catalog.enumeration? name = none → Storage.name b name = .ok value →
    catalog.namedEnumeration? (map.plain name) = none
  enumMember : ∀ {receiver : Node} (name : String),
    (catalog.namedEnumeration? receiver).isSome = true → map.member receiver name = name
  playerMember : ∀ {receiver : Node} (name : String),
    catalog.namedEnumeration? receiver = none → map.member receiver name = map.declared name
  constant : ∀ {b b' : Bindings} {name : String} {found : Variable}, R b b' →
    b.constants.contains name = false → b.find? .global name = some found →
    b'.constants.contains (map.declared name) = false
  find : ∀ {b b' : Bindings} {domain : Domain} {name : String} {found : Variable}, R b b' →
    b.find? domain name = some found → b'.find? domain (map.declared name) = some found
  free : ∀ {b b' : Bindings} {domain : Domain} {name : String}, R b b' →
    catalog.isTaken b domain name = false → catalog.isTaken b' domain (map.declared name) = false
  declare : ∀ {b b' c : Bindings} {domain : Domain} {name : String} {type : ValueType}
    {slot : Slot}, R b b' → catalog.isTaken b domain name = false →
    b.declare domain name type = .ok (slot, c) →
    ∃ c', b'.declare domain (map.declared name) type = .ok (slot, c') ∧ R c c'
  define : ∀ {b b' : Bindings} {name : String} (value : Typed), R b b' →
    catalog.isTaken b .global name = false →
    R { b with constants := b.constants.insert name value }
      { b' with constants := b'.constants.insert (map.declared name) value }
  retype : ∀ {b b' : Bindings} (domain : Domain) (name : String) (type : ValueType), R b b' →
    R (b.retype domain name type) (b'.retype domain (map.declared name) type)
  useBank : ∀ {b b' : Bindings} (domain : Domain) (bank : Bank), R b b' →
    R (b.useBank domain bank) (b'.useBank domain bank)
  enter : ∀ {b b' : Bindings}, R b b' →
    R { b with globals := b.globals.enter } { b' with globals := b'.globals.enter }
  leave : ∀ {b b' : Bindings}, R b b' →
    R { b with globals := b.globals.leave } { b' with globals := b'.globals.leave }

/-- Whenever the first of two computations succeeds from related bindings, the second succeeds
with the same result, and the bindings are related again. -/
def Simulated {α : Type} (R : Bindings → Bindings → Prop) (x y : Compile α) : Prop :=
  ∀ ⦃state state' a final⦄, R state.bindings state'.bindings → x state = .ok a final →
    ∃ final', y state' = .ok a final' ∧ R final.bindings final'.bindings

namespace Simulated

variable {α β : Type} {R : Bindings → Bindings → Prop}

/-- Results are simulated. -/
theorem pure (a : α) : Simulated R (pure a) (pure a) := by
  intro state state' b final hR h
  obtain ⟨rfl, rfl⟩ := Compile.pure_eq_ok.1 h
  exact ⟨state', rfl, hR⟩

/-- So is one step after the other. -/
theorem bind {x y : Compile α} {f g : α → Compile β} (hxy : Simulated R x y)
    (hfg : ∀ a, Simulated R (f a) (g a)) : Simulated R (x >>= f) (y >>= g) := by
  intro state state' b final hR h
  obtain ⟨a, middle, hx, hf⟩ := Compile.bind_eq_ok.1 h
  obtain ⟨middle', hy, hR⟩ := hxy hR hx
  obtain ⟨final', hg, hR⟩ := hfg a hR hf
  exact ⟨final', Compile.bind_eq_ok.2 ⟨a, middle', hy, hg⟩, hR⟩

/-- So are questions. -/
theorem query {f g : Bindings → Except SemanticError α}
    (hfg : ∀ {b b'}, R b b' → Transfers (f b) (g b')) :
    Simulated R (Compile.query f) (Compile.query g) := by
  intro state state' a final hR h
  obtain ⟨hf, rfl⟩ := Compile.query_eq_ok.1 h
  exact ⟨state', Compile.query_eq_ok.2 ⟨hfg hR hf, rfl⟩, hR⟩

end Simulated

namespace NameMap.Simulates

open Catalog

variable {catalog : Catalog} {map : NameMap} {R : Bindings → Bindings → Prop} {b b' : Bindings}
  {receiver : Node}

/-! ### Expressions -/

variable (hsim : map.Simulates catalog R)

include hsim

/-- A receiver that is no plain name of an enumeration does not become one. -/
theorem namedEnumeration?_mapNames (hR : R b b') {value : Typed}
    (hreceiver : catalog.namedEnumeration? receiver = none)
    (hvalue : catalog.valueOf b receiver = .ok value) :
    catalog.namedEnumeration? (receiver.mapNames map) = none := by
  cases receiver with
  | identifier name inner =>
      cases inner with
      | none =>
          have henum : catalog.enumeration? name = none := by
            simpa [namedEnumeration?] using hreceiver
          exact hsim.receiver hR henum hvalue
      | some inner => rfl
  | _ => rfl

/-- A plain name of an enumeration stays as it is. -/
theorem mapNames_of_namedEnumeration? {enumName : String}
    (hreceiver : catalog.namedEnumeration? receiver = some enumName) :
    receiver.mapNames map = receiver := by
  unfold namedEnumeration? at hreceiver
  split at hreceiver
  · split at hreceiver
    · rename_i henum
      exact hsim.enumeration henum
    · cases hreceiver
  · cases hreceiver

/-- Members have the same value. -/
theorem valueOf_member (hR : R b b') (name : String)
    (ih : Transfers (catalog.valueOf b receiver) (catalog.valueOf b' (receiver.mapNames map))) :
    Transfers (catalog.valueOf b (.identifier name (some receiver)))
      (catalog.valueOf b' (.identifier (map.member receiver name)
        (some (receiver.mapNames map)))) := by
  intro value hvalue
  cases henum : catalog.namedEnumeration? receiver with
  | some enumName =>
      rw [hsim.mapNames_of_namedEnumeration? henum, hsim.enumMember name (by simp [henum])]
      simp only [valueOf, henum] at hvalue ⊢
      exact hvalue
  | none =>
      simp only [valueOf, henum, Except.bind_eq_ok] at hvalue
      obtain ⟨actor, hactor, player, hplayer, hmember⟩ := hvalue
      have henum' := hsim.namedEnumeration?_mapNames hR henum hactor
      simp only [valueOf, henum', Except.bind_eq_ok, hsim.playerMember name henum]
      refine ⟨actor, ih hactor, player, playerText_transfers _ _ _ hplayer, ?_⟩
      rw [Storage.playerMember_eq] at hmember ⊢
      cases hfound : b.players.find? name with
      | none =>
          rw [hfound] at hmember
          cases hmember
      | some found =>
          have hplayers : b.find? .player name = some found := hfound
          have hfound' : b'.players.find? (map.declared name) = some found :=
            hsim.find hR hplayers
          rw [hfound] at hmember
          rw [hfound']
          exact hmember

omit hsim in
/-- A call does the same where its receiver and its arguments keep their values. -/
theorem applyCall_mapNames (callee : Node) (mode : CallMode) {receiver : Option Node}
    {arguments : List Node} (hreceiver : ∀ node ∈ receiver,
      Transfers (catalog.valueOf b node) (catalog.valueOf b' (node.mapNames map)))
    (harguments : ∀ node ∈ arguments,
      Transfers (catalog.valueOf b node) (catalog.valueOf b' (node.mapNames map))) :
    Transfers
      (catalog.applyCall mode callee (catalog.optionalValueOf b receiver)
        (catalog.valuesOf b arguments))
      (catalog.applyCall mode callee
        (catalog.optionalValueOf b' (Node.mapNamesOption map receiver))
        (catalog.valuesOf b' (Node.mapNamesList map arguments))) := by
  simp only [Node.mapNamesOption_eq_map, Node.mapNamesList_eq_map, optionalValueOf_eq_map,
    valuesOf_eq_map, Option.map_map, List.map_map]
  exact applyCall_map_transfers mode callee hreceiver harguments

/-- Rewriting the names of an expression keeps its value. -/
theorem valueOf (hR : R b b') (node : Node) :
    Transfers (catalog.valueOf b node) (catalog.valueOf b' (node.mapNames map)) := by
  induction node with
  | block statements ih =>
      intro value hvalue
      match statements, hvalue with
      | [single], hvalue => exact ih single (by simp) hvalue
  | call callee receiver arguments _ ihreceiver iharguments =>
      exact applyCall_mapNames callee .value ihreceiver iharguments
  | negation operand ih => exact ih.bind fun _ _ => .refl _
  | binary operator left right ihleft ihright =>
      exact ihleft.bind fun _ _ => ihright.bind fun _ _ => .refl _
  | choice condition thenBranch elseBranch ihcondition ihthen ihelse =>
      cases elseBranch with
      | none => exact .refl _
      | some elseBranch =>
          refine ihcondition.bind fun _ _ => (Transfers.refl _).bind fun _ _ => ?_
          exact ihthen.bind fun _ _ => (ihelse elseBranch rfl).bind fun _ _ => .refl _
  | identifier name receiver ih =>
      cases receiver with
      | none => exact hsim.name hR name
      | some receiver => exact hsim.valueOf_member hR name (ih receiver rfl)
  | enumMember | number | text | boolean | player => exact .refl _
  | _ =>
      intro value hvalue
      cases hvalue

/-- Rewriting the names of a rule condition keeps its text. -/
theorem ruleCondition (hR : R b b') (node : Node) :
    Transfers (catalog.ruleCondition b node) (catalog.ruleCondition b' (node.mapNames map)) := by
  cases node with
  | binary operator left right =>
      simp only [Node.mapNames, Catalog.ruleCondition]
      split
      · refine (hsim.valueOf hR left).bind fun _ _ => ?_
        exact (hsim.valueOf hR right).bind fun _ _ => .refl _
      · intro text h
        cases h
  | _ =>
      intro text h
      cases h

/-- Conditions have the same texts. -/
theorem ruleConditions (hR : R b b') (conditions : Option (List Node)) :
    Transfers (catalog.ruleConditions b conditions)
      (catalog.ruleConditions b' (conditions.map (·.map (Node.mapNames map)))) := by
  cases conditions with
  | none => exact .refl _
  | some conditions =>
      refine Transfers.bind ?_ fun _ _ => .refl _
      induction conditions with
      | nil => exact .refl _
      | cons condition rest ih =>
          simp only [List.map_cons, List.mapM_cons]
          refine (hsim.ruleCondition hR condition).bind fun _ _ => ?_
          exact ih.bind fun _ _ => .refl _

/-! ### Statements -/

/-- Both sides settle a type. -/
theorem settled (state state' : CompileState) (hR : R state.bindings state'.bindings)
    (domain : Domain) (name : String) (inferred : Option ValueType) :
    R (state.settled domain name inferred).bindings
      (state'.settled domain (map.declared name) inferred).bindings := by
  cases inferred with
  | none => exact hR
  | some type => exact hsim.retype domain name type hR

/-- Assignments are simulated. -/
theorem assign (target : String) (receiver : Option Node) (value : Node) :
    Simulated R (catalog.assign target receiver value)
      (catalog.assign (map.declared target) (receiver.map (Node.mapNames map))
        (value.mapNames map)) := by
  intro state state' text final hR h
  cases receiver with
  | none =>
      obtain ⟨hconstant, typed, found, stored, inferred, htyped, hfound, hstored, rfl, rfl⟩ :=
        assign_none_eq_ok.1 h
      refine ⟨_, assign_none_eq_ok.2 ⟨hsim.constant hR hconstant hfound, typed, found, stored,
        inferred, hsim.valueOf hR value htyped, hsim.find hR hfound,
        storedText_transfers _ _ _ _ hstored, rfl, rfl⟩, ?_⟩
      exact hsim.settled _ _ hR .global target inferred
  | some receiver =>
      obtain ⟨typed, actor, player, found, stored, inferred, htyped, hactor, hplayer, hfound,
        hstored, rfl, rfl⟩ := assign_some_eq_ok.1 h
      refine ⟨_, assign_some_eq_ok.2 ⟨typed, actor, player, found, stored, inferred,
        hsim.valueOf hR value htyped, hsim.valueOf hR receiver hactor,
        playerText_transfers _ _ _ hplayer, hsim.find hR hfound,
        storedText_transfers _ _ _ _ hstored, rfl, rfl⟩, ?_⟩
      exact hsim.settled _ _ hR .player target inferred

/-- So are declarations. -/
theorem declareVariable (typeName name : String) (domain : Domain) (initial : Option Node) :
    Simulated R (catalog.declare typeName name domain initial)
      (catalog.declare typeName (map.declared name) domain
        (initial.map (Node.mapNames map))) := by
  intro state state' written final hR h
  cases initial with
  | none =>
      obtain ⟨hfree, type, slot, bindings, htype, hdeclare, rfl, rfl⟩ := declare_none_eq_ok.1 h
      obtain ⟨bindings', hdeclare', hR'⟩ := hsim.declare hR hfree hdeclare
      exact ⟨_, declare_none_eq_ok.2 ⟨hsim.free hR hfree, type, slot, bindings',
        declaredType_transfers _ _ _ _ htype, hdeclare', rfl, rfl⟩, hR'⟩
  | some initial =>
      obtain ⟨hfree, type, typed, slot, bindings, stored, inferred, htype, htyped, hdeclare,
        hstored, rfl, rfl⟩ := declare_some_eq_ok.1 h
      obtain ⟨bindings', hdeclare', hR'⟩ := hsim.declare hR hfree hdeclare
      refine ⟨_, declare_some_eq_ok.2 ⟨hsim.free hR hfree, type, typed, slot, bindings', stored,
        inferred, declaredType_transfers _ _ _ _ htype, hsim.valueOf hR initial htyped, hdeclare',
        storedText_transfers _ _ _ _ hstored, rfl, rfl⟩, ?_⟩
      exact hsim.settled ⟨bindings, state.journal⟩ ⟨bindings', state'.journal⟩ hR' domain name
        inferred

/-- So are constants. -/
theorem defineConstant (name : String) (value : Node) :
    Simulated R (catalog.define name value)
      (catalog.define (map.declared name) (value.mapNames map)) := by
  intro state state' u final hR h
  obtain ⟨hfree, typed, htyped, rfl⟩ := define_eq_ok.1 h
  exact ⟨_, define_eq_ok.2 ⟨hsim.free hR hfree, typed, hsim.valueOf hR value htyped, rfl⟩,
    hsim.define typed hR hfree⟩

/-- So are choices of a bank. -/
theorem selectBank (domain : Domain) (bank : Bank) :
    Simulated R (Workshop.useBank domain bank) (Workshop.useBank domain bank) := by
  intro state state' u final hR h
  cases useBank_eq_ok.1 h
  exact ⟨_, useBank_eq_ok.2 rfl, hsim.useBank domain bank hR⟩

/-- So is work in a scope. -/
theorem inScope {α : Type} {x y : Compile α} (hxy : Simulated R x y) :
    Simulated R (Compile.inScope x) (Compile.inScope y) := by
  intro state state' a final hR h
  obtain ⟨middle, hx, rfl⟩ := Compile.inScope_eq_ok.1 h
  obtain ⟨middle', hy, hR'⟩ :=
    @hxy _ state'.enter _ _ (hsim.enter hR) hx
  exact ⟨_, Compile.inScope_eq_ok.2 ⟨middle', hy, rfl⟩, hsim.leave hR'⟩

omit hsim in
/-- So are actions. -/
theorem actionList (nodes : List Node)
    (ih : ∀ node ∈ nodes, Simulated R (catalog.action node) (catalog.action (node.mapNames map))) :
    Simulated R (catalog.actionList nodes)
      (catalog.actionList (nodes.map (Node.mapNames map))) := by
  induction nodes with
  | nil => exact .pure []
  | cons node rest ihrest =>
      refine (ih node (by simp)).bind fun lines => ?_
      refine (ihrest fun other hmem => ih other (by simp [hmem])).bind fun others => ?_
      exact .pure _

/-- Rewriting the names of an action keeps its lines. -/
theorem action (node : Node) :
    Simulated R (catalog.action node) (catalog.action (node.mapNames map)) := by
  induction node with
  | assign target receiver value =>
      simp only [Node.mapNames, Catalog.action, Node.mapNamesOption_eq_map]
      exact (hsim.assign target receiver value).bind fun _ => .pure _
  | block statements ih =>
      simp only [Node.mapNames, Catalog.action, Node.mapNamesList_eq_map]
      exact hsim.inScope (actionList statements ih)
  | call callee receiver arguments =>
      simp only [Node.mapNames, Catalog.action]
      refine (Simulated.query fun hR => ?_).bind fun _ => .pure _
      exact applyCall_mapNames callee .action (fun node _ => hsim.valueOf hR node)
        fun node _ => hsim.valueOf hR node
  | declare typeName name perPlayer initial =>
      simp only [Node.mapNames, Catalog.action, Node.mapNamesOption_eq_map]
      exact (hsim.declareVariable typeName name _ initial).bind fun _ => .pure _
  | useBank domain bank => exact (hsim.selectBank domain bank).bind fun _ => .pure _
  | choice condition thenBranch elseBranch _ ihthen ihelse =>
      simp only [Node.mapNames, Catalog.action, Node.mapNamesOption_eq_map]
      refine (Simulated.query fun hR => ?_).bind fun _ => ihthen.bind fun _ => ?_
      · exact (hsim.valueOf hR condition).bind fun _ _ => .refl _
      · cases elseBranch with
        | none => exact .pure _
        | some elseBranch =>
            exact (ihelse elseBranch rfl).bind fun _ => .pure _
  | _ =>
      intro state state' lines final hR h
      cases h

/-- So are rules. -/
theorem rule (name event : String) (conditions : Option (List Node)) (actions : List Node) :
    Simulated R (catalog.rule name event conditions actions)
      (catalog.rule name event (conditions.map (·.map (Node.mapNames map)))
        (actions.map (Node.mapNames map))) := by
  intro state state' text final hR h
  obtain ⟨eventText, texts, lines, middle, hevent, htexts, hlines, rfl, rfl⟩ := rule_eq_ok.1 h
  have henter := hsim.enter hR
  have hactions := actionList actions fun node _ => hsim.action node
  obtain ⟨middle', hlines', hR'⟩ := @hactions _
    ⟨state'.bindings.enter, state'.journal.push (.ruleBegun name event)⟩ _ _ henter hlines
  exact ⟨_, rule_eq_ok.2 ⟨eventText, texts, lines, middle', hevent,
    hsim.ruleConditions henter conditions htexts, hlines', rfl, rfl⟩, hsim.leave hR'⟩

omit hsim in
/-- So are statements. -/
theorem topLevelList (nodes : List Node)
    (ih : ∀ node ∈ nodes,
      Simulated R (catalog.topLevel node) (catalog.topLevel (node.mapNames map))) :
    Simulated R (catalog.topLevelList nodes)
      (catalog.topLevelList (nodes.map (Node.mapNames map))) := by
  induction nodes with
  | nil => exact .pure []
  | cons node rest ihrest =>
      refine (ih node (by simp)).bind fun rules => ?_
      refine (ihrest fun other hmem => ih other (by simp [hmem])).bind fun others => ?_
      exact .pure _

/-- Rewriting the names of a program keeps its rules. -/
theorem topLevel (node : Node) :
    Simulated R (catalog.topLevel node) (catalog.topLevel (node.mapNames map)) := by
  induction node with
  | block statements ih =>
      simp only [Node.mapNames, Catalog.topLevel, Node.mapNamesList_eq_map]
      exact topLevelList statements ih
  | constant name value => exact (hsim.defineConstant name value).bind fun _ => .pure _
  | declare typeName name perPlayer initial =>
      simp only [Node.mapNames, Catalog.topLevel, Node.mapNamesOption_eq_map]
      refine Simulated.bind ?_ fun _ => .pure _
      exact (hsim.declareVariable typeName name _ initial).bind fun _ => .pure _
  | rule name event conditions actions =>
      rw [Node.mapNames_rule]
      exact (hsim.rule name event conditions actions).bind fun _ => .pure _
  | useBank domain bank => exact (hsim.selectBank domain bank).bind fun _ => .pure _
  | _ =>
      intro state state' rules final hR h
      cases h

end NameMap.Simulates

/-! ## What single steps keep, programs keep -/

/-- The map that leaves all names as they are. -/
def NameMap.identity : NameMap where
  plain name := .identifier name none
  declared name := name
  member _ name := name

/-- A property of bindings that every single step of compiling keeps. -/
structure Catalog.Maintains (catalog : Catalog) (P : Bindings → Prop) : Prop where
  declare : ∀ {b c : Bindings} {domain : Domain} {name : String} {type : ValueType} {slot : Slot},
    P b → catalog.isTaken b domain name = false → b.declare domain name type = .ok (slot, c) → P c
  define : ∀ {b : Bindings} {name : String} (value : Typed), P b →
    catalog.isTaken b .global name = false →
    P { b with constants := b.constants.insert name value }
  retype : ∀ {b : Bindings} (domain : Domain) (name : String) (type : ValueType), P b →
    P (b.retype domain name type)
  useBank : ∀ {b : Bindings} (domain : Domain) (bank : Bank), P b → P (b.useBank domain bank)
  enter : ∀ {b : Bindings}, P b → P { b with globals := b.globals.enter }
  leave : ∀ {b : Bindings}, P b → P { b with globals := b.globals.leave }

namespace Catalog.Maintains

variable {catalog : Catalog} {P : Bindings → Prop}

/-- A run beside itself: the bindings are the same on both sides and have the property. -/
theorem simulates (hmaintains : catalog.Maintains P) :
    NameMap.identity.Simulates catalog fun b b' => b' = b ∧ P b where
  name := by
    rintro b _ ⟨rfl, _⟩ name
    exact .refl _
  enumeration := by
    intro name _
    rfl
  receiver := by
    rintro b _ name value _ henum _
    simp [NameMap.identity, namedEnumeration?, henum]
  enumMember := by
    intro receiver name _
    rfl
  playerMember := by
    intro receiver name _
    rfl
  constant := by
    rintro b _ name found ⟨rfl, _⟩ hconstant _
    exact hconstant
  find := by
    rintro b _ domain name found ⟨rfl, _⟩ hfound
    exact hfound
  free := by
    rintro b _ domain name ⟨rfl, _⟩ hfree
    exact hfree
  declare := by
    rintro b _ c domain name type slot ⟨rfl, hP⟩ hfree hdeclare
    exact ⟨c, hdeclare, rfl, hmaintains.declare hP hfree hdeclare⟩
  define := by
    rintro b _ name value ⟨rfl, hP⟩ hfree
    exact ⟨rfl, hmaintains.define value hP hfree⟩
  retype := by
    rintro b _ domain name type ⟨rfl, hP⟩
    exact ⟨rfl, hmaintains.retype domain name type hP⟩
  useBank := by
    rintro b _ domain bank ⟨rfl, hP⟩
    exact ⟨rfl, hmaintains.useBank domain bank hP⟩
  enter := by
    rintro b _ ⟨rfl, hP⟩
    exact ⟨rfl, hmaintains.enter hP⟩
  leave := by
    rintro b _ ⟨rfl, hP⟩
    exact ⟨rfl, hmaintains.leave hP⟩

/-- What statements maintain holds behind them. -/
theorem topLevelList (hmaintains : catalog.Maintains P) {nodes : List Node}
    {state final : CompileState} {rules : List String} (hP : P state.bindings)
    (h : catalog.topLevelList nodes state = .ok rules final) : P final.bindings := by
  have hsimulated := NameMap.Simulates.topLevelList nodes fun node _ =>
    hmaintains.simulates.topLevel node
  obtain ⟨_, _, _, hfinal⟩ := @hsimulated _ state _ _ ⟨rfl, hP⟩ h
  exact hfinal

end Catalog.Maintains

end Workshop

import Workshop.Proofs.NameMap
import Mathlib.Logic.Equiv.Basic

/-!
# Renaming variables and constants

The text of a compiled script does not depend on the names that were chosen in
it.  A renaming is a permutation of all names that leaves those reserved by the
catalog alone.  It acts on declared variables and constants, on the targets of
assignments and on the names used in expressions, but not on what is called,
nor on the members of enumerations.

The renamed bindings are a function of the bindings, so that the relation kept
through both runs is an equation.  A permutation has an inverse, and renaming
back gives the script one started with; one direction of the simulation is
therefore enough.

Main results:

- Theorem `Node.rename_symm_rename`: renaming back restores a tree.
- Theorem `Session.outcome_rename`: a renamed program is accepted exactly when
  the program is, and then with the same text.
-/

namespace Workshop

/-! ## Renamed tables, scopes and bindings -/

/-- The table with its names rewritten. -/
def Table.rename {α : Type} (f : String → String) (table : Table α) : Table α :=
  ⟨table.entries.map fun entry => (f entry.1, entry.2)⟩

namespace Table

variable {α : Type} {f : String → String}

variable (hf : Function.Injective f)

include hf

/-- A new name finds what the old one found. -/
theorem lookup_rename (name : String) (entries : List (String × α)) :
    lookup (f name) (entries.map fun entry => (f entry.1, entry.2)) = lookup name entries := by
  induction entries with
  | nil => rfl
  | cons entry rest ih =>
      simp only [List.map_cons, lookup, hf.eq_iff, ih]

/-- The same for tables. -/
@[simp]
theorem find?_rename (table : Table α) (name : String) :
    (table.rename f).find? (f name) = table.find? name :=
  lookup_rename hf name table.entries

/-- A table has the new name. -/
@[simp]
theorem contains_rename (table : Table α) (name : String) :
    (table.rename f).contains (f name) = table.contains name := by
  simp [contains, find?_rename hf]

/-- Entries change under their new names. -/
theorem change_rename (name : String) (g : α → α) (entries : List (String × α)) :
    (change name g entries).map (fun entry => (f entry.1, entry.2)) =
      change (f name) g (entries.map fun entry => (f entry.1, entry.2)) := by
  induction entries with
  | nil => rfl
  | cons entry rest ih =>
      simp only [change, List.map_cons, hf.eq_iff]
      split
      · rfl
      · simp only [List.map_cons, ih]

/-- The same for tables. -/
theorem modify_rename (table : Table α) (name : String) (g : α → α) :
    (table.modify name g).rename f = (table.rename f).modify (f name) g := by
  simp only [modify, rename, change_rename hf]

end Table

/-- The frame with its names rewritten. -/
def Frame.rename (f : String → String) (frame : Frame) : Frame :=
  { frame with table := frame.table.rename f }

namespace Frame

variable {f : String → String}

variable (hf : Function.Injective f)

include hf

/-- A frame finds the variable. -/
@[simp]
theorem find?_rename (frame : Frame) (name : String) :
    (frame.rename f).find? (f name) = frame.find? name :=
  Table.find?_rename hf frame.table name

/-- A frame has the new name. -/
@[simp]
theorem contains_rename (frame : Frame) (name : String) :
    (frame.rename f).contains (f name) = frame.contains name := by
  simp [contains, find?_rename hf]

/-- A frame changes the type. -/
theorem retype_rename (frame : Frame) (name : String) (type : ValueType) :
    (frame.retype name type).rename f = (frame.rename f).retype (f name) type := by
  simp only [retype, rename, Table.modify_rename hf]

/-- Declaring a variable under its new name takes the same slot. -/
theorem declare_rename {frame frame' : Frame} {counters counters' : SlotCounters} {name : String}
    {type : ValueType} {slot : Slot}
    (hdeclare : frame.declare counters name type = .ok (slot, frame', counters')) :
    (frame.rename f).declare counters (f name) type = .ok (slot, frame'.rename f, counters') := by
  unfold declare at hdeclare ⊢
  rw [find?_rename hf]
  cases hfound : frame.find? name with
  | some present =>
      rw [hfound] at hdeclare
      cases hdeclare
      rfl
  | none =>
      rw [hfound] at hdeclare
      obtain ⟨⟨taken, after⟩, hallocate, hdeclare⟩ := Except.bind_eq_ok.1 hdeclare
      cases hdeclare
      exact Except.bind_eq_ok.2 ⟨(slot, counters'), hallocate, rfl⟩

end Frame

/-- The scopes with their names rewritten. -/
def ScopeStack.rename (f : String → String) (scopes : ScopeStack) : ScopeStack :=
  { scopes with inner := scopes.inner.rename f, outer := scopes.outer.map (Frame.rename f) }

namespace ScopeStack

variable {f : String → String}

theorem frames_rename (scopes : ScopeStack) :
    (scopes.rename f).frames = scopes.frames.map (Frame.rename f) :=
  rfl

/-- Scopes find the variable. -/
theorem find?_rename (hf : Function.Injective f) (scopes : ScopeStack) (name : String) :
    (scopes.rename f).find? (f name) = scopes.find? name := by
  simp only [find?, frameOf?, frames_rename]
  induction scopes.frames with
  | nil => rfl
  | cons frame rest ih =>
      simp only [List.map_cons, List.find?_cons, Frame.contains_rename hf]
      split
      · simp [Frame.find?_rename hf]
      · exact ih

/-- The innermost frame with the name changes. -/
theorem retypeIn_rename (hf : Function.Injective f) (name : String) (type : ValueType)
    (frames : List Frame) :
    (retypeIn name type frames).map (Frame.rename f) =
      retypeIn (f name) type (frames.map (Frame.rename f)) := by
  induction frames with
  | nil => rfl
  | cons frame rest ih =>
      simp only [retypeIn, List.map_cons, Frame.contains_rename hf]
      split
      · simp only [List.map_cons, Frame.retype_rename hf]
      · simp only [List.map_cons, ih]

/-- Scopes change the type. -/
theorem retype_rename (hf : Function.Injective f) (scopes : ScopeStack) (name : String)
    (type : ValueType) :
    (scopes.retype name type).rename f = (scopes.rename f).retype (f name) type := by
  have hinner : (scopes.rename f).inner.contains (f name) = scopes.inner.contains name :=
    Frame.contains_rename hf scopes.inner name
  unfold retype
  rw [hinner]
  split
  · simp only [rename, Frame.retype_rename hf]
  · simp only [rename, retypeIn_rename hf]

/-- A scope is left under any names. -/
theorem leave_rename (scopes : ScopeStack) : scopes.leave.rename f = (scopes.rename f).leave := by
  obtain ⟨inner, outer, slots⟩ := scopes
  cases outer <;> rfl

end ScopeStack

/-- The bindings with their names rewritten. -/
def Bindings.rename (f : String → String) (bindings : Bindings) : Bindings where
  constants := bindings.constants.rename f
  players := { bindings.players with frame := bindings.players.frame.rename f }
  globals := bindings.globals.rename f

/-- The session with its names rewritten. -/
def Session.rename (f : String → String) (session : Session) : Session where
  constants := session.constants.rename f
  players := { session.players with frame := session.players.frame.rename f }

namespace Bindings

variable {f : String → String}

/-- Bindings find the variable. -/
theorem find?_rename (hf : Function.Injective f) (bindings : Bindings) (domain : Domain)
    (name : String) : (bindings.rename f).find? domain (f name) = bindings.find? domain name := by
  cases domain with
  | global => exact ScopeStack.find?_rename hf bindings.globals name
  | player => exact Frame.find?_rename hf bindings.players.frame name

/-- A name means the same. -/
theorem name_rename (hf : Function.Injective f) (bindings : Bindings) (name : String) :
    Transfers (Storage.name bindings name) (Storage.name (bindings.rename f) (f name)) := by
  intro value hvalue
  have hconstant : (bindings.rename f).constants.find? (f name) = bindings.constants.find? name :=
    Table.find?_rename hf bindings.constants name
  have hglobal : (bindings.rename f).globals.find? (f name) = bindings.globals.find? name :=
    ScopeStack.find?_rename hf bindings.globals name
  rw [Storage.name_eq] at hvalue ⊢
  rw [hconstant, hglobal]
  cases hfound : bindings.constants.find? name with
  | some constant =>
      rw [hfound] at hvalue
      exact hvalue
  | none =>
      cases hvariable : bindings.globals.find? name with
      | some found =>
          rw [hfound, hvariable] at hvalue
          exact hvalue
      | none =>
          rw [hfound, hvariable] at hvalue
          cases hvalue

/-- Bindings change the type. -/
theorem retype_rename (hf : Function.Injective f) (bindings : Bindings) (domain : Domain)
    (name : String) (type : ValueType) :
    (bindings.retype domain name type).rename f =
      (bindings.rename f).retype domain (f name) type := by
  cases domain with
  | global => simp only [retype, rename, ScopeStack.retype_rename hf]
  | player => simp only [retype, rename, PlayerVariables.retype, Frame.retype_rename hf]

/-- Declaring a variable under its new name takes the same slot. -/
theorem declare_rename (hf : Function.Injective f) {bindings final : Bindings} {domain : Domain}
    {name : String} {type : ValueType} {slot : Slot}
    (hdeclare : bindings.declare domain name type = .ok (slot, final)) :
    (bindings.rename f).declare domain (f name) type = .ok (slot, final.rename f) := by
  cases domain with
  | global =>
      obtain ⟨⟨_, globals⟩, hglobals, hfinal⟩ := Except.bind_eq_ok.1 hdeclare
      obtain ⟨⟨_, inner, slots⟩, hinner, hscopes⟩ := Except.bind_eq_ok.1 hglobals
      cases hscopes
      cases hfinal
      have hrenamed := Frame.declare_rename hf hinner
      exact Except.bind_eq_ok.2 ⟨_, Except.bind_eq_ok.2 ⟨_, hrenamed, rfl⟩, rfl⟩
  | player =>
      obtain ⟨⟨_, players⟩, hplayers, hfinal⟩ := Except.bind_eq_ok.1 hdeclare
      obtain ⟨⟨_, frame, slots⟩, hframe, hscopes⟩ := Except.bind_eq_ok.1 hplayers
      cases hscopes
      cases hfinal
      have hrenamed := Frame.declare_rename hf hframe
      exact Except.bind_eq_ok.2 ⟨_, Except.bind_eq_ok.2 ⟨_, hrenamed, rfl⟩, rfl⟩

end Bindings

/-! ## Renamed trees -/

/-- The map that renames variables and constants.  Members of enumerations keep their names. -/
def NameMap.renaming (catalog : Catalog) (f : String → String) : NameMap where
  plain name := .identifier (f name) none
  declared := f
  member receiver name := if (catalog.namedEnumeration? receiver).isSome then name else f name

/-- The tree with its variables and constants renamed. -/
def Node.rename (catalog : Catalog) (f : String → String) (node : Node) : Node :=
  node.mapNames (.renaming catalog f)

namespace Catalog

variable {catalog : Catalog} {f : Equiv.Perm String}

/-- Names of enumerations are reserved. -/
theorem isReserved_of_enumeration? {name : String}
    (henum : (catalog.enumeration? name).isSome = true) : catalog.isReserved name = true := by
  simp [isReserved, henum]

variable (hfix : ∀ name, catalog.isReserved name = true → f name = name)

include hfix

/-- A renaming that fixes the reserved names makes no other name reserved. -/
theorem isReserved_rename (name : String) :
    catalog.isReserved (f name) = catalog.isReserved name := by
  rw [Bool.eq_iff_iff]
  constructor
  · intro hreserved
    have hname : f name = name := f.injective (hfix _ hreserved)
    rwa [hname] at hreserved
  · intro hreserved
    rw [hfix name hreserved]
    exact hreserved

/-- Enumerations keep their names. -/
theorem enumeration?_rename (name : String) :
    catalog.enumeration? (f name) = catalog.enumeration? name := by
  by_cases hname : f name = name
  · rw [hname]
  · have hnone (other : String) (hother : f other ≠ other) :
        catalog.enumeration? other = none := by
      by_contra hsome
      have hisSome := Option.isSome_iff_ne_none.2 hsome
      exact hother (hfix other (isReserved_of_enumeration? hisSome))
    rw [hnone name hname, hnone (f name) fun h => hname (f.injective h)]

/-- So do receivers that name one. -/
theorem namedEnumeration?_rename (receiver : Node) :
    (catalog.namedEnumeration? (receiver.rename catalog f)).isSome =
      (catalog.namedEnumeration? receiver).isSome := by
  cases receiver with
  | identifier name inner =>
      cases inner with
      | none =>
          simp only [Node.rename, Node.mapNames, NameMap.renaming, namedEnumeration?,
            enumeration?_rename hfix]
          split <;> rfl
      | some inner => rfl
  | _ => rfl

/-- A new name is taken if the old one was. -/
theorem isTaken_rename (bindings : Bindings) (domain : Domain) (name : String) :
    catalog.isTaken (bindings.rename f) domain (f name) = catalog.isTaken bindings domain name := by
  have hconstant : (bindings.rename f).constants.contains (f name) =
      bindings.constants.contains name :=
    Table.contains_rename f.injective bindings.constants name
  simp only [isTaken_eq, isReserved_rename hfix, hconstant, Bindings.find?_rename f.injective]

/-- The bindings of the renamed run are the renamed bindings, from the first step to the last. -/
theorem renaming_simulates :
    (NameMap.renaming catalog f).Simulates catalog fun b b' => b' = b.rename f where
  name := by
    rintro b _ rfl name
    exact Bindings.name_rename f.injective b name
  enumeration := by
    intro name henum
    simp only [NameMap.renaming, hfix name (isReserved_of_enumeration? henum)]
  receiver := by
    rintro b _ name value rfl henum _
    simp [NameMap.renaming, namedEnumeration?, enumeration?_rename hfix, henum]
  enumMember := by
    intro receiver name hreceiver
    simp [NameMap.renaming, hreceiver]
  playerMember := by
    intro receiver name hreceiver
    simp [NameMap.renaming, hreceiver]
  constant := by
    rintro b _ name found rfl hconstant _
    exact (Table.contains_rename f.injective b.constants name).trans hconstant
  find := by
    rintro b _ domain name found rfl hfound
    exact (Bindings.find?_rename f.injective b domain name).trans hfound
  free := by
    rintro b _ domain name rfl hfree
    exact (isTaken_rename hfix b domain name).trans hfree
  declare := by
    rintro b _ c domain name type slot rfl _ hdeclare
    exact ⟨_, Bindings.declare_rename f.injective hdeclare, rfl⟩
  define := by
    rintro b _ name value rfl _
    rfl
  retype := by
    rintro b _ domain name type rfl
    exact (Bindings.retype_rename f.injective b domain name type).symm
  useBank := by
    rintro b _ domain bank rfl
    cases domain <;> rfl
  enter := by
    rintro b _ rfl
    rfl
  leave := by
    rintro b _ rfl
    simp only [Bindings.rename, ScopeStack.leave_rename]

end Catalog

/-! ## Renaming back -/

/-- Renaming back gives the table again. -/
theorem Table.rename_rename {α : Type} {f g : String → String}
    (hgf : ∀ name, g (f name) = name) (table : Table α) : (table.rename f).rename g = table := by
  simp [Table.rename, List.map_map, Function.comp_def, hgf]

/-- Renaming back gives the session again. -/
theorem Session.rename_rename {f g : String → String} (hgf : ∀ name, g (f name) = name)
    (session : Session) : (session.rename f).rename g = session := by
  simp [Session.rename, Frame.rename, Table.rename_rename hgf]

namespace Node

variable {catalog : Catalog} {f : Equiv.Perm String}

/-- Renaming back gives the nodes again. -/
theorem map_rename_symm_rename {nodes : List Node}
    (ih : ∀ node ∈ nodes, (node.rename catalog f).rename catalog f.symm = node) :
    (nodes.map (mapNames (.renaming catalog f))).map (mapNames (.renaming catalog f.symm)) =
      nodes := by
  rw [List.map_map]
  exact (List.map_congr_left ih).trans (List.map_id nodes)

/-- The same for a part that may be missing. -/
theorem optionMap_rename_symm_rename {part : Option Node}
    (ih : ∀ node ∈ part, (node.rename catalog f).rename catalog f.symm = node) :
    (part.map (mapNames (.renaming catalog f))).map (mapNames (.renaming catalog f.symm)) =
      part := by
  cases part with
  | none => rfl
  | some node => exact congrArg some (ih node rfl)

/-- The inverse of a renaming restores every tree. -/
theorem rename_symm_rename (hfix : ∀ name, catalog.isReserved name = true → f name = name)
    (node : Node) : (node.rename catalog f).rename catalog f.symm = node := by
  have hdeclared (name : String) :
      (NameMap.renaming catalog f.symm).declared ((NameMap.renaming catalog f).declared name) =
        name :=
    f.symm_apply_apply name
  unfold rename
  induction node with
  | block statements ih =>
      simp only [mapNames, mapNamesList_eq_map, map_rename_symm_rename ih]
  | constant name value ih => simp only [mapNames, hdeclared, ih]
  | declare typeName name perPlayer initial ih =>
      simp only [mapNames, mapNamesOption_eq_map, hdeclared, optionMap_rename_symm_rename ih]
  | rule name event conditions actions ihconditions ihactions =>
      rw [mapNames_rule, mapNames_rule, map_rename_symm_rename ihactions]
      cases conditions with
      | none => rfl
      | some conditions =>
          simp only [Option.map_some]
          rw [map_rename_symm_rename (ihconditions conditions rfl)]
  | assign target receiver value ihreceiver ihvalue =>
      simp only [mapNames, mapNamesOption_eq_map, hdeclared,
        optionMap_rename_symm_rename ihreceiver, ihvalue]
  | call callee receiver arguments _ ihreceiver iharguments =>
      simp only [mapNames, mapNamesOption_eq_map, mapNamesList_eq_map,
        optionMap_rename_symm_rename ihreceiver, map_rename_symm_rename iharguments]
  | negation operand ih => simp only [mapNames, ih]
  | binary operator left right ihleft ihright => simp only [mapNames, ihleft, ihright]
  | choice condition thenBranch elseBranch ihcondition ihthen ihelse =>
      simp only [mapNames, mapNamesOption_eq_map, ihcondition, ihthen,
        optionMap_rename_symm_rename ihelse]
  | identifier name receiver ih =>
      cases receiver with
      | none => simp only [mapNames, NameMap.renaming, Equiv.symm_apply_apply]
      | some receiver =>
          -- The renamed receiver names an enumeration exactly when the receiver does.
          have hreceiver := Catalog.namedEnumeration?_rename hfix receiver
          simp only [mapNames, NameMap.renaming, rename] at hreceiver ⊢
          simp only [hreceiver]
          rw [identifier.injEq]
          refine ⟨?_, congrArg some (ih receiver rfl)⟩
          split <;> simp
  | useBank | enumMember | number | text | boolean | player => rfl

end Node

/-! ## The text does not depend on names -/

namespace Session

variable {catalog : Catalog} {f : Equiv.Perm String}

/-- A renamed program is accepted whenever the program is, with the same text. -/
theorem outcome_transfers (hfix : ∀ name, catalog.isReserved name = true → f name = name)
    (session : Session) (node : Node) :
    Transfers (session.compile catalog node).outcome
      ((session.rename f).compile catalog (node.rename catalog f)).outcome := by
  intro text haccepted
  obtain ⟨final, hprogram, _⟩ := compile_eq_ok.1 haccepted
  obtain ⟨rules, hrules, rfl⟩ := Catalog.program_eq_ok.1 hprogram
  have hsimulated := (Catalog.renaming_simulates hfix).topLevel node
  obtain ⟨final', hrules', _⟩ :=
    @hsimulated _ ⟨(session.rename f).bindings, #[]⟩ _ _ rfl hrules
  have hprogram' := Catalog.program_eq_ok.2 ⟨rules, hrules', rfl⟩
  simp only [compile, Node.rename, hprogram']

/-- The names chosen in a program do not matter: after a permutation of the names that fixes the
reserved ones, the program is accepted exactly when it was before, and then with the same text.
In a session that has compiled other programs, the names of their constants and variables of
players are renamed as well; at the start of a session there are none. -/
theorem outcome_rename (hfix : ∀ name, catalog.isReserved name = true → f name = name)
    (node : Node) :
    (∀ session : Session,
      ((session.rename f).compile catalog (node.rename catalog f)).outcome.toOption =
        (session.compile catalog node).outcome.toOption) ∧
    (initial.compile catalog (node.rename catalog f)).outcome.toOption =
      (initial.compile catalog node).outcome.toOption := by
  have hfix' : ∀ name, catalog.isReserved name = true → f.symm name = name := by
    intro name hreserved
    rw [Equiv.symm_apply_eq]
    exact (hfix name hreserved).symm
  have hsession (session : Session) :
      ((session.rename f).compile catalog (node.rename catalog f)).outcome.toOption =
        (session.compile catalog node).outcome.toOption := by
    have hback := outcome_transfers hfix' (session.rename f) (node.rename catalog f)
    rw [Session.rename_rename f.symm_apply_apply, Node.rename_symm_rename hfix] at hback
    exact hback.toOption_eq (outcome_transfers hfix session node)
  exact ⟨hsession, hsession initial⟩

/-- A constant, a global variable and a player's variable, all of them used in a rule. -/
def scoreProgram : Node :=
  .block [.constant "bonus" (.number "2"),
    .declare "number" "score" false none,
    .declare "number" "best" true none,
    .rule "count" "player" none
      [.assign "score" none (.binary .add (.identifier "score" none) (.identifier "bonus" none)),
        .assign "best" (some .player) (.identifier "score" none)]]

/-- Exchanging the names of a global variable and a player's variable changes nothing. -/
theorem outcome_rename_swap :
    (∀ name, Catalog.standard.isReserved name = true →
      Equiv.swap "score" "best" name = name) ∧
    (initial.compile .standard
        (scoreProgram.rename .standard (Equiv.swap "score" "best"))).outcome.toOption =
      (initial.compile .standard scoreProgram).outcome.toOption ∧
    (initial.compile .standard scoreProgram).outcome.toOption.isSome = true := by
  have hfix : ∀ name, Catalog.standard.isReserved name = true →
      Equiv.swap "score" "best" name = name := by
    intro name hreserved
    refine Equiv.swap_apply_of_ne_of_ne ?_ ?_
    · rintro rfl
      revert hreserved
      decide +kernel
    · rintro rfl
      revert hreserved
      decide +kernel
  exact ⟨hfix, (outcome_rename hfix scoreProgram).2, by decide +kernel⟩

end Session

end Workshop

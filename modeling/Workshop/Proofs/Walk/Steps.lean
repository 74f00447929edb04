import Workshop.Proofs.Storage
import Workshop.Proofs.Tree

/-!
# Steps of compiling

Whatever a script says, compiling it changes the bindings in five ways only: it
declares a variable, fixes the type of one, selects a bank, defines a constant,
or works in a scope that it leaves again.  A failure ends the work in the
middle, but all scopes that were entered are left.  This module proves that
every run is made of such steps, together with what is known when a step is
taken.  Later proofs go by induction over the steps and do not look at runs.

Main definitions:

- `CompileOn.after`: the state in which a computation ends.
- `Steps`: the changes that compiling can make to bindings.
- `Session.compileAll`: a session after several programs.

Main results:

- Theorem `Catalog.action_steps`: what an action does to the bindings.
- Theorem `Catalog.topLevel_steps`: what a top level statement does to them.
- Theorem `Session.bindings_steps`: what a program leaves of them.
-/

namespace Workshop

variable {α β : Type}

/-! ## The end of a computation -/

/-- The state in which a computation ends, whether it succeeds or stops. -/
def CompileOn.after {σ ε : Type} (work : CompileOn σ ε α) (state : StateOn σ) :
    StateOn σ :=
  match work state with
  | .ok _ final => final
  | .error _ final => final

namespace Compile

open CompileOn

variable {state final middle : CompileState} {x : Compile α} {f : α → Compile β}

/-- The state behind a success. -/
theorem after_of_ok {work : Compile α} {a : α} (hrun : work state = .ok a final) :
    work.after state = final := by
  rw [after, hrun]

/-- The second step goes on. -/
theorem after_bind_of_ok {a : α} (hx : x state = .ok a middle) :
    (x >>= f).after state = (f a).after middle := by
  simp only [after, bind, EStateM.bind, hx]

/-- An error stops the second step. -/
theorem after_bind_of_error {error : SemanticError} (hx : x state = .error error middle) :
    (x >>= f).after state = middle := by
  simp only [after, bind, EStateM.bind, hx]

/-- Only the first part of a computation counts if the second part never changes the bindings. -/
theorem bindings_after_bind (hf : ∀ a middle, ((f a).after middle).bindings = middle.bindings)
    (state : CompileState) : ((x >>= f).after state).bindings = (x.after state).bindings := by
  cases hrun : x state with
  | ok a middle => rw [after_bind_of_ok hrun, after_of_ok hrun, hf]
  | error error middle => rw [after_bind_of_error hrun, after, hrun]

@[simp]
theorem after_pure (a : α) (state : CompileState) : (pure a : Compile α).after state = state :=
  rfl

@[simp]
theorem after_query (f : Bindings → Except SemanticError α) (state : CompileState) :
    (query f).after state = state := by
  unfold after query
  cases f state.bindings <;> rfl

/-- A result that does not matter. -/
@[simp]
theorem after_discard (work : Compile α) (state : CompileState) :
    (discard work : Compile Unit).after state = work.after state := by
  have hbind : (discard work : Compile Unit) = work >>= fun _ => pure () := rfl
  cases hrun : work state with
  | ok a middle => rw [hbind, after_bind_of_ok hrun, after_of_ok hrun, after_pure]
  | error error middle => rw [hbind, after_bind_of_error hrun, after, hrun]

/-- A scope is left, whatever happens in it. -/
@[simp]
theorem after_inScope (work : Compile α) (state : CompileState) :
    (inScope work).after state = (work.after state.enter).leave := by
  rw [after, inScope_eq, after]
  cases work state.enter <;> rfl

end Compile

/-- Storing a value fixes the type of the variable, or changes nothing. -/
theorem after_store (domain : Domain) (name : String) (type : ValueType) (value : Typed)
    (state : CompileState) :
    (store domain name type value).after state = state ∨
      ∃ text inferred, storedText name type value = .ok (text, some inferred) ∧
        (store domain name type value).after state = state.settled domain name (some inferred) := by
  cases hstored : storedText name type value with
  | error error =>
      left
      have hrun : Compile.query (fun _ => storedText name type value) state =
          .error error state := by
        simp only [Compile.query, hstored]
      exact Compile.after_bind_of_error hrun
  | ok result =>
      obtain ⟨text, inferred⟩ := result
      have hrun : store domain name type value state =
          .ok text (state.settled domain name inferred) :=
        store_eq_ok.2 ⟨inferred, hstored, rfl⟩
      rw [Compile.after_of_ok hrun]
      cases inferred with
      | none => exact .inl rfl
      | some type => exact .inr ⟨text, type, rfl, rfl⟩

/-! ## Steps -/

/-- The changes that compiling can make to bindings at a place of a script.  Constants are defined
at the top level only. -/
inductive Steps (catalog : Catalog) : Place → Bindings → Bindings → Prop
  | done (place : Place) (bindings : Bindings) : Steps catalog place bindings bindings
  | andThen {place : Place} {first second third : Bindings} :
      Steps catalog place first second → Steps catalog place second third →
      Steps catalog place first third
  /-- A variable is declared under a name that is not taken. -/
  | declare {place : Place} {bindings final : Bindings} {domain : Domain} {typeName name : String}
      {type : ValueType} {slot : Slot} :
      catalog.isTaken bindings domain name = false →
      catalog.declaredType typeName name = .ok type →
      bindings.declare domain name type = .ok (slot, final) → Steps catalog place bindings final
  /-- A value that was computed earlier is stored, and fixes the type of the variable. -/
  | settle {place : Place} {earlier bindings : Bindings} {domain : Domain} {name text : String}
      {found : Variable} {node : Node} {value : Typed} {type : ValueType} :
      Steps catalog place earlier bindings →
      catalog.valueOf earlier node = .ok value →
      bindings.find? domain name = some found →
      storedText name found.type value = .ok (text, some type) →
      Steps catalog place earlier (bindings.retype domain name type)
  | useBank (place : Place) (bindings : Bindings) (domain : Domain) (bank : Bank) :
      Steps catalog place bindings (bindings.useBank domain bank)
  /-- A constant is defined under a name that is not taken. -/
  | define {bindings : Bindings} {name : String} {node : Node} {value : Typed} :
      catalog.isTaken bindings .global name = false →
      catalog.valueOf bindings node = .ok value →
      Steps catalog .topLevel bindings
        { bindings with constants := bindings.constants.insert name value }
  /-- A scope is opened, actions are done in it, and it is closed. -/
  | inScope {place : Place} {bindings inner : Bindings} :
      Steps catalog .action bindings.enter inner → Steps catalog place bindings inner.leave

/-- A computation that changes the bindings of a state in steps only. -/
def MakesSteps (catalog : Catalog) (place : Place) (work : Compile α) (state : CompileState) :
    Prop :=
  Steps catalog place state.bindings (work.after state).bindings

namespace MakesSteps

variable {catalog : Catalog} {place : Place} {state : CompileState} {work : Compile α}

/-- Work that changes nothing makes no steps. -/
theorem of_bindings_eq (hsame : (work.after state).bindings = state.bindings) :
    MakesSteps catalog place work state := by
  rw [MakesSteps, hsame]
  exact .done place _

/-- The steps of a success. -/
theorem steps_of_ok {a : α} {final : CompileState} (hwork : MakesSteps catalog place work state)
    (hrun : work state = .ok a final) : Steps catalog place state.bindings final.bindings := by
  rw [MakesSteps, Compile.after_of_ok hrun] at hwork
  exact hwork

/-- A result makes no steps. -/
theorem pure (a : α) : MakesSteps catalog place (pure a) state :=
  of_bindings_eq rfl

/-- An error makes no steps. -/
theorem throw (error : SemanticError) :
    MakesSteps catalog place (throw error : Compile α) state :=
  of_bindings_eq rfl

/-- A question makes no steps. -/
theorem query (f : Bindings → Except SemanticError α) :
    MakesSteps catalog place (Compile.query f) state := by
  apply of_bindings_eq
  rw [Compile.after_query]

/-- One computation after another.  The second one may count on the success of the first. -/
theorem bind {x : Compile α} {f : α → Compile β} (hx : MakesSteps catalog place x state)
    (hf : ∀ a middle, x state = .ok a middle → MakesSteps catalog place (f a) middle) :
    MakesSteps catalog place (x >>= f) state := by
  cases hrun : x state with
  | ok a middle =>
      have hnext := hf a middle hrun
      unfold MakesSteps at hx hnext ⊢
      rw [Compile.after_of_ok hrun] at hx
      rw [Compile.after_bind_of_ok hrun]
      exact hx.andThen hnext
  | error error middle =>
      unfold MakesSteps at hx ⊢
      rw [CompileOn.after, hrun] at hx
      rw [Compile.after_bind_of_error hrun]
      exact hx

/-- The same after a computation that has left the state as it was. -/
theorem bind_query {f : Bindings → Except SemanticError α} {g : α → Compile β}
    (hg : ∀ a, f state.bindings = .ok a → MakesSteps catalog place (g a) state) :
    MakesSteps catalog place (Compile.query f >>= g) state := by
  refine (query f).bind fun a middle hrun => ?_
  obtain ⟨hok, rfl⟩ := Compile.query_eq_ok.1 hrun
  exact hg a hok

/-- The steps of a scope. -/
theorem inScope (hwork : MakesSteps catalog .action work state.enter) :
    MakesSteps catalog place (Compile.inScope work) state := by
  unfold MakesSteps at hwork ⊢
  rw [Compile.after_inScope]
  exact .inScope hwork

end MakesSteps

/-! ## Statements make steps -/

/-- A variable that has just been declared is found under its name. -/
theorem Bindings.find?_of_declare {bindings final : Bindings} {domain : Domain} {name : String}
    {type : ValueType} {slot : Slot} (hnew : bindings.find? domain name = none)
    (hdeclare : bindings.declare domain name type = .ok (slot, final)) :
    final.find? domain name = some ⟨slot, type⟩ := by
  obtain ⟨counters, _, rfl⟩ := declare_of_find?_none hnew hdeclare
  rw [find?_eq_lookup, entries_extend, if_pos rfl]
  simp [Table.lookup]

namespace Catalog

variable {catalog : Catalog} {place : Place}

/-- A name is free if it is not reserved and names neither a constant nor a variable in sight. -/
theorem isTaken_eq_false {bindings : Bindings} {domain : Domain} {name : String} :
    catalog.isTaken bindings domain name = false ↔
      catalog.isReserved name = false ∧ bindings.constants.find? name = none ∧
        bindings.find? domain name = none := by
  simp [isTaken_eq, Table.contains, and_assoc]

/-- Storing an earlier value continues the steps since then. -/
theorem store_steps {earlier : Bindings} {domain : Domain} {name : String} {node : Node}
    {value : Typed} {slot : Slot} {type : ValueType} {state : CompileState}
    (hsteps : Steps catalog place earlier state.bindings)
    (hvalue : catalog.valueOf earlier node = .ok value)
    (hfound : state.bindings.find? domain name = some ⟨slot, type⟩) :
    Steps catalog place earlier ((store domain name type value).after state).bindings := by
  rcases after_store domain name type value state with hsame | ⟨text, fixed, hstored, hsettled⟩
  · rw [hsame]
    exact hsteps
  · rw [hsettled]
    exact .settle hsteps hvalue hfound hstored

/-- The steps of an assignment. -/
theorem assign_steps (target : String) (receiver : Option Node) (value : Node)
    (state : CompileState) :
    MakesSteps catalog place (catalog.assign target receiver value) state := by
  cases receiver with
  | none =>
      apply MakesSteps.bind_query
      intro _ _
      apply MakesSteps.bind_query
      intro typed htyped
      apply MakesSteps.bind_query
      intro found hfound
      refine .bind ?_ fun _ _ _ => .pure _
      exact store_steps (.done place _) htyped (Storage.get_eq_ok.1 hfound)
  | some receiver =>
      refine .bind_query fun typed htyped => .bind_query fun _ _ => .bind_query fun _ _ =>
        .bind_query fun found hfound => ?_
      refine .bind ?_ fun _ _ _ => .pure _
      exact store_steps (.done place _) htyped (Storage.get_eq_ok.1 hfound)

/-- A declaration is one step, and its first value may be another. -/
theorem declare_steps (typeName name : String) (domain : Domain) (initial : Option Node)
    (state : CompileState) :
    MakesSteps catalog place (catalog.declare typeName name domain initial) state := by
  refine .bind (.query _) fun _ _ hrequired => ?_
  obtain ⟨hfree, rfl⟩ := requireFree_eq_ok.1 hrequired
  apply MakesSteps.bind_query
  intro type htype
  have hslot {slot : Slot} {bindings : Bindings}
      (hbindings : state.bindings.declare domain name type = .ok (slot, bindings)) :
      Steps catalog place state.bindings bindings := .declare hfree htype hbindings
  cases initial with
  | none =>
      refine .bind (.pure _) fun value middle hvalue => ?_
      obtain ⟨rfl, rfl⟩ := Compile.pure_eq_ok.1 hvalue
      apply MakesSteps.bind_query
      rintro ⟨slot, bindings⟩ hbindings
      exact hslot hbindings
  | some node =>
      refine .bind (.bind (.query _) fun _ _ _ => .pure _) fun value middle hvalue => ?_
      simp only [initialValue, Compile.bind_eq_ok, Compile.query_eq_ok,
        Compile.pure_eq_ok] at hvalue
      obtain ⟨typed, _, ⟨htyped, rfl⟩, rfl, rfl⟩ := hvalue
      apply MakesSteps.bind_query
      rintro ⟨slot, bindings⟩ hbindings
      have hfound : bindings.find? domain name = some ⟨slot, type⟩ :=
        Bindings.find?_of_declare (isTaken_eq_false.1 hfree).2.2 hbindings
      have hupdate : (Compile.update fun _ => bindings : Compile Unit) state =
          .ok () ⟨bindings, state.journal⟩ := rfl
      -- The value was computed before the variable existed, so the step that stores it reaches
      -- back to the state before the declaration.
      have hstore : Steps catalog place state.bindings
          ((store domain name type typed).after ⟨bindings, state.journal⟩).bindings :=
        store_steps (hslot hbindings) htyped hfound
      unfold MakesSteps
      rw [Compile.after_bind_of_ok hupdate, Compile.bindings_after_bind]
      · exact hstore
      · exact fun _ _ => rfl

/-- The steps of a constant. -/
theorem define_steps (name : String) (value : Node) (state : CompileState) :
    MakesSteps catalog .topLevel (catalog.define name value) state := by
  refine .bind (.query _) fun _ _ hrequired => ?_
  obtain ⟨hfree, rfl⟩ := requireFree_eq_ok.1 hrequired
  apply MakesSteps.bind_query
  intro typed htyped
  exact .define hfree htyped

/-! ## Actions and programs make steps -/

/-- One statement after another. -/
theorem cons_steps {work others : Compile (List α)}
    (hwork : ∀ state, MakesSteps catalog place work state)
    (hothers : ∀ state, MakesSteps catalog place others state) (state : CompileState) :
    MakesSteps catalog place
      (do
        let results ← work
        let others ← others
        pure (results ++ others)) state :=
  (hwork state).bind fun _ middle _ => (hothers middle).bind fun _ _ _ => .pure _

/-- The steps of actions, one after the other. -/
theorem actionList_steps_of_forall (nodes : List Node)
    (ih : ∀ node ∈ nodes, ∀ state, MakesSteps catalog place (catalog.action node) state)
    (state : CompileState) : MakesSteps catalog place (catalog.actionList nodes) state := by
  induction nodes generalizing state with
  | nil => exact .pure _
  | cons node rest ihrest =>
      rw [List.forall_mem_cons] at ih
      exact cons_steps ih.1 (ihrest ih.2) state

/-- Actions change bindings in steps, also when they fail. -/
theorem action_steps (node : Node) (state : CompileState) :
    MakesSteps catalog .action (catalog.action node) state := by
  induction node generalizing state with
  | assign target receiver value =>
      exact .bind (assign_steps target receiver value state) fun _ _ _ => .pure _
  | block statements ih => exact .inScope (actionList_steps_of_forall statements ih state.enter)
  | call callee receiver arguments => exact .bind (.query _) fun _ _ _ => .pure _
  | declare typeName name perPlayer initial =>
      exact .bind (declare_steps typeName name _ initial state) fun _ _ _ => .pure _
  | useBank domain bank => exact .useBank .action state.bindings domain bank
  | choice condition thenBranch elseBranch _ ihthen ihelse =>
      cases elseBranch with
      | none =>
          refine .bind (.query _) fun _ middle _ => .bind (ihthen middle) fun _ _ _ => ?_
          exact .pure _
      | some elseBranch =>
          refine .bind (.query _) fun _ middle _ => .bind (ihthen middle) fun _ last _ => ?_
          exact .bind (ihelse elseBranch rfl last) fun _ _ _ => .pure _
  | _ => exact .throw _

/-- The steps of a list of actions. -/
theorem actionList_steps (nodes : List Node) (state : CompileState) :
    MakesSteps catalog .action (catalog.actionList nodes) state :=
  actionList_steps_of_forall nodes (fun node _ => action_steps node) state

/-- A rule does nothing if its event is not known, and else it works in a scope of its own. -/
theorem rule_scope (name event : String) (conditions : Option (List Node)) (actions : List Node)
    (state : CompileState) :
    ((catalog.rule name event conditions actions).after state).bindings = state.bindings ∨
      ∃ inner, Steps catalog .action state.bindings.enter inner ∧
        ((catalog.rule name event conditions actions).after state).bindings = inner.leave := by
  rw [rule, Compile.bindings_after_bind fun _ _ => rfl]
  simp only [ruleLayout, Reason.lift_eq]
  cases hevent : catalog.eventText event with
  | error error =>
      left
      have hquery : Compile.query (fun _ => (.error error : Except SemanticError String)) state =
          .error error state := rfl
      rw [Compile.after_bind_of_error hquery]
  | ok eventText =>
      right
      have hquery : Compile.query (fun _ => (.ok eventText : Except SemanticError String)) state =
          .ok eventText state := rfl
      have hnote : (Compile.note (.ruleBegun name event) : Compile Unit) state =
          .ok () ⟨state.bindings, state.journal.push (.ruleBegun name event)⟩ := rfl
      have hbody (inside : CompileState) : MakesSteps catalog .action
          (do
            let conditions ← Compile.query (catalog.ruleConditions · conditions)
            let actions ← catalog.actionList actions
            pure (RuleLayout.mk name eventText (event != globalEvent) conditions actions)) inside :=
        .bind (.query _) fun _ middle _ =>
          .bind (actionList_steps actions middle) fun _ _ _ => .pure _
      rw [Compile.after_bind_of_ok hquery, Compile.after_bind_of_ok hnote, Compile.after_inScope]
      exact ⟨_, hbody ⟨state.bindings.enter, state.journal.push (.ruleBegun name event)⟩, rfl⟩

/-- The steps of a rule. -/
theorem rule_steps (name event : String) (conditions : Option (List Node)) (actions : List Node)
    (state : CompileState) :
    MakesSteps catalog place (catalog.rule name event conditions actions) state := by
  rcases rule_scope name event conditions actions state with hsame | ⟨inner, hsteps, hleave⟩
  · exact .of_bindings_eq hsame
  · rw [MakesSteps, hleave]
    exact .inScope hsteps

/-- The steps of statements, one after the other. -/
theorem topLevelList_steps_of_forall (nodes : List Node)
    (ih : ∀ node ∈ nodes, ∀ state, MakesSteps catalog place (catalog.topLevel node) state)
    (state : CompileState) : MakesSteps catalog place (catalog.topLevelList nodes) state := by
  induction nodes generalizing state with
  | nil => exact .pure _
  | cons node rest ihrest =>
      rw [List.forall_mem_cons] at ih
      exact cons_steps ih.1 (ihrest ih.2) state

/-- Top level statements change bindings in steps, also when they fail. -/
theorem topLevel_steps (node : Node) (state : CompileState) :
    MakesSteps catalog .topLevel (catalog.topLevel node) state := by
  induction node generalizing state with
  | block statements ih => exact topLevelList_steps_of_forall statements ih state
  | constant name value => exact .bind (define_steps name value state) fun _ _ _ => .pure _
  | declare typeName name perPlayer initial =>
      refine .bind (.bind (declare_steps typeName name _ initial state) fun _ _ _ => ?_)
        fun _ _ _ => .pure _
      exact .pure _
  | rule name event conditions actions =>
      exact .bind (rule_steps name event conditions actions state) fun _ _ _ => .pure _
  | useBank domain bank => exact .useBank .topLevel state.bindings domain bank
  | _ => exact .throw _

/-- The steps of a list of statements. -/
theorem topLevelList_steps (nodes : List Node) (state : CompileState) :
    MakesSteps catalog .topLevel (catalog.topLevelList nodes) state :=
  topLevelList_steps_of_forall nodes (fun node _ => topLevel_steps node) state

/-- The steps of a program. -/
theorem program_steps (node : Node) (state : CompileState) :
    MakesSteps catalog .topLevel (catalog.program node) state :=
  .bind (topLevel_steps node state) fun _ _ _ => .pure _

end Catalog

/-! ## Sessions -/

namespace Session

/-- A session after several programs, those that fail included. -/
def compileAll (session : Session) (catalog : Catalog) : List Node → Session
  | [] => session
  | node :: rest => (session.compile catalog node).session.compileAll catalog rest

/-- What lives on of a program is what it leaves, whether it succeeds or fails. -/
theorem session_compile (session : Session) (catalog : Catalog) (node : Node) :
    (session.compile catalog node).session =
      .ofBindings ((catalog.program node).after ⟨session.bindings, #[]⟩).bindings := by
  unfold compile CompileOn.after
  cases catalog.program node ⟨session.bindings, #[]⟩ <;> rfl

/-- A program makes steps, and what lives on is what they leave. -/
theorem bindings_steps (session : Session) (catalog : Catalog) (node : Node) :
    ∃ final, Steps catalog .topLevel session.bindings final ∧
      (session.compile catalog node).session = .ofBindings final :=
  ⟨_, catalog.program_steps node ⟨session.bindings, #[]⟩, session_compile session catalog node⟩

end Session
end Workshop

import Workshop.Proofs.Guarded.Accesses
import Workshop.Proofs.Guarded.Images

/-!
# Guarded compiling

Compiling with guarded accesses stops at the first error or fault.  This module shows
that there are no faults: guarded compiling has the outcomes of compiling, for all
programs of all sessions.

Main definitions:

- `Guarded.image`: the guarded bindings as an image of the bindings.
- `Session.outcomes`, `Guarded.Session.outcomes`: the outcomes of several programs.

Main result:

- Theorem `compiling_never_faults`: no session of programs ends with a fault.
-/

namespace Workshop

/-- Guarded accesses do what accesses to the bindings do. -/
def Guarded.image : BindingsImage Guarded.Bindings where
  image := Workshop.Bindings.guarded
  reason := .error
  lift _ := rfl
  render := Builtin.guardedRender_of_length
  constants _ := rfl
  define _ _ _ := rfl
  find? := Bindings.find?_guarded
  declare := Bindings.declare_guarded
  retype := Bindings.retype_guarded
  useBank := Bindings.useBank_guarded
  enter := Bindings.enter_guarded
  leave := Bindings.leave_guarded

/-! ## Sessions -/

/-- The outcomes of several programs, compiled one after the other and written with the options of
each. -/
def Session.outcomes (session : Session) (catalog : Catalog) :
    List (Node × CompileOptions) → List (Except SemanticError String)
  | [] => []
  | (node, options) :: rest =>
    let compiled := session.compile catalog node
    compiled.outcome.map options.finish :: compiled.session.outcomes catalog rest

namespace Guarded

/-- What lives on from one program to the next. -/
structure Session where
  constants : Table Typed
  players : Players

namespace Session

/-- A session before its first program. -/
def initial : Session := ⟨.empty, ⟨.empty, 0⟩, List.replicate 26 0⟩

/-- The bindings at the start of a program. -/
def bindings (session : Session) : Bindings :=
  ⟨session.constants, session.players, [⟨.empty, 0⟩], List.replicate 26 0⟩

/-- What lives on of the bindings at the end of a program. -/
def ofBindings (bindings : Bindings) : Session :=
  ⟨bindings.constants, bindings.players⟩

/-- Compiles one more program.  A fault ends the session. -/
def compile (session : Session) (catalog : Catalog) (node : Node) :
    Except Fault (Except SemanticError String × Session) :=
  match catalog.program node ⟨session.bindings, #[]⟩ with
  | .ok text state => .ok (.ok text, ofBindings state.bindings)
  | .error (.error error) state => .ok (.error error, ofBindings state.bindings)
  | .error (.fault fault) _ => .error fault

/-- The outcomes of several programs, if there is no fault. -/
def outcomes (session : Session) (catalog : Catalog) :
    List (Node × CompileOptions) → Except Fault (List (Except SemanticError String))
  | [] => .ok []
  | (node, options) :: rest => do
    let (outcome, session) ← session.compile catalog node
    let others ← session.outcomes catalog rest
    pure (outcome.map options.finish :: others)

end Session

end Guarded

/-- A session without what is known by its types. -/
def Session.guarded (session : Session) : Guarded.Session :=
  ⟨session.constants, session.players.guarded⟩

namespace Guarded.Session

/-- Both start alike. -/
theorem initial_guarded : Workshop.Session.initial.guarded = initial :=
  congrArg (fun counters => Session.mk .empty ⟨⟨.empty, 0⟩, counters⟩) SlotCounters.guarded_zero

/-- Both start a program alike. -/
theorem bindings_guarded (session : Workshop.Session) :
    session.guarded.bindings = session.bindings.guarded :=
  congrArg (fun counters => Bindings.mk session.constants session.players.guarded
    ⟨[⟨.empty, 0⟩], counters⟩) SlotCounters.guarded_zero.symm

/-- One program has no fault. -/
theorem compile_guarded (session : Workshop.Session) (catalog : Catalog) (node : Node) :
    session.guarded.compile catalog node =
      .ok ((session.compile catalog node).outcome,
        (session.compile catalog node).session.guarded) := by
  have hmirrors : image.Mirrors id (catalog.program node) (catalog.program node) :=
    BindingsImage.mirrors_program node
  have hprogram : catalog.program node ⟨session.bindings.guarded, #[]⟩ = _ :=
    hmirrors ⟨session.bindings, #[]⟩
  rw [compile, bindings_guarded, hprogram, Workshop.Session.compile]
  cases catalog.program node ⟨session.bindings, #[]⟩ with
  | ok text state => rfl
  | error error state => rfl

/-- Nor have the others. -/
theorem outcomes_guarded (session : Workshop.Session) (catalog : Catalog)
    (programs : List (Node × CompileOptions)) :
    session.guarded.outcomes catalog programs = .ok (session.outcomes catalog programs) := by
  induction programs generalizing session with
  | nil => rfl
  | cons program rest ih =>
      rcases program with ⟨node, options⟩
      rw [outcomes, compile_guarded, Workshop.Session.outcomes]
      change (session.compile catalog node).session.guarded.outcomes catalog rest >>= _ = _
      rw [ih]
      rfl

end Guarded.Session

/-- Compiling never faults.  Whatever trees are compiled in one session, whether they are accepted
or not, and however they are written: every template gets one text for each parameter and reads no
other, every bank from which a slot is taken has a counter, and there is a scope whenever the
innermost one is used.  So every program has the same outcome with guarded accesses, a text or an
error. -/
theorem compiling_never_faults (catalog : Catalog) (programs : List (Node × CompileOptions)) :
    Guarded.Session.initial.outcomes catalog programs =
      .ok (Session.initial.outcomes catalog programs) := by
  rw [← Guarded.Session.initial_guarded]
  exact Guarded.Session.outcomes_guarded .initial catalog programs

end Workshop

import Workshop.Proofs.Reading.Rules

/-!
# Progress of the grammar

The rules of the grammar call each other, and each of them is given the readers
of nested atoms and expressions.  This module compares what a rule does with two
pairs of nested readers on one stream.  If these do the same on all streams with
fewer than `bound` tokens, then the rules do the same on streams with one token
more.

Main definitions:

- `Coincide`: two readers that do the same on short streams, and consume tokens.
- `Grammar.Nested`: two pairs of nested readers that coincide.
- `Pairing.identical`: every token corresponds to itself.

Main results:

- Theorem `coincide_iff`: readers coincide if they agree on identical streams.
- Theorem `Grammar.nested_iff`: so do pairs of nested readers.
-/

namespace Workshop

variable {α : Type} {taken bound : Nat} {parse parse' : Parse α}

/-- Two readers that do the same on streams with fewer than `bound` tokens, and that consume at
least `taken` tokens when they succeed there. -/
def Coincide (taken bound : Nat) (parse parse' : Parse α) : Prop :=
  ∀ stream : TokenStream, stream.ahead.length < bound →
    parse' stream = parse stream ∧
    ∀ a rest, parse stream = .ok a rest → rest.ahead.length + taken ≤ stream.ahead.length

/-- Every token corresponds to itself, and every fault. -/
def Pairing.identical : Pairing where
  token first second := second = first
  ends first second := second = first
  strict := True
  word_eq htoken := congrArg Token.word htoken
  token_eq _ htoken := htoken
  isSome_eq hends := congrArg Option.isSome hends

/-- Every stream is identical to itself. -/
theorem Pairing.alike_identical (stream : TokenStream) : identical.Alike stream stream :=
  ⟨List.forall₂_same.2 fun _ _ => rfl, rfl, fun _ => rfl⟩

/-- Readers coincide if they agree on identical streams. -/
theorem coincide_iff :
    Coincide taken bound parse parse' ↔ Pairing.identical.Agrees taken bound Eq parse parse' := by
  constructor
  · intro hparse first second halike hlength
    cases halike.same trivial
    rcases hparse first hlength with ⟨hsame, hrest⟩
    rw [hsame]
    cases hrun : parse first with
    | ok a rest => exact .ok ⟨rfl, Pairing.alike_identical rest, hrest a rest hrun⟩
    | error diagnostic rest =>
        exact .error (fun hloose => absurd trivial hloose) fun _ => ⟨rfl, rfl⟩
  · intro hparse stream hlength
    have hends := hparse (Pairing.alike_identical stream) hlength
    generalize parse stream = run, parse' stream = run' at hends
    cases hends with
    | error _ hsame =>
        rcases hsame trivial with ⟨rfl, rfl⟩
        refine ⟨rfl, fun a rest hok => ?_⟩
        cases hok
    | ok hafter =>
        rcases hafter with ⟨rfl, hrest, hle⟩
        refine ⟨by rw [hrest.same trivial], fun a rest hok => ?_⟩
        cases hok
        exact hle

/-- Two pairs of nested readers that do the same on streams with fewer than `bound` tokens, and
consume a token there. -/
structure Grammar.Nested (bound : Nat) (nested nested' : Level) : Prop where
  atom : Coincide 1 bound nested.atom nested'.atom
  expression : Coincide 1 bound nested.expression nested'.expression

/-- Nested readers coincide if they agree on identical streams. -/
theorem Grammar.nested_iff {nested nested' : Level} :
    Nested bound nested nested' ↔ Pairing.identical.Nested bound nested nested' :=
  ⟨fun hnested => ⟨coincide_iff.1 hnested.atom, coincide_iff.1 hnested.expression⟩,
    fun hnested => ⟨coincide_iff.2 hnested.atom, coincide_iff.2 hnested.expression⟩⟩

end Workshop

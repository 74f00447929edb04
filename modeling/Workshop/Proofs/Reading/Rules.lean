import Workshop.Proofs.Reading.Correspondence

/-!
# The grammar side by side

Each rule of the grammar is read side by side from two token streams that correspond,
with two pairs of nested readers.  If the nested readers agree on streams with fewer
than `bound` tokens, then the rules agree on streams with one token more: a rule uses
its nested readers only after it has consumed a token.  Both readings end in the same
way.  If they succeed they give the same tree.

Main definitions:

- `Pairing.Nested`: two pairs of nested readers that agree.
- `Pairing.itself`: the tokens of a stream, each of which corresponds to itself.

Main results:

- Theorems `Pairing.Nested.atom_rule` and `Pairing.Nested.expression_rule`: one more
  level of nesting.
- Theorem `Pairing.program`: whole scripts.
- Theorem `Pairing.parseWith`: two source texts whose tokens correspond.
- Theorem `Script.fault_eq_none_of_parse`: no fault is left in a script.
-/

namespace Workshop
namespace Pairing

open Agrees
open Grammar (Level)

variable {pairing : Pairing} {bound : Nat} {token token' dot dot' : Token} {nested nested' : Level}

/-- Two pairs of nested readers that end in the same way on streams with fewer than `bound` tokens,
and consume a token there. -/
structure Nested (pairing : Pairing) (bound : Nat) (nested nested' : Level) : Prop where
  atom : pairing.Agrees 1 bound Eq nested.atom nested'.atom
  expression : pairing.Agrees 1 bound Eq nested.expression nested'.expression

/-! ## Operators, calls and members -/

/-- The operator that comes next is the same. -/
theorem nextOperator :
    pairing.Agrees 0 bound Eq Grammar.nextOperator Grammar.nextOperator :=
  lookAhead
    (fun word => if word.kind == .operator then BinaryOperator.ofSymbol? word.text else none)
    none rfl

section Operators

variable {atom atom' : Parse Node}

/-- Operators, each with its right operand. -/
theorem operatorTail (hatom : pairing.Agrees 1 bound Eq atom atom') (fuel : Nat) :
    pairing.Agrees 0 bound Eq (Grammar.operatorTail atom fuel)
      (Grammar.operatorTail atom' fuel) := by
  induction fuel generalizing bound with
  | zero => exact pure rfl
  | succ fuel ih =>
      refine nextOperator.bind fun operator => ?_
      cases operator with
      | none => exact pure rfl
      | some operator =>
          refine (advance _).andThen ?_
          refine (hatom.mono (Nat.le_refl _) (by omega)).bind fun right => ?_
          refine (ih (hatom.mono (Nat.le_refl _) (by omega))).bind fun rest => ?_
          exact pure rfl

/-- Operands with operators between them. -/
theorem operation (hatom : pairing.Agrees 1 bound Eq atom atom') :
    pairing.Agrees 1 bound Eq (Grammar.operation atom) (Grammar.operation atom') := by
  refine hatom.bind fun operand => ?_
  refine get fun first second hlength => ?_
  rw [hlength]
  refine (operatorTail (hatom.mono (Nat.le_refl _) (Nat.sub_le _ _)) _).bind fun tail => ?_
  exact pure rfl

end Operators

/-- Both chains get the same receiver, or both dots are to blame. -/
theorem attached (hdot : pairing.token dot dot') (receiver chain : Node) :
    pairing.Agrees 0 bound Eq (Grammar.attached receiver dot chain)
      (Grammar.attached receiver dot' chain) := by
  unfold Grammar.attached
  cases Node.attach receiver chain with
  | ok longer => exact pure rfl
  | error culprit => exact misplaced hdot _

namespace Nested

variable (hnested : pairing.Nested bound nested nested')

include hnested

/-- Nested readers that agree on more tokens. -/
theorem mono {bound' : Nat} (hle : bound' ≤ bound) : pairing.Nested bound' nested nested' :=
  ⟨hnested.atom.mono (Nat.le_refl _) hle, hnested.expression.mono (Nat.le_refl _) hle⟩

/-- The arguments behind a phrase, and the members of the call. -/
theorem callSuffix (head : Node) :
    pairing.Agrees 0 (bound + 1) Eq (Grammar.callSuffix nested head)
      (Grammar.callSuffix nested' head) := by
  refine ifThenElse (nextIs _ _) ?_ (pure rfl)
  refine (delimitedSame "(" ")" "," hnested.expression).bind fun arguments => ?_
  refine ifThenElse (nextIs _ _) ?_ (pure rfl)
  refine (advance _).bindWith fun dot dot' hdot => ?_
  refine (hnested.atom.mono (Nat.le_refl _) (by omega)).bind fun chain => ?_
  exact attached hdot _ _

/-! ## Names -/

/-- An assignment behind its target. -/
theorem assignment (htoken : pairing.token token token') :
    pairing.Agrees 0 bound Eq (Grammar.assignment nested token)
      (Grammar.assignment nested' token') := by
  refine (expectOperator "=").andThen ?_
  rw [text_eq htoken]
  refine ifSame (by rw [kind_eq htoken]) ?_ (misplaced htoken _)
  refine (operation (hnested.atom.mono (Nat.le_refl _) (Nat.sub_le _ _))).bind fun value => ?_
  exact pure rfl

omit hnested in
/-- A name or the player. -/
theorem nameOf (htoken : pairing.token token token') :
    pairing.Agrees 0 bound Eq (Grammar.nameOf token) (Grammar.nameOf token') := by
  unfold Grammar.nameOf
  rw [text_eq htoken]
  refine ifSame (by rw [kind_eq htoken]) (pure rfl) ?_
  exact ifSame (is_eq htoken _ _) (pure rfl) (misplaced htoken _)

omit hnested in
/-- The keyword that comes next is the same. -/
theorem nextKeywordMember :
    pairing.Agrees 0 bound Eq Grammar.nextKeywordMember Grammar.nextKeywordMember :=
  lookAhead
    (fun word => if word.kind == .keyword && word.text != "player" then some word.text else none)
    none rfl

/-- What follows the dot behind a name. -/
theorem memberOf (receiver : Node) (hdot : pairing.token dot dot') :
    pairing.Agrees 0 bound Eq (Grammar.memberOf nested receiver dot)
      (Grammar.memberOf nested' receiver dot') := by
  have hchain : pairing.Agrees 0 bound Eq
      (do let chain ← nested.atom; Grammar.attached receiver dot chain)
      (do let chain ← nested'.atom; Grammar.attached receiver dot' chain) :=
    hnested.atom.bind fun chain => attached hdot _ _
  unfold Grammar.memberOf
  cases receiver with
  | identifier name inner =>
      refine nextKeywordMember.bind fun member => ?_
      cases member with
      | none => exact hchain
      | some member => exact (advance _).andThen (pure rfl)
  | _ => exact hchain

/-- A phrase behind its first name. -/
theorem named (htoken : pairing.token token token') :
    pairing.Agrees 0 bound Eq (Grammar.named nested token) (Grammar.named nested' token') := by
  refine ifThenElse (nextIs _ _) (hnested.assignment htoken) ?_
  refine (nameOf htoken).bind fun name => ?_
  refine ifThenElse (nextIs _ _) ?_ (pure rfl)
  refine (advance _).bindWith fun dot dot' hdot => ?_
  exact (hnested.mono (Nat.sub_le _ _)).memberOf name hdot

/-- A declaration behind its type. -/
theorem declaration (htoken : pairing.token token token') :
    pairing.Agrees 0 bound Eq (Grammar.declaration nested token)
      (Grammar.declaration nested' token') := by
  have hdeclared (perPlayer : Bool) (left : Nat) (hleft : left ≤ bound) :
      pairing.Agrees 0 left Eq
      (do
        let name ← TokenStream.expectIdentifier
        Grammar.declarationEnd nested token.text name.text perPlayer)
      (do
        let name ← TokenStream.expectIdentifier
        Grammar.declarationEnd nested' token'.text name.text perPlayer) := by
    refine expectIdentifier.bindWith fun name name' hname => ?_
    rw [text_eq htoken, text_eq hname]
    refine ifThenElse (nextIs _ _) ?_ (pure rfl)
    refine (advance _).andThen ?_
    refine (operation (hnested.atom.mono (Nat.le_refl _) (by omega))).bind fun initial => ?_
    exact pure rfl
  refine (nextIs _ _).bind fun perPlayer => ?_
  cases perPlayer with
  | false => exact hdeclared false bound (Nat.le_refl _)
  | true =>
      refine (advance _).andThen ?_
      refine (expectOperator ".").andThen ?_
      exact hdeclared true _ (by omega)

/-! ## Keywords -/

/-- A choice between branches. -/
theorem choice :
    pairing.Agrees 1 (bound + 1) Eq (Grammar.choice nested) (Grammar.choice nested') := by
  refine (expect .keyword ["if"]).andThen ?_
  refine hnested.expression.bind fun condition => ?_
  refine (hnested.expression.mono (Nat.le_refl _) (by omega)).bind fun thenBranch => ?_
  refine ifThenElse (nextIs _ _) ?_ (pure rfl)
  refine (advance _).andThen ?_
  refine (hnested.expression.mono (Nat.le_refl _) (by omega)).bind fun elseBranch => ?_
  exact pure rfl

/-- A block of statements. -/
theorem block :
    pairing.Agrees 1 (bound + 1) Eq (Grammar.block nested) (Grammar.block nested') :=
  (delimitedSame _ _ _ hnested.expression).bind fun _ => pure rfl

/-- The definition of a constant. -/
theorem constant :
    pairing.Agrees 1 (bound + 1) Eq (Grammar.constant nested) (Grammar.constant nested') := by
  refine (expect .keyword ["const"]).andThen ?_
  refine expectIdentifier.bindWith fun name name' hname => ?_
  refine (expectOperator "=").andThen ?_
  refine (operation (hnested.atom.mono (Nat.le_refl _) (by omega))).bind fun value => ?_
  rw [text_eq hname]
  exact pure rfl

omit hnested in
/-- The name of a rule. -/
theorem ruleName : pairing.Agrees 1 bound pairing.token Grammar.ruleName Grammar.ruleName :=
  accept "a rule name" (fun word => word.kind == .string) (.expected "a string") rfl

omit hnested in
/-- The event of a rule. -/
theorem ruleEvent : pairing.Agrees 1 bound pairing.token Grammar.ruleEvent Grammar.ruleEvent := by
  refine (expect .identifier ["Event"]).andThen ?_
  refine (expectOperator ".").andThen ?_
  refine (advance _).bindWith fun event event' hevent => ?_
  refine ifSame (by rw [kind_eq hevent]) ?_ (misplaced hevent _)
  have harguments : pairing.Agrees 2 (bound + 1) (List.Forall₂ pairing.token)
      (TokenStream.delimited "(" ")" "," (TokenStream.advance "an event argument"))
      (TokenStream.delimited "(" ")" "," (TokenStream.advance "an event argument")) :=
    delimited _ _ _ (advance _)
  exact (harguments.mono (Nat.le_refl _) (by omega)).andThen (pure hevent)

/-- The conditions of a rule. -/
theorem ruleConditions :
    pairing.Agrees 0 bound Eq (Grammar.ruleConditions nested)
      (Grammar.ruleConditions nested') := by
  refine ifThenElse (nextIs _ _) ?_ (pure rfl)
  refine (advance _).andThen ?_
  have hlist := delimitedSame "(" ")" ";" hnested.expression
  exact (hlist.mono (Nat.le_refl _) (by omega)).bind fun _ => pure rfl

/-- A rule with its event, conditions and actions. -/
theorem rule :
    pairing.Agrees 1 (bound + 1) Eq (Grammar.rule nested) (Grammar.rule nested') := by
  refine (expect .keyword ["rule"]).andThen ?_
  refine ruleName.bindWith fun name name' hname => ?_
  refine (expectOperator ":").andThen ?_
  refine ruleEvent.bindWith fun event event' hevent => ?_
  refine (hnested.mono (by omega)).ruleConditions.bind fun conditions => ?_
  have hlist := delimitedSame "\x7b" "\x7d" ";" hnested.expression
  refine (hlist.mono (Nat.le_refl _) (by omega)).bind fun actions => ?_
  rw [text_eq hname, text_eq hevent]
  exact pure rfl

omit hnested in
/-- A truth value. -/
theorem boolean : pairing.Agrees 1 bound Eq Grammar.boolean Grammar.boolean := by
  refine (expect .keyword ["true", "false"]).bindWith fun token token' htoken => ?_
  rw [text_eq htoken]
  exact pure rfl

/-- A negation. -/
theorem negation :
    pairing.Agrees 1 (bound + 1) Eq (Grammar.negation nested) (Grammar.negation nested') := by
  refine (expectOperator "!").andThen ?_
  exact hnested.expression.bind fun _ => pure rfl

omit hnested in
/-- The choice of a bank. -/
theorem useBank : pairing.Agrees 1 bound Eq Grammar.useBank Grammar.useBank := by
  refine (advance _).andThen ?_
  refine (expect .keyword ["global", "player"]).bindWith fun domain domain' hdomain => ?_
  refine (advance _).bindWith fun letter letter' hletter => ?_
  have hbank : Grammar.bankOf? letter' = Grammar.bankOf? letter := by
    unfold Grammar.bankOf?
    rw [text_eq hletter, kind_eq hletter]
  rw [hbank, text_eq hdomain]
  cases Grammar.bankOf? letter with
  | some bank => exact pure rfl
  | none => exact misplaced hletter _

/-- An expression in parentheses. -/
theorem parenthesised :
    pairing.Agrees 1 (bound + 1) Eq (Grammar.parenthesised nested)
      (Grammar.parenthesised nested') := by
  refine (advance _).andThen ?_
  refine hnested.expression.bind fun inner => ?_
  exact (expectOperator ")").andThen (pure rfl)

/-- A declaration, or a phrase that starts with a name. -/
theorem worded :
    pairing.Agrees 1 (bound + 1) Eq (Grammar.worded nested) (Grammar.worded nested') := by
  refine (advance _).bindWith fun leading leading' hleading => ?_
  refine ifThenElse (nextHasKind _) (hnested.declaration hleading) ?_
  exact ifThenElse (nextIs _ _) (hnested.declaration hleading) (hnested.named hleading)

/-! ## Atoms and expressions -/

/-- Tokens that correspond start the same kind of phrase. -/
theorem startingWith (htoken : pairing.token token token') :
    pairing.Agrees 1 (bound + 1) Eq (Grammar.startingWith nested token)
      (Grammar.startingWith nested' token') := by
  unfold Grammar.startingWith
  rw [text_eq htoken]
  refine ifSame (is_eq htoken _ _) hnested.parenthesised ?_
  refine ifSame (is_eq htoken _ _) hnested.block ?_
  refine ifSame (is_eq htoken _ _) hnested.choice ?_
  refine ifSame (is_eq htoken _ _) hnested.constant ?_
  refine ifSame (is_eq htoken _ _) hnested.rule ?_
  refine ifSame (by rw [is_eq htoken, is_eq htoken]) boolean ?_
  refine ifSame (is_eq htoken _ _) hnested.negation ?_
  refine ifSame (is_eq htoken _ _) useBank ?_
  refine ifSame (by rw [kind_eq htoken, is_eq htoken, is_eq htoken]) hnested.worded ?_
  refine ifSame (by rw [kind_eq htoken]) ((advance _).andThen (pure rfl)) ?_
  refine ifSame (by rw [kind_eq htoken]) ((advance _).andThen (pure rfl)) ?_
  exact (advance _).andThen (misplaced htoken _)

/-- An atom uses its nested readers only after it has consumed a token. -/
theorem atom_rule :
    pairing.Agrees 1 (bound + 1) Eq (Grammar.atom nested) (Grammar.atom nested') := by
  have hprimary : pairing.Agrees 1 (bound + 1) Eq (Grammar.primary nested)
      (Grammar.primary nested') :=
    bindPeek (fun hends => unexpectedEnd hends _) fun _ _ htoken _ => hnested.startingWith htoken
  refine hprimary.bind fun node => ?_
  exact (hnested.callSuffix node).mono (Nat.le_refl _) (Nat.sub_le _ _)

/-- An expression uses its nested readers only after it has consumed a token. -/
theorem expression_rule :
    pairing.Agrees 1 (bound + 1) Eq (Grammar.expression nested) (Grammar.expression nested') := by
  refine (operation hnested.atom_rule).bind fun node => ?_
  exact (hnested.callSuffix node).mono (Nat.le_refl _) (Nat.sub_le _ _)

end Nested

/-- Where no token is left, both readings fail. -/
theorem noExpression :
    pairing.Agrees 1 1 Eq Grammar.noExpression Grammar.noExpression := by
  have hpeek : Grammar.noExpression =
      (TokenStream.peek >>= fun _ => throw (.unexpectedEnd "an expression")) := by
    funext stream
    simp only [Grammar.noExpression, Bind.bind, EStateM.bind, Functor.discard, Functor.mapConst,
      Function.comp_apply, EStateM.map]
    cases TokenStream.peek stream <;> rfl
  rw [hpeek]
  exact bindPeek (fun hends => unexpectedEnd hends _)
    fun _ _ _ hmore => absurd hmore (Nat.lt_irrefl 1)

/-- The readers for a number of tokens do the same on both streams.  Every level of nesting takes
a token, so that the levels do not run out. -/
theorem level (depth : Nat) :
    pairing.Nested (depth + 1) (Grammar.level depth) (Grammar.level depth) := by
  induction depth with
  | zero => exact ⟨noExpression, noExpression⟩
  | succ depth ih => exact ⟨ih.atom_rule, ih.expression_rule⟩

/-! ## Scripts -/

/-- The statements of two scripts.  Behind the last one no fault is left. -/
theorem statements {expression expression' : Parse Node}
    (hexpression : pairing.Agrees 1 bound Eq expression expression') {fuel : Nat}
    (hfuel : bound ≤ fuel) :
    pairing.Agrees 0 bound (fun nodes nodes' => nodes = nodes' ∧ pairing.ends none none)
      (Grammar.statements expression fuel) (Grammar.statements expression' fuel) := by
  induction fuel generalizing bound with
  | zero => exact zero.mono (Nat.le_refl _) hfuel
  | succ fuel ih =>
      have hrest (statement : Node) (left : Nat) (hleft : left ≤ bound - 1) :
          pairing.Agrees 0 left (fun nodes nodes' => nodes = nodes' ∧ pairing.ends none none)
            (do let rest ← Grammar.statements expression fuel; Pure.pure (statement :: rest))
            (do let rest ← Grammar.statements expression' fuel; Pure.pure (statement :: rest)) := by
        refine (ih (hexpression.mono (Nat.le_refl _) (by omega)) (by omega)).bindWith ?_
        rintro rest _ ⟨rfl, hends⟩
        exact pure ⟨rfl, hends⟩
      refine ifAtEnd (fun hends => pure ⟨rfl, hends⟩) ?_
      refine hexpression.bind fun statement => ?_
      refine ifThenElse atEnd (hrest statement _ (Nat.le_refl _)) ?_
      exact expectSemicolon.bind fun _ => hrest statement _ (by omega)

/-- Two scripts are read side by side. -/
theorem program :
    pairing.Agrees 0 bound (fun tree tree' => tree = tree' ∧ pairing.ends none none)
      Grammar.program Grammar.program := by
  intro first second halike hlength
  have hlength_eq := halike.ahead.length_eq.symm
  have hstatements : pairing.Agrees 0 (first.ahead.length + 1)
      (fun tree tree' => tree = tree' ∧ pairing.ends none none)
      (do
        let statements ← Grammar.statements (Grammar.level first.ahead.length).expression
          (first.ahead.length + 1)
        Pure.pure (Node.block statements))
      (do
        let statements ← Grammar.statements (Grammar.level second.ahead.length).expression
          (second.ahead.length + 1)
        Pure.pure (Node.block statements)) := by
    rw [hlength_eq]
    refine (statements (level first.ahead.length).expression (Nat.le_refl _)).bindWith ?_
    rintro nodes _ ⟨rfl, hends⟩
    exact pure ⟨rfl, hends⟩
  exact hstatements halike (Nat.lt_succ_self _)

/-! ## Source texts -/

section Sources

variable {vocabulary : Vocabulary} {source source' : String} {tree : Node} {rest : TokenStream}
  {diagnostic : Diagnostic}

/-- A source text whose tokens are read. -/
theorem parseWith_of_ok
    (hrun : Grammar.program (TokenStream.ofSource vocabulary source) = .ok tree rest) :
    Script.parseWith vocabulary source = .ok tree := by
  unfold TokenStream.ofSource at hrun
  simp only [Script.parseWith, Script.read, hrun]

/-- A source text whose tokens cannot be read. -/
theorem parseWith_of_error
    (hrun : Grammar.program (TokenStream.ofSource vocabulary source) = .error diagnostic rest) :
    Script.parseWith vocabulary source = .error diagnostic := by
  unfold TokenStream.ofSource at hrun
  simp only [Script.parseWith, Script.read, hrun]

/-- Two source texts whose tokens correspond have the same tree, or the same diagnostic. -/
theorem parseWith (hloose : ¬ pairing.strict)
    (halike : pairing.Alike (TokenStream.ofSource vocabulary source)
      (TokenStream.ofSource vocabulary source')) :
    (∃ tree, Script.parseWith vocabulary source = .ok tree ∧
      Script.parseWith vocabulary source' = .ok tree ∧ pairing.ends none none) ∨
    ∃ diagnostic diagnostic', Script.parseWith vocabulary source = .error diagnostic ∧
      Script.parseWith vocabulary source' = .error diagnostic' ∧
      pairing.Fails diagnostic diagnostic' := by
  have hends := program halike (Nat.lt_succ_self _)
  generalize hrun : Grammar.program (TokenStream.ofSource vocabulary source) = run at hends
  generalize hrun' : Grammar.program (TokenStream.ofSource vocabulary source') = run' at hends
  cases hends with
  | @ok tree tree' rest rest' hresult =>
      rcases hresult with ⟨⟨rfl, hfaults⟩, _⟩
      exact .inl ⟨tree, parseWith_of_ok hrun, parseWith_of_ok hrun', hfaults⟩
  | @error diagnostic diagnostic' rest rest' hfails =>
      exact .inr ⟨diagnostic, diagnostic', parseWith_of_error hrun, parseWith_of_error hrun',
        hfails hloose⟩

end Sources

/-- The tokens of a stream, each of which corresponds to itself. -/
def itself (stream : TokenStream) : Pairing where
  token first second := second = first ∧ first ∈ stream.ahead
  ends first second := first = stream.fault ∧ second = stream.fault
  strict := False
  word_eq htoken := congrArg Token.word htoken.1
  token_eq hstrict _ := hstrict.elim
  isSome_eq hends := by rw [hends.1, hends.2]

/-- A stream corresponds to itself. -/
theorem alike_itself (stream : TokenStream) : (itself stream).Alike stream stream :=
  ⟨List.forall₂_same.2 fun _ hmem => ⟨rfl, hmem⟩, ⟨rfl, rfl⟩, fun _ => rfl⟩

end Pairing

/-- There is no fault in a source text that is read to its end. -/
theorem Script.fault_eq_none_of_parse {source : String} {tree : Node}
    (hparse : Script.parse source = .ok tree) :
    (TokenStream.ofSource .standard source).fault = none := by
  have halike := Pairing.alike_itself (TokenStream.ofSource .standard source)
  rcases Pairing.parseWith not_false halike with ⟨_, _, _, hfault⟩ | ⟨_, _, herror, _⟩
  · exact hfault.1.symm
  · cases hparse.symm.trans herror

end Workshop

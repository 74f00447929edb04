import Workshop.Proofs.Reading.Correspondence
import Workshop.Proofs.Reading.Readers

/-!
# Reading phrases

For every rule of the grammar, what it reads from which words.  The phrases
inside are read by the level below, about which nothing else is known.

Main definitions:

- `NameWord`, `StartsWorded`: words that start a phrase with a name.
- `declared`, `ruleHeader`: the fixed words of declarations and rules.

Main results:

- Theorem `Reads.primary`: the first word of a phrase decides how it is read.
- Theorems `Reads.primary_name`, `Reads.primary_rule` and others: the phrases.
-/

namespace Workshop

open TokenStream Grammar

variable {word : Word} {words before middle last after : List Word} {nested : Level}
  {node value condition thenBranch elseBranch : Node} {nodes : List Node}

/-! ## First words -/

namespace Reads

variable {result : Node → Prop}

/-- The first word of an atom decides how it is read. -/
theorem primary (parse : Parse Node)
    (hselects : ∀ token : Token, token.kind = word.kind → token.text = word.text →
      startingWith nested token = parse)
    (hparse : Reads parse (word :: words) result after) :
    Reads (Grammar.primary nested) (word :: words) result after := by
  refine peek_cons.bind ?_
  rintro _ ⟨token, rfl, htoken⟩
  have hselected := hselects token (Token.kind_eq htoken) (Token.text_eq htoken)
  rw [← hselected] at hparse
  exact hparse

end Reads

/-! ## Brackets and keywords -/

namespace Reads

/-- A number is read. -/
theorem primary_number (digits : String) :
    Reads (Grammar.primary nested) (⟨.number, digits⟩ :: words) (· = .number digits) words := by
  refine primary (Functor.discard (TokenStream.advance "a number") >>= fun _ =>
    Pure.pure (.number digits)) (fun token hkind htext => ?_) ?_
  · simp [startingWith, Token.is, hkind, htext]
  · exact (advance _).andThen (pure rfl)

/-- A text is read. -/
theorem primary_text (body : String) :
    Reads (Grammar.primary nested) (⟨.string, body⟩ :: words) (· = .text body) words := by
  refine primary (Functor.discard (TokenStream.advance "a string") >>= fun _ =>
    Pure.pure (.text body)) (fun token hkind htext => ?_) ?_
  · simp [startingWith, Token.is, hkind, htext]
  · exact (advance _).andThen (pure rfl)

/-- A truth value is read. -/
theorem primary_boolean (value : Bool) :
    Reads (Grammar.primary nested) (⟨.keyword, if value then "true" else "false"⟩ :: words)
      (· = .boolean value) words := by
  refine primary Grammar.boolean (fun token hkind htext => ?_) ?_
  · cases value <;> simp [startingWith, Token.is, hkind, htext]
  · refine (expect ?_).bind fun token htoken => pure ?_
    · cases value <;> rfl
    · rw [Token.text_eq htoken]
      cases value <;> rfl

/-- What stands in parentheses is read. -/
theorem primary_parenthesised
    (hinner : Reads nested.expression before (· = node) (⟨.operator, ")"⟩ :: after)) :
    Reads (Grammar.primary nested) (⟨.operator, "("⟩ :: before) (· = node) after := by
  refine primary (Grammar.parenthesised nested) (fun token hkind htext => ?_) ?_
  · simp [startingWith, Token.is, hkind, htext]
  · refine (advance _).andThen (hinner.result ?_)
    exact (expectOperator ")").andThen (pure rfl)

/-- A negation is read. -/
theorem primary_negation (hoperand : Reads nested.expression before (· = node) after) :
    Reads (Grammar.primary nested) (⟨.operator, "!"⟩ :: before) (· = .negation node) after := by
  refine primary (Grammar.negation nested) (fun token hkind htext => ?_) ?_
  · simp [startingWith, Token.is, hkind, htext]
  · exact (expectOperator "!").andThen (hoperand.result (pure rfl))

/-- A block is read. -/
theorem primary_block
    (hnodes : Reads (TokenStream.delimited "\x7b" "\x7d" ";" nested.expression)
      (⟨.operator, "\x7b"⟩ :: before) (· = nodes) after) :
    Reads (Grammar.primary nested) (⟨.operator, "\x7b"⟩ :: before) (· = .block nodes) after := by
  refine primary (Grammar.block nested) (fun token hkind htext => ?_) ?_
  · simp [startingWith, Token.is, hkind, htext]
  · exact hnodes.result (pure rfl)

/-- A constant is read. -/
theorem primary_constant (name : String)
    (hvalue : Reads (operation nested.atom) before (· = value) after) :
    Reads (Grammar.primary nested)
      (⟨.keyword, "const"⟩ :: ⟨.identifier, name⟩ :: ⟨.operator, "="⟩ :: before)
      (· = .constant name value) after := by
  refine primary (Grammar.constant nested) (fun token hkind htext => ?_) ?_
  · simp [startingWith, Token.is, hkind, htext]
  · refine (expect rfl).andThen ((expectIdentifier name).bind fun token htoken => ?_)
    refine (expectOperator "=").andThen (hvalue.result ?_)
    exact pure (by rw [Token.text_eq htoken])

/-- A choice without a second branch.  The keyword for one does not come next. -/
theorem primary_choice (hcondition : Reads nested.expression before (· = condition) middle)
    (hthen : Reads nested.expression middle (· = thenBranch) after)
    (helse : (after.head?.any fun word => word.kind == .keyword && ["else"].contains word.text) =
      false) :
    Reads (Grammar.primary nested) (⟨.keyword, "if"⟩ :: before)
      (· = .choice condition thenBranch none) after := by
  refine primary (Grammar.choice nested) (fun token hkind htext => ?_) ?_
  · simp [startingWith, Token.is, hkind, htext]
  · refine (expect rfl).andThen (hcondition.result (hthen.result ?_))
    exact ifFalse (nextIs _ _) helse (pure rfl)

/-- A choice with two branches is read. -/
theorem primary_choiceElse (hcondition : Reads nested.expression before (· = condition) middle)
    (hthen : Reads nested.expression middle (· = thenBranch) (⟨.keyword, "else"⟩ :: last))
    (helse : Reads nested.expression last (· = elseBranch) after) :
    Reads (Grammar.primary nested) (⟨.keyword, "if"⟩ :: before)
      (· = .choice condition thenBranch (some elseBranch)) after := by
  refine primary (Grammar.choice nested) (fun token hkind htext => ?_) ?_
  · simp [startingWith, Token.is, hkind, htext]
  · refine (expect rfl).andThen (hcondition.result (hthen.result ?_))
    refine ifTrue (nextIs _ _) rfl ((advance _).andThen ?_)
    exact helse.result (pure rfl)

/-- The choice of a bank is read. -/
theorem primary_useBank (domain : Domain) (bank : Bank) :
    Reads (Grammar.primary nested) (⟨.keyword, "usevar"⟩ :: ⟨.keyword, domain.keyword⟩ ::
      ⟨.identifier, bank.text⟩ :: words) (· = .useBank domain bank) words := by
  refine primary Grammar.useBank (fun token hkind htext => ?_) ?_
  · simp [startingWith, Token.is, hkind, htext]
  refine (advance _).andThen ((expect ?_).bind fun domainToken hdomain => ?_)
  · cases domain <;> rfl
  refine (advance _).bind fun letter hletter => ?_
  have hbank : bankOf? letter = some bank := by
    unfold bankOf?
    rw [Token.text_eq hletter, Token.kind_eq hletter]
    simp [Bank.text, Bank.ofLetter?_letter]
  rw [hbank]
  apply pure
  rw [Token.text_eq hdomain]
  cases domain <;> rfl

end Reads

/-! ## Names -/

/-- The words that start a chain, with the nodes that they stand for. -/
inductive NameWord : Word → Node → Prop where
  | name (text : String) : NameWord ⟨.identifier, text⟩ (.identifier text none)
  | player : NameWord ⟨.keyword, "player"⟩ .player

/-- Words that start a declaration or a phrase with a name. -/
def StartsWorded (word : Word) : Prop :=
  word.kind = .identifier ∨ word = ⟨.keyword, "player"⟩ ∨ word = ⟨.keyword, "var"⟩

/-- Names start a phrase. -/
theorem NameWord.startsWorded (hname : NameWord word node) : StartsWorded word := by
  cases hname with
  | name text => exact .inl rfl
  | player => exact .inr (.inl rfl)

/-- The first word selects the reader. -/
theorem StartsWorded.selects (hstarts : StartsWorded word) (nested : Level) (token : Token)
    (hkind : token.kind = word.kind) (htext : token.text = word.text) :
    startingWith nested token = worded nested := by
  rcases hstarts with hidentifier | rfl | rfl
  · rw [hidentifier] at hkind
    simp [startingWith, Token.is, hkind]
  · simp [startingWith, Token.is, hkind, htext]
  · simp [startingWith, Token.is, hkind, htext]

namespace Reads

variable {result : Node → Prop}

/-- A name is read. -/
theorem nameOf {token : Token} (hname : NameWord token.word node) :
    Reads (Grammar.nameOf token) words (· = node) words := by
  generalize hword : token.word = word at hname
  unfold Grammar.nameOf
  cases hname with
  | name text =>
      rw [if_pos (by simp [Token.kind_eq hword])]
      exact pure (by rw [Token.text_eq hword])
  | player =>
      rw [if_neg (by simp [Token.kind_eq hword]), if_pos]
      · exact pure rfl
      · exact Token.is_iff.2 ⟨Token.kind_eq hword, Token.text_eq hword⟩

/-- A name with nothing behind it that belongs to it, and that starts no declaration. -/
theorem primary_name (hname : NameWord word node)
    (hkind : (words.head?.any fun word => word.kind == .identifier) = false)
    (hplayer : (words.head?.any fun word =>
      word.kind == .keyword && ["player"].contains word.text) = false)
    (hequals : NoWord "=" words) (hdot : NoWord "." words) :
    Reads (Grammar.primary nested) (word :: words) (· = node) words := by
  refine primary (worded nested) (hname.startsWorded.selects nested) ((advance _).bind ?_)
  rintro token rfl
  refine ifFalse (nextHasKind _) hkind (ifFalse (nextIs _ _) hplayer ?_)
  refine ifFalse (nextIs _ _) (nextIs_false hequals) ((nameOf hname).result ?_)
  exact ifFalse (nextIs _ _) (nextIs_false hdot) (pure rfl)

/-- An operator behind a name leaves it to the phrase that starts with the name. -/
theorem primary_named (hword : StartsWorded word) {text : String}
    (hnamed : ∀ token : Token, token.word = word →
      Reads (named nested token) (⟨.operator, text⟩ :: words) result after) :
    Reads (Grammar.primary nested) (word :: ⟨.operator, text⟩ :: words) result after := by
  refine primary (worded nested) (hword.selects nested) ((advance _).bind fun token htoken => ?_)
  exact ifFalse (nextHasKind _) rfl (ifFalse (nextIs _ _) rfl (hnamed token htoken))

/-- An assignment is read. -/
theorem primary_assign (target : String)
    (hvalue : Reads (operation nested.atom) words (· = value) after) :
    Reads (Grammar.primary nested) (⟨.identifier, target⟩ :: ⟨.operator, "="⟩ :: words)
      (· = .assign target none value) after := by
  refine primary_named (.inl rfl) fun token htoken => ?_
  refine ifTrue (nextIs _ _) rfl ((expectOperator "=").andThen ?_)
  rw [if_pos (by simp [Token.kind_eq htoken])]
  exact hvalue.result (pure (by rw [Token.text_eq htoken]))

/-- A dot behind a name leaves it to the members of the name. -/
theorem primary_dot (hname : NameWord word node)
    (hmembers : ∀ dot, Reads (memberOf nested node dot) words result after) :
    Reads (Grammar.primary nested) (word :: ⟨.operator, "."⟩ :: words) result after := by
  refine primary_named hname.startsWorded ?_
  rintro token rfl
  refine ifFalse (nextIs _ _) rfl ((nameOf hname).result ?_)
  exact ifTrue (nextIs _ _) rfl ((advance _).bind fun dot _ => hmembers dot)

/-- A keyword that could name a member does not come next. -/
theorem nextKeywordMember_none
    (hkeyword : ∀ other ∈ words.head?, other.kind = .keyword → other.text = "player") :
    Reads nextKeywordMember words (· = none) words := by
  cases words with
  | nil => exact peek_nil.result (pure rfl)
  | cons other words =>
      refine peek_cons.bind ?_
      rintro _ ⟨token, rfl, rfl⟩
      apply pure
      rw [if_neg]
      intro htoken
      rw [Bool.and_eq_true, beq_iff_eq, bne_iff_ne] at htoken
      exact htoken.2 (hkeyword token.word rfl htoken.1)

/-- A member that is a keyword. -/
theorem nextKeywordMember_some {member : String} (hmember : member ≠ "player") :
    Reads nextKeywordMember (⟨.keyword, member⟩ :: words) (· = some member)
      (⟨.keyword, member⟩ :: words) := by
  refine peek_cons.bind ?_
  rintro _ ⟨token, rfl, htoken⟩
  exact pure (by simp [Token.kind_eq htoken, Token.text_eq htoken, hmember])

/-- A member of an enumeration is read. -/
theorem primary_enumMember (enumName : String) {member : String} (hmember : member ≠ "player") :
    Reads (Grammar.primary nested)
      (⟨.identifier, enumName⟩ :: ⟨.operator, "."⟩ :: ⟨.keyword, member⟩ :: words)
      (· = .enumMember enumName member) words := by
  refine primary_dot (.name enumName) fun dot => ?_
  exact (nextKeywordMember_some hmember).result ((advance _).andThen (pure rfl))

/-- A chain of members behind the dot. -/
theorem primary_member {chain final : Node} (hname : NameWord word node)
    (hkeyword : ∀ other ∈ words.head?, node ≠ .player → other.kind = .keyword →
      other.text = "player")
    (hchain : Reads nested.atom words (· = chain) after)
    (hattach : Node.attach node chain = .ok final) :
    Reads (Grammar.primary nested) (word :: ⟨.operator, "."⟩ :: words) (· = final) after := by
  refine primary_dot hname fun dot => ?_
  have hmembers : Reads (nested.atom >>= Grammar.attached node dot) words (· = final) after :=
    hchain.result (attached hattach)
  cases hname with
  | name text =>
      exact (nextKeywordMember_none fun other hother => hkeyword other hother (by simp)).result
        hmembers
  | player => exact hmembers

end Reads

/-! ## Declarations and rules -/

/-- The words of a declaration up to the name of the variable. -/
def declared (typeWord : Word) (perPlayer : Bool) (name : String) : List Word :=
  typeWord :: ((if perPlayer then [.keyword "player", .operator "."] else []) ++ [.name name])

/-- The words of a rule up to the arguments of its event. -/
def ruleHeader (name : String) (event : Word) : List Word :=
  [.keyword "rule", ⟨.string, name⟩, .operator ":", .name "Event", .operator ".", event,
    .operator "("]

namespace Reads

/-- A declaration without a first value. -/
theorem declarationEnd_none (hequals : NoWord "=" words) (typeName name : String)
    (perPlayer : Bool) :
    Reads (declarationEnd nested typeName name perPlayer) words
      (· = .declare typeName name perPlayer none) words :=
  ifFalse (nextIs _ _) (nextIs_false hequals) (pure rfl)

/-- A declaration with a first value. -/
theorem declarationEnd_some
    (hvalue : Reads (operation nested.atom) before (· = value) after) (typeName name : String)
    (perPlayer : Bool) :
    Reads (declarationEnd nested typeName name perPlayer) (⟨.operator, "="⟩ :: before)
      (· = .declare typeName name perPlayer (some value)) after :=
  ifTrue (nextIs _ _) rfl ((advance _).andThen (hvalue.result (pure rfl)))

/-- A declaration is read up to the name of the variable. -/
theorem primary_declared {typeWord : Word} {perPlayer : Bool} {name : String}
    {result : Node → Prop} (htype : StartsWorded typeWord)
    (hend : Reads (declarationEnd nested typeWord.text name perPlayer) before result after) :
    Reads (Grammar.primary nested) (declared typeWord perPlayer name ++ before) result after := by
  refine primary (worded nested) (htype.selects nested) ((advance _).bind fun token htoken => ?_)
  cases perPlayer with
  | false =>
      refine ifTrue (nextHasKind _) rfl ((nextIs _ _).result ?_)
      refine (expectIdentifier name).bind fun nameToken hname => ?_
      rw [Token.text_eq htoken, Token.text_eq hname]
      exact hend
  | true =>
      refine ifFalse (nextHasKind _) rfl (ifTrue (nextIs _ _) rfl ((nextIs _ _).result ?_))
      refine (advance _).andThen ((expectOperator ".").andThen ?_)
      refine (expectIdentifier name).bind fun nameToken hname => ?_
      rw [Token.text_eq htoken, Token.text_eq hname]
      exact hend

/-- The name of a rule is read. -/
theorem ruleName (name : String) :
    Reads Grammar.ruleName (⟨.string, name⟩ :: words) (fun token => token.word = ⟨.string, name⟩)
      words := by
  refine (advance _).bind fun token htoken => ?_
  rw [if_pos (by simp [Token.kind_eq htoken])]
  exact pure htoken

/-- The event of a rule is read. -/
theorem ruleEvent {event : Word} (hevent : event.kind = .identifier ∨ event.kind = .keyword)
    (harguments : Reads
      (TokenStream.delimited "(" ")" "," (TokenStream.advance "an event argument"))
      (⟨.operator, "("⟩ :: before) (fun _ => True) after) :
    Reads Grammar.ruleEvent (⟨.identifier, "Event"⟩ :: ⟨.operator, "."⟩ :: event ::
      ⟨.operator, "("⟩ :: before) (fun token => token.word = event) after := by
  refine (expect rfl).andThen ((expectOperator ".").andThen ?_)
  refine (advance _).bind fun token htoken => ?_
  have hkind : (token.kind == .identifier || token.kind == .keyword) = true := by
    rw [Token.kind_eq htoken]
    simpa using hevent
  rw [if_pos hkind]
  exact harguments.andThen (pure htoken)

/-- A rule is read. -/
theorem primary_rule {name : String} {event : Word} {conditions : Option (List Node)}
    {actions : List Node} (hevent : event.kind = .identifier ∨ event.kind = .keyword)
    (harguments : Reads
      (TokenStream.delimited "(" ")" "," (TokenStream.advance "an event argument"))
      (⟨.operator, "("⟩ :: before) (fun _ => True) middle)
    (hconditions : Reads (Grammar.ruleConditions nested) middle (· = conditions)
      (⟨.operator, "\x7b"⟩ :: last))
    (hactions : Reads (TokenStream.delimited "\x7b" "\x7d" ";" nested.expression)
      (⟨.operator, "\x7b"⟩ :: last) (· = actions) after) :
    Reads (Grammar.primary nested) (ruleHeader name event ++ before)
      (· = .rule name event.text conditions actions) after := by
  refine primary (Grammar.rule nested) (fun token hkind htext => ?_) ?_
  · simp [startingWith, Token.is, hkind, htext]
  · refine (expect rfl).andThen ((ruleName name).bind fun nameToken hname => ?_)
    refine (expectOperator ":").andThen ?_
    refine (ruleEvent hevent harguments).bind fun eventToken heventToken => ?_
    refine hconditions.result (hactions.result ?_)
    exact pure (by rw [Token.text_eq hname, Token.text_eq heventToken])

end Reads

end Workshop

import Workshop.Proofs.Reading.ProperTree
import Workshop.Proofs.Reading.Soundness

/-!
# The words of a tree

Every token that the grammar reads is a word that can be written: a name, a
keyword, a number, the body of a string literal or an operator.  So the tree of
a script is proper with respect to these words.

Main definitions:

- `Node.IsWellFormed`: a tree that is proper with respect to these words.
- `Category.Proper`: what a phrase of the grammar stands for is proper.

Main results:

- Theorem `isValid_of_mem_ahead`: the tokens of a source text are valid words.
- Theorem `Derives.proper`: phrases of valid words stand for proper trees.
- Theorem `Script.proper_of_parse`: the words of a tree are words of its source.
- Theorem `Script.isWellFormed_of_parse`: the tree of a script is well formed.
-/

namespace Workshop

/-! ## Tokens -/

theorem isValid_classify_identifier {text : String} (hlike : isWordLike text = true)
    (position : Position) :
    (TokenStream.classify .standard ⟨.identifier, text, position⟩).word.isValid = true := by
  by_cases hkeyword : Vocabulary.standard.isKeyword text = true
  · simp [TokenStream.classify, Token.word, Word.isValid, hkeyword]
  · simp [TokenStream.classify, Token.word, Word.isValid, hkeyword, isName, hlike]

/-- A lexeme that matters to the grammar is a valid word once keywords are told from
identifiers. -/
theorem Lexeme.Maximal.isValid {lexeme : Lexeme} {following : List Char}
    (hmaximal : lexeme.Maximal .standard following) (hkind : lexeme.kind ≠ .blank)
    (position : Position) :
    (TokenStream.classify .standard ⟨lexeme.kind, lexeme.text, position⟩).word.isValid = true := by
  cases hmaximal with
  | @word first others _ hfirst hothers _ =>
      have hlike : isWordLike (String.ofList (first :: others)) = true := by
        simpa [isWordLike, hfirst] using hothers
      exact isValid_classify_identifier hlike position
  | digits hnonempty hdigits _ _ =>
      exact isNumeral_iff.2 ⟨_, hnonempty, hdigits, .inl String.toList_ofList⟩
  | fraction hnonempty hdigits hfraction hfractionDigits _ =>
      exact isNumeral_iff.2
        ⟨_, hnonempty, hdigits, .inr ⟨_, hfraction, hfractionDigits, String.toList_ofList⟩⟩
  | @literal quote body _ hquote hbody =>
      have hliteral : isLiteral (String.ofList body) = true := by
        rw [isLiteral, String.toList_ofList, Bool.or_eq_true]
        rw [isQuote, Bool.or_eq_true, beq_iff_eq, beq_iff_eq] at hquote
        rcases hquote with rfl | rfl
        · exact .inl hbody
        · exact .inr hbody
      simpa [TokenStream.classify, text, Token.word, Word.isValid] using hliteral
  | operator hoperator _ _ _ =>
      simpa [TokenStream.classify, text, Token.word, Word.isValid] using hoperator
  | _ => exact (hkind rfl).elim

theorem Segmented.isValid {input rest : List Char} {lexemes : List Lexeme}
    (hsegmented : Segmented .standard input lexemes rest) (position : Position) :
    ∀ token ∈ tokensFrom position lexemes, token.isSignificant = true →
      (TokenStream.classify .standard token).word.isValid = true := by
  induction hsegmented generalizing position with
  | stop rest =>
      intro token hmem
      cases hmem
  | @cons lexeme lexemes following rest hmaximal _ ih =>
      intro token hmem hsignificant
      rcases List.mem_cons.1 hmem with rfl | hmem
      · exact hmaximal.isValid (bne_iff_ne.1 hsignificant) position
      · exact ih _ token hmem hsignificant

/-- The tokens that the grammar reads are valid words. -/
theorem isValid_of_mem_ahead (source : String) :
    ∀ token ∈ (TokenStream.ofSource .standard source).ahead, token.word.isValid = true := by
  rcases lexFrom_segmented .standard source.toList .start with
    ⟨lexemes, rest, hsegmented, _, hlexed⟩
  rw [TokenStream.ofSource, TokenStream.ofLexed, lex, hlexed]
  intro token hmem
  rcases List.mem_map.1 hmem with ⟨lexed, hfiltered, rfl⟩
  rcases List.mem_filter.1 hfiltered with ⟨hmem, hsignificant⟩
  exact hsegmented.isValid .start lexed hmem hsignificant

/-! ## Trees -/

/-- A proper tree, all of whose words can be written. -/
abbrev Node.IsWellFormed (node : Node) : Prop :=
  node.Proper fun word => word.isValid = true

/-- What a phrase stands for is proper.  What stands behind a phrase keeps it proper. -/
def Category.Proper (valid : Word → Prop) : Category → Prop
  | primary node | atom node | tree _ node | operation node | expression node => node.Proper valid
  | suffix head node => head.Proper valid → node.Proper valid
  | items _ _ _ nodes => ∀ node ∈ nodes, node.Proper valid
  | conditions lists =>
    ∀ nodes ∈ lists, ∀ node ∈ nodes, node.isOperation = true ∧ node.Proper valid

section Proper

variable {valid : Word → Prop} {word : Word} {node : Node}

/-- A name can be a receiver. -/
theorem NameWord.proper (hname : NameWord word node) (hword : valid word) :
    node.isReceiver = true ∧ node.Proper valid := by
  cases hname with
  | name text => exact ⟨rfl, Node.proper_identifier.2 ⟨hword, by simp⟩⟩
  | player => exact ⟨rfl, Node.proper_player⟩

/-- The type that a declaration starts with. -/
theorem StartsWorded.valid_text (htype : StartsWorded word) (hword : valid word) :
    valid ⟨.identifier, word.text⟩ ∨ word.text = "var" ∨ word.text = "player" := by
  rcases word with ⟨kind, text⟩
  rcases htype with hkind | heq | heq
  · cases hkind
    exact .inl hword
  · cases heq
    exact .inr (.inr rfl)
  · cases heq
    exact .inr (.inl rfl)

/-- The event of a rule. -/
theorem Word.valid_event (hevent : word.kind = .identifier ∨ word.kind = .keyword)
    (hword : valid word) : valid ⟨.identifier, word.text⟩ ∨ valid ⟨.keyword, word.text⟩ := by
  rcases word with ⟨kind, text⟩
  rcases hevent with hkind | hkind
  · cases hkind
    exact .inl hword
  · cases hkind
    exact .inr hword

/-- Phrases of valid words stand for proper trees. -/
theorem Derives.proper {category : Category} {words : List Word} {next : Option Word}
    {sites : List Site} (hderives : Derives category words next sites)
    (hwords : ∀ word ∈ words, valid word) : category.Proper valid := by
  induction hderives with
  | number => exact Node.proper_number.2 (hwords _ (by simp))
  | text => exact Node.proper_text.2 (hwords _ (by simp))
  | boolean => exact Node.proper_boolean
  | useBank => exact Node.proper_useBank
  | parenthesised _ ih =>
      simp only [List.forall_mem_cons, List.forall_mem_append] at hwords
      exact ih hwords.2.1
  | negation _ ih =>
      simp only [List.forall_mem_cons] at hwords
      exact Node.proper_negation.2 (ih hwords.2)
  | block _ ih =>
      simp only [List.forall_mem_cons] at hwords
      exact Node.proper_block.2 (ih hwords.2)
  | constant _ ih =>
      simp only [List.forall_mem_cons] at hwords
      rcases hwords with ⟨_, hname, _, hvalue⟩
      exact Node.proper_constant.2 ⟨hname, ih hvalue⟩
  | choice _ _ _ ih ih' =>
      simp only [List.forall_mem_cons, List.forall_mem_append] at hwords
      rcases hwords with ⟨_, hcondition, hbranch⟩
      exact Node.proper_choice.2 ⟨ih hcondition, ih' hbranch, by simp⟩
  | choiceElse _ _ _ ih ih' ih'' =>
      simp only [List.forall_mem_cons, List.forall_mem_append] at hwords
      rcases hwords with ⟨_, hcondition, hbranch, _, hother⟩
      refine Node.proper_choice.2 ⟨ih hcondition, ih' hbranch, ?_⟩
      rintro _ ⟨⟩
      exact ih'' hother
  | rule hevent _ _ _ ih ih' =>
      simp only [ruleHeader, List.forall_mem_cons, List.forall_mem_append] at hwords
      rcases hwords with ⟨⟨_, hname, _, _, _, hword, _⟩, _, hconditions, _, hactions⟩
      exact Node.proper_rule.2
        ⟨hname, Word.valid_event hevent hword, ih hconditions, ih' hactions⟩
  | name hname => exact (hname.proper (hwords _ (by simp))).2
  | assign _ ih =>
      simp only [List.forall_mem_cons] at hwords
      rcases hwords with ⟨htarget, _, hvalue⟩
      exact Node.proper_assign.2 ⟨htarget, by simp, ih hvalue⟩
  | enumMember hmember =>
      exact Node.proper_enumMember.2 ⟨hwords _ (by simp), hwords _ (by simp), hmember⟩
  | member hname _ _ hattach ih =>
      simp only [List.forall_mem_cons] at hwords
      rcases hwords with ⟨hword, _, hchain⟩
      exact (Node.Proper.attach (hname.proper hword) (ih hchain) hattach).1
  | declare htype =>
      exact Node.proper_declare.2 ⟨htype.valid_text (hwords _ (by simp [declared])),
        hwords _ (by simp [declared]), by simp⟩
  | declareInitial htype _ ih =>
      simp only [List.forall_mem_cons, List.forall_mem_append] at hwords
      rcases hwords with ⟨hdeclared, _, hvalue⟩
      refine Node.proper_declare.2 ⟨htype.valid_text (hdeclared _ (by simp [declared])),
        hdeclared _ (by simp [declared]), ?_⟩
      rintro _ ⟨⟩
      exact ih hvalue
  | noSuffix => exact id
  | call _ _ ih =>
      simp only [List.forall_mem_cons] at hwords
      exact fun hhead => Node.proper_call.2 ⟨hhead, by simp, ih hwords.2⟩
  | @callMember head _ _ arguments _ _ _ _ _ _ _ hattach ih ih' =>
      simp only [List.forall_mem_cons, List.forall_mem_append] at hwords
      rcases hwords with ⟨_, harguments, _, hchain⟩
      intro hhead
      have hcall : (Node.call head none arguments).Proper valid :=
        Node.proper_call.2 ⟨hhead, by simp, ih harguments⟩
      exact (Node.Proper.attach ⟨rfl, hcall⟩ (ih' hchain) hattach).1
  | noItems | lastSeparator => exact List.forall_mem_nil _
  | firstItem _ _ ih ih' =>
      simp only [List.forall_mem_append] at hwords
      exact List.forall_mem_cons.2 ⟨ih hwords.1, ih' hwords.2⟩
  | nextItem _ _ ih ih' =>
      simp only [List.forall_mem_cons, List.forall_mem_append] at hwords
      rcases hwords with ⟨_, helement, hothers⟩
      exact List.forall_mem_cons.2 ⟨ih helement, ih' hothers⟩
  | noConditions => simp [Category.Proper]
  | conditions _ ih =>
      simp only [List.forall_mem_cons] at hwords
      rintro _ ⟨⟩ node hnode
      rcases List.mem_map.1 hnode with ⟨bare, hbare, rfl⟩
      exact ⟨Node.isOperation_asCondition bare, (ih hwords.2.2 bare hbare).asCondition⟩
  | atom _ _ ih ih' | expression _ _ ih ih' =>
      simp only [List.forall_mem_append] at hwords
      exact ih' hwords.2 (ih hwords.1)
  | single _ ih => exact ih hwords
  | binary _ _ _ _ ih ih' =>
      simp only [List.forall_mem_cons, List.forall_mem_append] at hwords
      rcases hwords with ⟨hleft, _, hright⟩
      exact Node.proper_binary.2 ⟨ih hleft, ih' hright⟩
  | operation _ _ ih => exact ih hwords

/-- Scripts of valid words stand for proper trees. -/
theorem DerivesScript.proper {nodes : List Node} {words : List Word} {sites : List Site}
    (hderives : DerivesScript nodes words sites) (hwords : ∀ word ∈ words, valid word) :
    ∀ node ∈ nodes, node.Proper valid := by
  induction hderives with
  | nil => exact List.forall_mem_nil _
  | last hlast => exact List.forall_mem_singleton.2 (hlast.proper hwords)
  | cons hfirst _ ih =>
      exact List.forall_mem_cons.2 ⟨hfirst.proper fun word hword => hwords word (by simp [hword]),
        ih fun word hword => hwords word (by simp [hword])⟩

end Proper

/-- The tree of a script is proper with respect to any words that all its tokens are among. -/
theorem Script.proper_of_parse {valid : Word → Prop} {source : String} {tree : Node}
    (hvalid : ∀ token ∈ (TokenStream.ofSource .standard source).ahead, valid token.word)
    (hparse : Script.parse source = .ok tree) :
    tree.Proper valid ∧ ∃ statements, tree = .block statements := by
  rcases derivesScript_of_parse hparse with ⟨nodes, sites, rfl, hderives⟩
  exact ⟨Node.proper_block.2 (hderives.proper (List.forall_mem_map.2 hvalid)), nodes, rfl⟩

/-- The tree of a script is a well-formed block. -/
theorem Script.isWellFormed_of_parse {source : String} {tree : Node}
    (hparse : Script.parse source = .ok tree) :
    tree.IsWellFormed ∧ ∃ statements, tree = .block statements :=
  proper_of_parse (isValid_of_mem_ahead source) hparse

end Workshop

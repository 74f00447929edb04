import Workshop.Proofs.Reading.Derivations

/-!
# Parentheses around expressions

An expression can be put in parentheses where it stands, and the phrase around it
stands for the same node.  There are three exceptions, because parentheses behind
a complete expression are the arguments of a call:

- arguments behind the closing parenthesis would belong to the expression in
  parentheses only;
- an operator behind it would take the expression in parentheses as an operand,
  where before it took the phrase around the expression;
- the opening parenthesis in front of a branch may be taken for the arguments of
  a call of the condition.

Main definitions:

- `Site.MayBeEnclosed`: none of these exceptions applies.

Main results:

- Theorem `Derives.enclose`: putting an expression in parentheses does not change
  what a phrase stands for.
- Theorem `DerivesScript.enclose`: the same for a script.
-/

namespace Workshop

/-- Whether parentheses around an expression keep what the words stand for. -/
structure Site.MayBeEnclosed (site : Site) (next : Option Word) : Prop where
  /-- No arguments follow the expression. -/
  noArguments : firstOf site.behind next ≠ some (.operator "(")
  /-- No operator follows an expression that is not an operand of one. -/
  noOperator : site.role.isExpression = true →
    ∀ word ∈ firstOf site.behind next, word.IsNoOperator
  /-- A condition directly in front ends where it ended, also if a parenthesis is opened there. -/
  conditions : ∀ condition ∈ site.conditions,
    Derivable (.expression condition.2) condition.1 (some (.operator "("))

/-- Each of the sites can be put in parentheses, where this is allowed, and a phrase of the
category is left. -/
def Encloses (category : Category) (next : Option Word) (sites : List Site) : Prop :=
  ∀ site ∈ sites, site.MayBeEnclosed next →
    Derivable category site.enclosed next

variable {category category' : Category} {words left right : List Word} {next : Option Word}
  {node : Node} {sites inner : List Site}

/-! ## Expressions in parentheses -/

namespace Derives

/-- An expression in parentheses is an operand. -/
theorem parenthesisedAtom
    (hderives : Derives (.expression node) words (some (.operator ")")) inner)
    (hnext : next ≠ some (.operator "(")) :
    Derivable (.atom node) (.operator "(" :: (words ++ [.operator ")"])) next :=
  ⟨_, (Derives.parenthesised hderives).withoutArguments hnext⟩

/-- Operands with operators between them can stand in parentheses. -/
theorem parenthesisedTree {root : Option BinaryOperator}
    (hderives : Derives (.tree root node) words next inner)
    (hnext : next ≠ some (.operator "(")) :
    Derivable (.tree none node) (.operator "(" :: (words ++ [.operator ")"])) next := by
  have hoperation : Derives (.operation node) words (some (.operator ")")) inner := by
    refine .operation (hderives.beforeEnd Word.endsPhrase_closing) ?_
    rintro _ ⟨⟩
    exact Word.endsPhrase_closing.isNoOperator
  have hexpression := hoperation.withoutCall (by simp)
  rcases hexpression.parenthesisedAtom hnext with ⟨outer, hatom⟩
  exact ⟨outer, .single hatom⟩

/-- An operation may be enclosed. -/
theorem parenthesisedOperation (hderives : Derives (.operation node) words next inner)
    (hnext : next ≠ some (.operator "(")) :
    Derivable (.operation node) (.operator "(" :: (words ++ [.operator ")"])) next := by
  cases hderives with
  | operation htree hoperator =>
      rcases htree.parenthesisedTree hnext with ⟨outer, houter⟩
      exact ⟨outer, .operation houter hoperator⟩

/-- So may an expression. -/
theorem parenthesisedExpression (hderives : Derives (.expression node) words next inner)
    (hnext : next ≠ some (.operator "(")) (hoperator : ∀ word ∈ next, word.IsNoOperator) :
    Derivable (.expression node) (.operator "(" :: (words ++ [.operator ")"])) next :=
  ⟨_, (Derives.parenthesised (hderives.beforeEnd Word.endsPhrase_closing)).alone hnext hoperator⟩

end Derives

/-! ## Sites in larger phrases -/

namespace Site

variable {site : Site}

theorem enclosed_whole (role : Role) (phrase : List Word) :
    (whole role phrase).enclosed = .operator "(" :: (phrase ++ [.operator ")"]) := by
  simp [whole, enclosed]

theorem enclosed_behindCondition (site : Site) (front : List Word) :
    (site.behindCondition front node).enclosed = site.enclosed := by
  unfold behindCondition
  split <;> rfl

/-- A place inside a place. -/
theorem MayBeEnclosed.of_within (hallowed : (site.within left right).MayBeEnclosed next) :
    site.MayBeEnclosed (firstOf right next) := by
  rcases hallowed with ⟨harguments, hoperator, hconditions⟩
  simp only [within, firstOf_append] at harguments hoperator hconditions
  exact ⟨harguments, hoperator, hconditions⟩

/-- A place behind a condition. -/
theorem MayBeEnclosed.of_behindCondition {front : List Word}
    (hallowed : (site.behindCondition front node).MayBeEnclosed next) :
    site.MayBeEnclosed next ∧ (site.before = [] →
      Derivable (.expression node) front (some (.operator "("))) := by
  by_cases hbefore : site.before = []
  · rw [behindCondition, if_pos hbefore] at hallowed
    rcases hallowed with ⟨harguments, hoperator, hconditions⟩
    have hothers := List.forall_mem_cons.1 hconditions
    exact ⟨⟨harguments, hoperator, hothers.2⟩, fun _ => hothers.1⟩
  · rw [behindCondition, if_neg hbefore] at hallowed
    exact ⟨hallowed, fun hnone => absurd hnone hbefore⟩

/-- Parentheses behind the first word leave the first word. -/
theorem firstOf_enclosed (hbefore : site.before ≠ []) (next : Option Word) :
    firstOf site.enclosed next = firstOf site.words next := by
  rcases site with ⟨role, before, phrase, behind, conditions⟩
  cases before with
  | nil => exact absurd rfl hbefore
  | cons word others => rfl

/-- The first word stays, or the parenthesis comes first. -/
theorem head?_enclosed (site : Site) :
    site.enclosed.head? = some (.operator "(") ∨ site.enclosed.head? = site.words.head? := by
  rcases site with ⟨role, before, phrase, behind, conditions⟩
  cases before with
  | nil => exact .inl rfl
  | cons word others => exact .inr rfl

end Site

namespace Encloses

variable {role : Role}

/-- Without places there is nothing to enclose. -/
theorem nil (category : Category) (next : Option Word) : Encloses category next [] := by
  intro site hmem
  cases hmem

/-- The places of both parts. -/
theorem append {others : List Site} (hfirst : Encloses category next sites)
    (hsecond : Encloses category next others) :
    Encloses category next (sites ++ others) :=
  List.forall_mem_append.2 ⟨hfirst, hsecond⟩

/-- One more place. -/
theorem cons {site : Site} (hfirst : Encloses category next (Workshop.inside left right [site]))
    (hsecond : Encloses category next (Workshop.inside left right sites)) :
    Encloses category next (Workshop.inside left right (site :: sites)) :=
  hfirst.append hsecond

/-- Sites in a part of a phrase.  The rule that makes the phrase of its parts is used
again, for the new words of the part. -/
theorem inside (hpart : Encloses category (firstOf right next) sites)
    (hrule : ∀ words inner, words ≠ [] → Derives category words (firstOf right next) inner →
      Derivable category' (left ++ words ++ right) next) :
    Encloses category' next (inside left right sites) := by
  refine List.forall_mem_map.2 fun site hmem hallowed => ?_
  rcases hpart site hmem hallowed.of_within with ⟨inner, hinner⟩
  rw [Site.enclosed_within]
  exact hrule _ inner (by simp [Site.enclosed]) hinner

/-- An expression, and the sites in it. -/
theorem expression (hrole : role.isExpression = true)
    (hderives : Derives (.expression node) words next inner)
    (hinner : Encloses (.expression node) next inner) :
    Encloses (.expression node) next (.whole role words :: inner) := by
  refine List.forall_mem_cons.2 ⟨fun hallowed => ?_, hinner⟩
  rw [Site.enclosed_whole]
  exact hderives.parenthesisedExpression hallowed.noArguments (hallowed.noOperator hrole)

/-- Operands with operators between them, and the sites in them. -/
theorem operation (hderives : Derives (.operation node) words next inner)
    (hinner : Encloses (.operation node) next inner) :
    Encloses (.operation node) next (.whole role words :: inner) := by
  refine List.forall_mem_cons.2 ⟨fun hallowed => ?_, hinner⟩
  rw [Site.enclosed_whole]
  exact hderives.parenthesisedOperation hallowed.noArguments

/-- An operand.  In parentheses it binds more tightly than any operator. -/
theorem operand {root : Option BinaryOperator}
    (hderives : Derives (.tree root node) words next inner) :
    Encloses (.tree none node) next [.whole role words] := by
  refine List.forall_mem_singleton.2 fun hallowed => ?_
  rw [Site.enclosed_whole]
  exact hderives.parenthesisedTree hallowed.noArguments

/-- Sites in the first branch of a choice.  If the parenthesis comes first in it, then the
condition in front has to end there. -/
theorem branch {branch condition : Node} {front : List Word}
    (hbranch : Encloses (.expression branch) (firstOf right next) sites)
    (hlie : LieIn words sites)
    (hcondition : Derives (.expression condition) front (firstOf words (firstOf right next)) inner)
    (hrule : ∀ words inner inner',
      Derives (.expression condition) front (firstOf words (firstOf right next)) inner →
      Derives (.expression branch) words (firstOf right next) inner' →
      Derivable category (left ++ words ++ right) next) :
    Encloses category next
      (Workshop.inside left right (sites.map (.behindCondition front condition))) := by
  refine List.forall_mem_map.2 (List.forall_mem_map.2 fun site hmem hallowed => ?_)
  rcases hallowed.of_within.of_behindCondition with ⟨hplain, hfront⟩
  rcases hbranch site hmem hplain with ⟨inner', hinner'⟩
  rw [Site.enclosed_within, Site.enclosed_behindCondition]
  by_cases hbefore : site.before = []
  · rcases hfront hbefore with ⟨inner'', hends⟩
    refine hrule _ inner'' inner' ?_ hinner'
    rw [Site.enclosed, hbefore]
    exact hends
  · refine hrule _ inner inner' ?_ hinner'
    rw [Site.firstOf_enclosed hbefore, (hlie site hmem).1]
    exact hcondition

end Encloses

/-! ## First words of arguments and lists -/

namespace Derives

/-- Arguments start with their parenthesis. -/
theorem suffix_cases {head : Node} (hderives : Derives (.suffix head node) words next inner) :
    (words = [] ∧ inner = []) ∨ words.head? = some (.operator "(") := by
  cases hderives with
  | noSuffix => exact .inl ⟨rfl, rfl⟩
  | call => exact .inr rfl
  | callMember => exact .inr rfl

/-- A suffix starts with a parenthesis. -/
theorem suffix_firstOf {head : Node} (hderives : Derives (.suffix head node) words next inner)
    (hwords : words ≠ []) (next' : Option Word) : firstOf words next' = some (.operator "(") := by
  rcases hderives.suffix_cases with ⟨hnil, _⟩ | hhead
  · exact absurd hnil hwords
  · rw [firstOf, hhead, Option.some_or]

/-- Behind an element of a list there is nothing more of interest, or a separator. -/
theorem items_cases {closing separator : String} {nodes : List Node}
    (hderives : Derives (.items closing separator false nodes) words next inner) :
    (nodes = [] ∧ inner = []) ∨
      (nodes ≠ [] ∧ words.head? = some (.operator separator)) := by
  cases hderives with
  | noItems => exact .inl ⟨rfl, rfl⟩
  | lastSeparator => exact .inl ⟨rfl, rfl⟩
  | nextItem => exact .inr ⟨List.cons_ne_nil _ _, rfl⟩

end Derives

namespace Encloses

/-- Sites in the arguments behind a phrase, which stay arguments behind it. -/
theorem suffix {head : Node}
    (hderives : Derives (.suffix head node) words next inner)
    (hinner : Encloses (.suffix head node) next inner)
    (hrule : ∀ words' inner', firstOf words' next = firstOf words next →
      Derives (.suffix head node) words' next inner' →
      Derivable category (left ++ words') next) :
    Encloses category next (Workshop.inside left [] inner) := by
  rcases hderives.suffix_cases with ⟨_, rfl⟩ | hhead
  · exact .nil _ _
  · apply hinner.inside
    intro words' inner' hwords' hderives'
    rw [List.append_nil]
    refine hrule words' inner' ?_ hderives'
    rw [hderives'.suffix_firstOf hwords', firstOf, hhead, Option.some_or]

/-- Sites in the elements behind an element of a list. -/
theorem items {closing separator : String} {nodes : List Node}
    (hderives : Derives (.items closing separator false nodes) words next inner)
    (hinner : Encloses (.items closing separator false nodes) next inner)
    (hrule : ∀ words' inner', firstOf words' next = firstOf words next →
      Derives (.items closing separator false nodes) words' next inner' →
      Derivable category (left ++ words') next) :
    Encloses category next (Workshop.inside left [] inner) := by
  rcases hderives.items_cases with ⟨_, rfl⟩ | ⟨hnodes, hhead⟩
  · exact .nil _ _
  · apply hinner.inside
    intro words' inner' _ hderives'
    rw [List.append_nil]
    refine hrule words' inner' ?_ hderives'
    rcases hderives'.items_cases with ⟨hnil, _⟩ | ⟨_, hhead'⟩
    · exact absurd hnil hnodes
    · rw [firstOf, firstOf, hhead, hhead']

end Encloses

/-! ## Putting expressions in parentheses -/

/-- Parentheses around an expression do not change what the phrase around it stands for. -/
theorem Derives.enclose (hderives : Derives category words next sites) :
    Encloses category next sites := by
  induction hderives with
  | number | text | boolean | useBank | name | enumMember | declare | noSuffix | noItems
  | lastSeparator | noConditions => exact .nil _ _
  | parenthesised _ ih =>
      apply ih.inside
      intro words inner _ h
      exact (Derives.parenthesised h).of_words (by simp)
  | negation h ih =>
      apply (Encloses.expression rfl h ih).inside
      intro words inner _ h
      exact (Derives.negation h).of_words (by simp)
  | block _ ih =>
      apply ih.inside
      intro words inner _ h
      exact (Derives.block h).of_words (by simp)
  | constant h ih =>
      apply (Encloses.operation h ih).inside
      intro words inner _ h
      exact (Derives.constant h).of_words (by simp)
  | choice h h' helse ih ih' =>
      apply Encloses.append
      · apply (Encloses.expression rfl h ih).inside
        intro words inner _ h
        exact (Derives.choice h h' helse).of_words (by simp)
      · apply (Encloses.expression rfl h' ih').branch (h'.lieIn.whole (h'.ne_nil trivial) _) h
        intro words inner inner' h h'
        exact (Derives.choice h h' helse).of_words (by simp)
  | @choiceElse _ _ _ _ words' words'' next _ _ _ h h' h'' ih ih' ih'' =>
      have hfirst : firstOf words' (some (.keyword "else")) =
          firstOf (words' ++ .keyword "else" :: words'') next := by
        simp
      apply Encloses.append
      · apply Encloses.append
        · rw [hfirst] at h ih
          apply (Encloses.expression rfl h ih).inside
          intro words inner _ h
          rw [← hfirst] at h
          exact (Derives.choiceElse h h' h'').of_words (by simp)
        · apply (Encloses.expression rfl h' ih').branch (h'.lieIn.whole (h'.ne_nil trivial) _) h
          intro words inner inner' h h'
          exact (Derives.choiceElse h h' h'').of_words (by simp)
      · apply (Encloses.expression rfl h'' ih'').inside
        intro words inner _ h''
        exact (Derives.choiceElse h h' h'').of_words (by simp)
  | rule hevent harguments h h' ih ih' =>
      apply Encloses.append
      · apply ih.inside
        intro words inner _ h
        exact (Derives.rule hevent harguments h h').of_words (by simp)
      · apply ih'.inside
        intro words inner _ h'
        exact (Derives.rule hevent harguments h h').of_words (by simp)
  | assign h ih =>
      apply (Encloses.operation h ih).inside
      intro words inner _ h
      exact (Derives.assign h).of_words (by simp)
  | @member word node chain result words next inner hname h hkeyword hattach ih =>
      refine List.forall_mem_map.2 fun site hmem hallowed => ?_
      rcases ih site hmem hallowed.of_within with ⟨inner', h'⟩
      have hkeyword' : ∀ other ∈ site.enclosed.head?, node ≠ .player → other.kind = .keyword →
          other.text = "player" := by
        rcases site.head?_enclosed with hparenthesis | hsame
        · intro other hother _ hkind
          rw [hparenthesis] at hother
          cases hother
          cases hkind
        · rw [hsame, (h.lieIn site hmem).1]
          exact hkeyword
      rw [Site.enclosed_within]
      exact (Derives.member hname h' hkeyword' hattach).of_words (by simp)
  | declareInitial htype h ih =>
      apply (Encloses.operation h ih).inside
      intro words inner _ h
      exact (Derives.declareInitial htype h).of_words (by simp)
  | call _ hdot ih =>
      apply ih.inside
      intro words inner _ h
      exact (Derives.call h hdot).of_words (by simp)
  | callMember h h' hattach ih ih' =>
      apply Encloses.append
      · apply ih.inside
        intro words inner _ h
        exact (Derives.callMember h h' hattach).of_words (by simp)
      · apply ih'.inside
        intro words inner _ h'
        exact (Derives.callMember h h' hattach).of_words (by simp)
  | firstItem h h' ih ih' =>
      apply Encloses.append
      · apply (Encloses.expression rfl h ih).inside
        intro words inner _ h
        exact (Derives.firstItem h h').of_words (by simp)
      · apply Encloses.items h' ih'
        intro words' inner' hfirst h'
        rw [← hfirst] at h
        exact (Derives.firstItem h h').of_words (by simp)
  | nextItem h h' ih ih' =>
      apply Encloses.append
      · apply (Encloses.expression rfl h ih).inside
        intro words inner _ h
        exact (Derives.nextItem h h').of_words (by simp)
      · apply Encloses.items h' ih'
        intro words' inner' hfirst h'
        rw [← hfirst] at h
        exact (Derives.nextItem h h').of_words (by simp)
  | conditions _ ih =>
      apply ih.inside
      intro words inner _ h
      exact (Derives.conditions h).of_words (by simp)
  | atom h h' ih ih' =>
      apply Encloses.append
      · apply ih.inside
        intro words inner _ h
        exact (Derives.atom h h').of_words (by simp)
      · apply Encloses.suffix h' ih'
        intro words' inner' hfirst h'
        rw [← hfirst] at h
        exact (Derives.atom h h').of_words (by simp)
  | single _ ih =>
      intro site hmem hallowed
      rcases ih site hmem hallowed with ⟨inner, h⟩
      exact ⟨inner, .single h⟩
  | binary h h' hleft hright ih ih' =>
      -- In parentheses, an operand has no operator at its root that could be too weak.
      apply Encloses.append
      · apply Encloses.cons
        · apply (Encloses.operand h).inside
          intro words inner _ h
          exact (Derives.binary h h' (by simp) hright).of_words (by simp)
        · apply ih.inside
          intro words inner _ h
          exact (Derives.binary h h' hleft hright).of_words (by simp)
      · apply Encloses.cons
        · apply (Encloses.operand h').inside
          intro words inner _ h'
          exact (Derives.binary h h' hleft (by simp)).of_words (by simp)
        · apply ih'.inside
          intro words inner _ h'
          exact (Derives.binary h h' hleft hright).of_words (by simp)
  | operation _ hoperator ih =>
      intro site hmem hallowed
      rcases ih site hmem hallowed with ⟨inner, h⟩
      exact ⟨inner, .operation h hoperator⟩
  | expression h h' ih ih' =>
      apply Encloses.append
      · apply ih.inside
        intro words inner _ h
        exact (Derives.expression h h').of_words (by simp)
      · apply Encloses.suffix h' ih'
        intro words' inner' hfirst h'
        rw [← hfirst] at h
        exact (Derives.expression h h').of_words (by simp)

/-- Parentheses around an expression do not change what a script stands for. -/
theorem DerivesScript.enclose {nodes : List Node} {site : Site}
    (hderives : DerivesScript nodes words sites) (hmem : site ∈ sites)
    (hallowed : site.MayBeEnclosed none) :
    ∃ inner, DerivesScript nodes site.enclosed inner := by
  induction hderives generalizing site with
  | nil => cases hmem
  | last h =>
      rcases (Encloses.expression rfl h h.enclose) site hmem hallowed with ⟨inner, h'⟩
      exact ⟨_, .last h'⟩
  | cons h h' ih =>
      rcases List.mem_append.1 hmem with hfirst | hsecond
      · rcases List.mem_map.1 hfirst with ⟨part, hpart, rfl⟩
        rcases (Encloses.expression rfl h h.enclose) part hpart hallowed.of_within with
          ⟨inner, hinner⟩
        rw [Site.enclosed_within]
        exact ⟨_, .cons hinner h'⟩
      · rcases List.mem_map.1 hsecond with ⟨part, hpart, rfl⟩
        rcases ih hpart hallowed.of_within with ⟨inner, hinner⟩
        have hscript := DerivesScript.cons h hinner
        rw [Site.enclosed_within]
        exact ⟨_, by simpa using hscript⟩

end Workshop

import Workshop.Proofs.Reading.Completeness
import Workshop.Proofs.Tree

/-!
# Other conditions in their place

The words of a script are derived in one way only, since they are read in one way
only.  So where the words of a rule are known up to one of its conditions, every
derivation comes to this condition, and another condition can be put in its place.
Nothing else of the derivation changes.  If the two conditions are the same once
they are read as comparisons, the nodes of the script do not change either.

The rule may be a statement of the script, or a statement of a block, or an action
of another rule, at any depth.

Main definitions:

- `Exchanges`: words that can stand in the place of other words.
- `Terminated`: expressions with a semicolon behind each of them.
- `UpToCondition`: the words of a statement up to a condition of a rule.
- `AwaitsCondition`: the words of a script up to a condition of a rule.

Main results:

- Theorem `ReadsUpTo.unique`: the words that a reader takes, and what they stand for,
  are determined by all the words.
- Theorem `Exchanges.items`: an element of a list.
- Theorem `Exchanges.expression`: a phrase at the start of an expression.
- Theorem `UpToCondition.exchanges`: a condition of a rule in a statement.
- Theorem `AwaitsCondition.exchange`: a condition of a rule in a script.
-/

namespace Workshop

open TokenStream Grammar

variable {node node' : Node} {words words' rest tail tail' all all' : List Word}
  {next : Option Word} {sites : List Site} {isFirst : Bool} {nodes : List Node}

/-! ## Derivations are unambiguous -/

/-- Words can be held by a stream. -/
theorem exists_holds (words : List Word) : ∃ stream, Holds stream words := by
  refine ⟨⟨words.map fun word => ⟨word.kind, word.text, .start⟩, none, false, .start⟩, ?_, rfl⟩
  rw [List.map_map]
  exact List.map_id words

/-- Whatever follows, a reader takes the same words with the same result. -/
theorem ReadsUpTo.unique {α : Type} {parse : Parse α} {a a' : α}
    (hfirst : ReadsUpTo parse words tail.head? a) (hsecond : ReadsUpTo parse words' tail'.head? a')
    (hwords : words ++ tail = words' ++ tail') : a = a' ∧ words = words' ∧ tail = tail' := by
  rcases exists_holds (words ++ tail) with ⟨stream, hholds⟩
  rcases hfirst rfl hholds with ⟨_, left, hrun, rfl, hleft⟩
  rw [hwords] at hholds
  rcases hsecond rfl hholds with ⟨_, left', hrun', rfl, hleft'⟩
  rw [hrun] at hrun'
  cases hrun'
  have htail : tail = tail' := hleft.ahead.symm.trans hleft'.ahead
  rw [htail] at hwords
  exact ⟨rfl, List.append_cancel_right hwords, htail⟩

/-- An expression at the start of some words is the same in every derivation. -/
theorem Derivable.unique (hfirst : Derivable (.expression node) words tail.head?)
    (hsecond : Derivable (.expression node') words' tail'.head?)
    (hwords : words ++ tail = words' ++ tail') : node = node' ∧ words = words' ∧ tail = tail' := by
  rcases hfirst with ⟨_, hfirst⟩
  rcases hsecond with ⟨_, hsecond⟩
  exact hfirst.isRead.unique hsecond.isRead hwords

/-- So are the conditions of a rule. -/
theorem Derivable.unique_conditions {conditions conditions' : Option (List Node)}
    (hfirst : Derivable (.conditions conditions) words tail.head?)
    (hsecond : Derivable (.conditions conditions') words' tail'.head?)
    (hwords : words ++ tail = words' ++ tail') :
    conditions = conditions' ∧ words = words' ∧ tail = tail' := by
  rcases hfirst with ⟨_, hfirst⟩
  rcases hsecond with ⟨_, hsecond⟩
  exact hfirst.isRead.unique hsecond.isRead hwords

/-- The arguments of an event end at its closing parenthesis. -/
theorem EventWords.unique (hwords : EventWords isFirst words) (hwords' : EventWords isFirst words')
    (heq : words ++ tail = words' ++ tail') : words = words' ∧ tail = tail' := by
  induction hwords generalizing words' with
  | closed isFirst =>
      cases hwords' with
      | closed => exact ⟨rfl, (List.cons.inj heq).2⟩
      | trailing => simp at heq
      | first hclosing => exact absurd (List.cons.inj heq).1.symm hclosing
      | next => simp at heq
  | trailing =>
      generalize hfirst : false = isFirst at hwords'
      cases hwords' with
      | closed => simp at heq
      | trailing => exact ⟨rfl, (List.cons.inj (List.cons.inj heq).2).2⟩
      | first => cases hfirst
      | next hclosing => exact absurd (List.cons.inj (List.cons.inj heq).2).1.symm hclosing
  | first hclosing _ ih =>
      generalize hfirst : true = isFirst at hwords'
      cases hwords' with
      | closed => exact absurd (List.cons.inj heq).1 hclosing
      | trailing => cases hfirst
      | first _ hothers =>
          rcases List.cons.inj heq with ⟨rfl, hbehind⟩
          rcases ih hothers hbehind with ⟨rfl, rfl⟩
          exact ⟨rfl, rfl⟩
      | next => cases hfirst
  | next hclosing _ ih =>
      generalize hfirst : false = isFirst at hwords'
      cases hwords' with
      | closed => simp at heq
      | trailing => exact absurd (List.cons.inj (List.cons.inj heq).2).1 hclosing
      | first => cases hfirst
      | next _ hothers =>
          rcases List.cons.inj (List.cons.inj heq).2 with ⟨rfl, hbehind⟩
          rcases ih hothers hbehind with ⟨rfl, rfl⟩
          exact ⟨rfl, rfl⟩

/-! ## Words in the place of other words -/

/-- Where a phrase of some kind starts the first words, there is such a phrase at the start of the
second words, with the same words behind it.  They stand for the same, as far as it can be seen, if
`same` holds. -/
def Exchanges {α β : Type} (kind : α → Category) (view : α → β) (all all' : List Word)
    (same : Prop) : Prop :=
  ∀ ⦃a : α⦄ ⦃words tail : List Word⦄, Derivable (kind a) words tail.head? → words ++ tail = all →
    ∃ a' words', words' ++ tail = all' ∧ Derivable (kind a') words' tail.head? ∧
      (same → view a' = view a)

/-- Expressions with a semicolon behind each of them. -/
inductive Terminated : List Word → Prop
  | nil : Terminated []
  | cons {node : Node} {words others : List Word} :
      Derivable (.expression node) words (some (.operator ";")) → Terminated others →
      Terminated (words ++ .operator ";" :: others)

/-- Terminated expressions and what starts behind them. -/
theorem Terminated.starts {front : List Word} (hfront : Terminated front)
    (hall : Node.Starts all) : Node.Starts (front ++ all) := by
  cases hfront with
  | nil => exact hall
  | cons hfirst _ =>
      rcases hfirst with ⟨_, hfirst⟩
      rw [List.append_assoc]
      exact (hfirst.starts trivial).append _

/-! ## Elements of lists -/

/-- The separator in front of an element, unless the element is the first one. -/
def itemLead (isFirst : Bool) : List Word :=
  if isFirst then [] else [.operator ";"]

section Lists

variable {closing : String}

/-- One more element in front of a list. -/
theorem Derivable.consItem (hitem : Derivable (.expression node) words (words' ++ tail).head?)
    (hitems : Derivable (.items closing ";" false nodes) words' tail.head?) (isFirst : Bool) :
    Derivable (.items closing ";" isFirst (node :: nodes)) (itemLead isFirst ++ (words ++ words'))
      tail.head? := by
  rcases hitem with ⟨_, hitem⟩
  rcases hitems with ⟨_, hitems⟩
  rw [head?_append_eq_firstOf] at hitem
  cases isFirst with
  | true => exact (Derives.firstItem hitem hitems).of_words rfl
  | false => exact (Derives.nextItem hitem hitems).of_words rfl

/-- A list at the start of words that close no bracket has a first element. -/
theorem Derivable.items_inv (hclosing : IsClosing closing) (hstarts : Node.Starts all)
    (hitems : Derivable (.items closing ";" isFirst nodes) words tail.head?)
    (heq : words ++ tail = itemLead isFirst ++ all) :
    ∃ node nodes' first others, nodes = node :: nodes' ∧
      words = itemLead isFirst ++ (first ++ others) ∧ first ++ (others ++ tail) = all ∧
      Derivable (.expression node) first (others ++ tail).head? ∧
      Derivable (.items closing ";" false nodes') others tail.head? := by
  rcases hclosing.exists_cons hstarts with ⟨word, behind, rfl, hword⟩
  rcases hitems with ⟨_, hitems⟩
  cases hitems with
  | noItems =>
      cases isFirst with
      | true => exact absurd (List.cons.inj heq).1.symm hword
      | false =>
          rcases hclosing with rfl | rfl <;> simp [itemLead] at heq
  | lastSeparator => exact absurd (List.cons.inj (List.cons.inj heq).2).1.symm hword
  | @firstItem _ _ _ _ first others _ _ _ hfirst hothers =>
      rw [← head?_append_eq_firstOf] at hfirst
      rw [List.append_assoc] at heq
      exact ⟨_, _, first, others, rfl, rfl, heq, ⟨_, hfirst⟩, ⟨_, hothers⟩⟩
  | @nextItem _ _ _ _ first others _ _ _ hfirst hothers =>
      rw [← head?_append_eq_firstOf] at hfirst
      rw [List.cons_append, List.append_assoc] at heq
      exact ⟨_, _, first, others, rfl, rfl, (List.cons.inj heq).2, ⟨_, hfirst⟩, ⟨_, hothers⟩⟩

/-- Behind other elements, an element of a list can be put in the place of another one. -/
theorem Exchanges.items {view : Node → Node} {same : Prop} {earlier : List Word}
    (hitem : Exchanges .expression view all all' same) (hstarts : Node.Starts all)
    (hclosing : IsClosing closing) (hearlier : Terminated earlier) (isFirst : Bool) :
    Exchanges (.items closing ";" isFirst) (List.map view) (itemLead isFirst ++ (earlier ++ all))
      (itemLead isFirst ++ (earlier ++ all')) same := by
  induction hearlier generalizing isFirst with
  | nil =>
      intro nodes words tail hitems heq
      rcases hitems.items_inv hclosing hstarts heq with
        ⟨node, nodes, first, others, rfl, rfl, hall, hfirst, hothers⟩
      rcases hitem hfirst hall with ⟨node', first', rfl, hfirst', hsame⟩
      refine ⟨node' :: nodes, _, ?_, hfirst'.consItem hothers isFirst, fun h => ?_⟩
      · simp
      · rw [List.map_cons, List.map_cons, hsame h]
  | @cons known words' front hknown hfront ih =>
      intro nodes words tail hitems heq
      have hbehind := (Terminated.cons hknown hfront).starts hstarts
      rcases hitems.items_inv hclosing hbehind heq with
        ⟨node, nodes, first, others, rfl, rfl, hall, hfirst, hothers⟩
      have hhead : Derivable (.expression known) words'
          (.operator ";" :: (front ++ all)).head? := hknown
      rw [List.append_assoc, List.cons_append] at hall
      rcases hfirst.unique hhead hall with ⟨rfl, rfl, hrest⟩
      rcases ih false hothers hrest with ⟨nodes', others', hrest', hothers', hsame⟩
      have hlead : (others' ++ tail).head? = some (.operator ";") := by
        rw [hrest']
        rfl
      rw [← hlead] at hknown
      refine ⟨node :: nodes', _, ?_, hknown.consItem hothers' isFirst, fun h => ?_⟩
      · rw [List.append_assoc, List.append_assoc, hrest', List.append_assoc]
        rfl
      · rw [List.map_cons, List.map_cons, hsame h]

end Lists

/-! ## Statements that hold a rule -/

/-- The first word of a phrase is the first one of all the words. -/
theorem Derives.head?_of_append {word : Word} (hderives : Derives (.primary node) words next sites)
    (heq : words ++ tail = word :: all) : words.head? = some word := by
  rw [← List.head?_append_of_ne_nil _ (hderives.ne_nil trivial), heq]
  rfl

/-- Only a block starts with an opening brace. -/
theorem Derives.block_inv (hderives : Derives (.primary node) words next sites)
    (hwords : words.head? = some (.operator "\x7b")) :
    ∃ nodes inner, node = .block nodes ∧ words = .operator "\x7b" :: inner ∧
      Derivable (.items "\x7d" ";" true nodes) inner next := by
  cases hderives with
  | block hitems => exact ⟨_, _, rfl, rfl, _, hitems⟩
  | rule => simp [ruleHeader] at hwords
  | name hname => cases hname <;> simp at hwords
  | member hname => cases hname <;> simp at hwords
  | declare htype => rcases htype with htype | rfl | rfl <;> simp_all [declared]
  | declareInitial htype => rcases htype with htype | rfl | rfl <;> simp_all [declared]
  | _ => simp at hwords

/-- Only a rule starts with the words of a rule. -/
theorem Derives.rule_inv (hderives : Derives (.primary node) words next sites)
    (hwords : words.head? = some (.keyword "rule")) :
    ∃ (name : String) (event : Word) (conditions : Option (List Node)) (actions : List Node)
      (arguments words₁ words₂ : List Word), node = .rule name event.text conditions actions ∧
      words = ruleHeader name event ++ (arguments ++ (words₁ ++ .operator "\x7b" :: words₂)) ∧
      (event.kind = .identifier ∨ event.kind = .keyword) ∧ EventWords true arguments ∧
      Derivable (.conditions conditions) words₁ (some (.operator "\x7b")) ∧
      Derivable (.items "\x7d" ";" true actions) words₂ next := by
  cases hderives with
  | rule hevent harguments hconditions hactions =>
      exact ⟨_, _, _, _, _, _, _, rfl, rfl, hevent, harguments, ⟨_, hconditions⟩, ⟨_, hactions⟩⟩
  | @boolean value => cases value <;> simp at hwords
  | name hname => cases hname <;> simp at hwords
  | member hname => cases hname <;> simp at hwords
  | declare htype => rcases htype with htype | rfl | rfl <;> simp_all [declared]
  | declareInitial htype => rcases htype with htype | rfl | rfl <;> simp_all [declared]
  | _ => simp at hwords

/-- A rule whose name, event and arguments are known. -/
theorem Derives.rule_known {name : String} {event : Word} {arguments : List Word}
    (hderives : Derives (.primary node) words tail.head? sites)
    (harguments : EventWords true arguments)
    (heq : words ++ tail = ruleHeader name event ++ (arguments ++ all)) :
    ∃ conditions actions words₁ words₂, node = .rule name event.text conditions actions ∧
      words = ruleHeader name event ++ (arguments ++ (words₁ ++ .operator "\x7b" :: words₂)) ∧
      words₁ ++ .operator "\x7b" :: (words₂ ++ tail) = all ∧
      (event.kind = .identifier ∨ event.kind = .keyword) ∧
      Derivable (.conditions conditions) words₁ (.operator "\x7b" :: (words₂ ++ tail)).head? ∧
      Derivable (.items "\x7d" ";" true actions) words₂ tail.head? := by
  rcases hderives.rule_inv (hderives.head?_of_append heq) with ⟨name', event', conditions, actions,
    arguments', words₁, words₂, rfl, rfl, hevent, harguments', hconditions, hactions⟩
  simp only [ruleHeader, List.cons_append, List.nil_append, List.append_assoc,
    List.cons.injEq, Word.mk.injEq, true_and] at heq
  rcases heq with ⟨rfl, rfl, heq⟩
  rcases harguments'.unique harguments heq with ⟨rfl, hall⟩
  exact ⟨conditions, actions, words₁, words₂, rfl, rfl, hall, hevent, hconditions, hactions⟩

namespace Exchanges

variable {same : Prop}

/-- A condition that is known is the one that is found. -/
theorem of_known {phrase phrase' : List Word} {mark : Word}
    (hphrase : Derivable (.expression node) phrase (some mark))
    (hphrase' : Derivable (.expression node') phrase' (some mark)) (rest : List Word) :
    Exchanges .expression Node.asCondition (phrase ++ mark :: rest) (phrase' ++ mark :: rest)
      (node'.asCondition = node.asCondition) := by
  intro found words tail hfound heq
  have hknown : Derivable (.expression node) phrase (mark :: rest).head? := hphrase
  rcases hfound.unique hknown heq with ⟨rfl, rfl, rfl⟩
  exact ⟨node', phrase', rfl, hphrase', id⟩

/-- The conditions of a rule, if it lists some. -/
theorem conditions
    (hitems : Exchanges (.items ")" ";" true) (List.map Node.asCondition) all all' same) :
    Exchanges .conditions id (.keyword "if" :: .operator "(" :: all)
      (.keyword "if" :: .operator "(" :: all') same := by
  rintro conditions words tail ⟨_, hconditions⟩ heq
  generalize hnext : tail.head? = next at hconditions
  cases hconditions with
  | noConditions hif =>
      rw [List.nil_append] at heq
      rw [heq] at hnext
      exact absurd hnext.symm hif
  | conditions hlist =>
      subst hnext
      rcases hitems ⟨_, hlist⟩ (List.cons.inj (List.cons.inj heq).2).2 with
        ⟨nodes', words', rfl, ⟨_, hlist'⟩, hsame⟩
      refine ⟨some (nodes'.map Node.asCondition), _, rfl, ⟨_, .conditions hlist'⟩, fun h => ?_⟩
      rw [hsame h]

section Rule

variable {name : String} {event : Word} {arguments : List Word}

/-- A rule with other conditions. -/
theorem ruleConditions (hconditions : Exchanges .conditions id all all' same)
    (harguments : EventWords true arguments) :
    Exchanges .primary id (ruleHeader name event ++ (arguments ++ all))
      (ruleHeader name event ++ (arguments ++ all')) same := by
  rintro found words tail ⟨_, hfound⟩ heq
  rcases hfound.rule_known harguments heq with
    ⟨conditions, actions, words₁, words₂, rfl, rfl, hall, hevent, hlist, ⟨_, hactions⟩⟩
  rcases hconditions hlist hall with ⟨conditions', words', rfl, ⟨_, hlist'⟩, hsame⟩
  refine ⟨.rule name event.text conditions' actions, _, ?_,
    ⟨_, .rule hevent harguments hlist' hactions⟩, fun h => ?_⟩
  · simp
  · rw [show conditions' = conditions from hsame h]

/-- A rule with other actions. -/
theorem ruleActions {conditions : Option (List Node)} {listed : List Word}
    (hactions : Exchanges (.items "\x7d" ";" true) (List.map id) all all' same)
    (harguments : EventWords true arguments)
    (hlisted : Derivable (.conditions conditions) listed (some (.operator "\x7b"))) :
    Exchanges .primary id
      (ruleHeader name event ++ (arguments ++ (listed ++ .operator "\x7b" :: all)))
      (ruleHeader name event ++ (arguments ++ (listed ++ .operator "\x7b" :: all'))) same := by
  rintro found words tail ⟨_, hfound⟩ heq
  rcases hfound.rule_known harguments heq with
    ⟨conditions', actions, words₁, words₂, rfl, rfl, hall, hevent, hlist, hfoundActions⟩
  have hknown : Derivable (.conditions conditions) listed (.operator "\x7b" :: all).head? := hlisted
  rcases Derivable.unique_conditions hlist hknown hall with ⟨rfl, rfl, hbehind⟩
  rcases hactions hfoundActions (List.cons.inj hbehind).2 with
    ⟨actions', words', rfl, ⟨_, hactions'⟩, hsame⟩
  rcases hlist with ⟨_, hlist⟩
  refine ⟨.rule name event.text conditions' actions', _, ?_,
    ⟨_, .rule hevent harguments hlist hactions'⟩, fun h => ?_⟩
  · simp
  · rw [List.map_id, List.map_id] at hsame
    rw [hsame h]

end Rule

/-- A block with other statements. -/
theorem block (hitems : Exchanges (.items "\x7d" ";" true) (List.map id) all all' same) :
    Exchanges .primary id (.operator "\x7b" :: all) (.operator "\x7b" :: all') same := by
  rintro found words tail ⟨_, hfound⟩ heq
  rcases hfound.block_inv (hfound.head?_of_append heq) with ⟨nodes, inner, rfl, rfl, hlist⟩
  rcases hitems hlist (List.cons.inj heq).2 with ⟨nodes', words', rfl, ⟨_, hlist'⟩, hsame⟩
  refine ⟨_, _, rfl, ⟨_, Derives.block hlist'⟩, fun h => ?_⟩
  rw [List.map_id, List.map_id] at hsame
  rw [hsame h]

end Exchanges

/-! ## Phrases around a rule -/

/-- Whether a chain can have a receiver does not depend on the receiver. -/
theorem Node.isOk_attach (first second chain : Node) :
    (attach first chain).isOk = (attach second chain).isOk := by
  have hmap (f : Node → Node) (outcome : Except Node Node) :
      (outcome.map f).isOk = outcome.isOk := by
    cases outcome <;> rfl
  induction chain with
  | identifier name inner ih =>
      cases inner with
      | none => rfl
      | some inner =>
          rw [attach, attach, hmap, hmap]
          exact ih inner rfl
  | call callee inner arguments _ ih _ =>
      cases inner with
      | none => rfl
      | some inner =>
          rw [attach, attach, hmap, hmap]
          exact ih inner rfl
  | assign target inner value ih _ =>
      cases inner with
      | none => rfl
      | some inner =>
          rw [attach, attach, hmap, hmap]
          exact ih inner rfl
  | _ => rfl

theorem Node.exists_attach {receiver chain result : Node}
    (hattach : Node.attach receiver chain = .ok result) (other : Node) :
    ∃ result', Node.attach other chain = .ok result' := by
  have hok := isOk_attach other receiver chain
  rw [hattach] at hok
  cases hother : attach other chain with
  | ok result' => exact ⟨result', rfl⟩
  | error node =>
      rw [hother] at hok
      cases hok

/-- What stands behind a phrase can stand behind every other phrase. -/
theorem Derivable.exchange_head {head : Node} (hsuffix : Derivable (.suffix head node) words next)
    (head' : Node) :
    ∃ node', Derivable (.suffix head' node') words next ∧ (head' = head → node' = node) := by
  rcases hsuffix with ⟨_, hsuffix⟩
  cases hsuffix with
  | noSuffix hnext => exact ⟨head', ⟨_, .noSuffix hnext⟩, id⟩
  | call hitems hnext =>
      refine ⟨.call head' none _, ⟨_, .call hitems hnext⟩, ?_⟩
      rintro rfl
      rfl
  | @callMember _ _ _ arguments _ _ _ _ _ hitems hchain hattach =>
      rcases Node.exists_attach hattach (.call head' none arguments) with ⟨result', hattach'⟩
      refine ⟨result', ⟨_, .callMember hitems hchain hattach'⟩, ?_⟩
      rintro rfl
      rw [hattach] at hattach'
      cases hattach'
      rfl

namespace Exchanges

variable {same : Prop}

/-- A phrase and what stands behind it. -/
theorem suffix {kind kind' : Node → Category} (hfirst : Exchanges kind id all all' same)
    (hinv : ∀ {node words next}, Derivable (kind' node) words next →
      ∃ head words₁ words₂, words = words₁ ++ words₂ ∧
        Derivable (kind head) words₁ (firstOf words₂ next) ∧
        Derivable (.suffix head node) words₂ next)
    (hjoin : ∀ {head node words₁ words₂ next}, Derivable (kind head) words₁ (firstOf words₂ next) →
      Derivable (.suffix head node) words₂ next → Derivable (kind' node) (words₁ ++ words₂) next) :
    Exchanges kind' id all all' same := by
  intro node words tail hderives heq
  rcases hinv hderives with ⟨head, words₁, words₂, rfl, hhead, hsuffix⟩
  rw [← head?_append_eq_firstOf] at hhead
  rw [List.append_assoc] at heq
  rcases hfirst hhead heq with ⟨head', words', rfl, hhead', hsame⟩
  rcases hsuffix.exchange_head head' with ⟨node', hsuffix', hsameNode⟩
  rw [head?_append_eq_firstOf] at hhead'
  exact ⟨node', words' ++ words₂, List.append_assoc _ _ _, hjoin hhead' hsuffix',
    fun h => hsameNode (hsame h)⟩

/-- An atom with another phrase at its start. -/
theorem atom (hfirst : Exchanges .primary id all all' same) :
    Exchanges .atom id all all' same := by
  refine hfirst.suffix ?_ ?_
  · rintro node words next ⟨_, hderives⟩
    cases hderives with
    | atom hhead hsuffix => exact ⟨_, _, _, rfl, ⟨_, hhead⟩, ⟨_, hsuffix⟩⟩
  · rintro head node words₁ words₂ next ⟨_, hhead⟩ ⟨_, hsuffix⟩
    exact ⟨_, .atom hhead hsuffix⟩

/-- The first operand of operators, however deep it stands in their tree. -/
theorem tree (hfirst : Exchanges .atom id all all' same) (root : Option BinaryOperator) :
    Exchanges (.tree root) id all all' same := by
  rintro node words tail ⟨_, hderives⟩ heq
  generalize hcategory : Category.tree root node = category at hderives
  generalize hnext : tail.head? = next at hderives ⊢
  induction hderives generalizing root node tail with
  | single hatom =>
      cases hcategory
      rw [← hnext] at hatom ⊢
      rcases hfirst ⟨_, hatom⟩ heq with ⟨node', words', hwords, ⟨_, hatom'⟩, hsame⟩
      exact ⟨node', words', hwords, ⟨_, .single hatom'⟩, hsame⟩
  | @binary operator _ _ left right words words' _ _ _ _ hright hroot hroot' ih _ =>
      cases hcategory
      rw [List.append_assoc] at heq
      rcases ih _ heq rfl rfl with ⟨left', leftWords, hwords, ⟨_, hleft⟩, hsame⟩
      refine ⟨.binary operator left' right, leftWords ++ .operator operator.symbol :: words',
        ?_, ⟨_, .binary hleft hright hroot hroot'⟩, fun h => ?_⟩
      · rw [List.append_assoc]
        exact hwords
      · rw [show left' = left from hsame h]
  | _ => cases hcategory

/-- An operation with another first operand. -/
theorem operation (hfirst : Exchanges .atom id all all' same) :
    Exchanges .operation id all all' same := by
  rintro node words tail ⟨_, hderives⟩ heq
  cases hderives with
  | @operation root _ _ _ _ htree hnext =>
      rcases hfirst.tree root ⟨_, htree⟩ heq with ⟨node', words', hwords, ⟨_, htree'⟩, hsame⟩
      exact ⟨node', words', hwords, ⟨_, .operation htree' hnext⟩, hsame⟩

/-- An expression with another phrase at its start. -/
theorem expression (hfirst : Exchanges .primary id all all' same) :
    Exchanges .expression id all all' same := by
  refine hfirst.atom.operation.suffix ?_ ?_
  · rintro node words next ⟨_, hderives⟩
    cases hderives with
    | expression hhead hsuffix => exact ⟨_, _, _, rfl, ⟨_, hhead⟩, ⟨_, hsuffix⟩⟩
  · rintro head node words₁ words₂ next ⟨_, hhead⟩ ⟨_, hsuffix⟩
    exact ⟨_, .expression hhead hsuffix⟩

/-- A statement behind other statements. -/
theorem script {front : List Word} (hfirst : Exchanges .expression id all all' same)
    (hstarts : Node.Starts all) (hfront : Terminated front) {nodes : List Node} {sites : List Site}
    (hderives : DerivesScript nodes (front ++ all) sites) :
    ∃ nodes' sites', DerivesScript nodes' (front ++ all') sites' ∧ (same → nodes' = nodes) := by
  induction hfront generalizing nodes sites with
  | nil =>
      rw [List.nil_append] at hderives ⊢
      cases hderives with
      | nil =>
          rcases hstarts with ⟨word, others, hnil, _⟩
          cases hnil
      | @last node _ _ hlast =>
          have hphrase : Derivable (.expression node) all ([] : List Word).head? := ⟨_, hlast⟩
          rcases hfirst hphrase (List.append_nil all) with
            ⟨node', words', rfl, ⟨_, hlast'⟩, hsame⟩
          rw [List.append_nil]
          refine ⟨[node'], _, .last hlast', fun h => ?_⟩
          rw [show node' = node from hsame h]
      | @cons node nodes words words' _ _ hstatement hothers =>
          have hphrase : Derivable (.expression node) words (.operator ";" :: words').head? :=
            ⟨_, hstatement⟩
          rcases hfirst hphrase rfl with ⟨node', first', rfl, ⟨_, hstatement'⟩, hsame⟩
          refine ⟨node' :: nodes, _, .cons hstatement' hothers, fun h => ?_⟩
          rw [show node' = node from hsame h]
  | @cons known words others hstatement _ ih =>
      have hknown : Derivable (.expression known) words
          (.operator ";" :: (others ++ all)).head? := hstatement
      rcases hstatement with ⟨_, hstatement⟩
      rw [List.append_assoc, List.cons_append] at hderives ⊢
      generalize hall : words ++ .operator ";" :: (others ++ all) = script at hderives
      cases hderives with
      | nil => simp at hall
      | last hlast =>
          have hlast' : Derivable (.expression _) script ([] : List Word).head? := ⟨_, hlast⟩
          cases (hknown.unique hlast' (by rw [hall, List.append_nil])).2.2
      | @cons _ nodes words₁ words₂ _ _ hfound hothers =>
          have hfound' : Derivable (.expression _) words₁
              (Word.operator ";" :: words₂).head? := ⟨_, hfound⟩
          rcases hknown.unique hfound' hall with ⟨rfl, rfl, htail⟩
          cases htail
          rcases ih hothers with ⟨nodes', _, hexchanged, hsame⟩
          refine ⟨known :: nodes', _, .cons hstatement hexchanged, fun h => ?_⟩
          rw [hsame h]

end Exchanges

/-! ## Conditions of rules -/

/-- The words of a statement up to a condition of a rule.  Other conditions stand in front of it.
The rule may be an action of another rule or a statement of a block, with other statements in front
of it. -/
inductive UpToCondition : List Word → Prop
  | condition {name : String} {event : Word} {arguments earlier : List Word} :
      EventWords true arguments → Terminated earlier →
      UpToCondition
        (ruleHeader name event ++ (arguments ++ .keyword "if" :: .operator "(" :: earlier))
  | action {name : String} {event : Word} {conditions : Option (List Node)}
      {arguments listed front inner : List Word} :
      EventWords true arguments →
      Derivable (.conditions conditions) listed (some (.operator "\x7b")) →
      Terminated front → UpToCondition inner →
      UpToCondition
        (ruleHeader name event ++ (arguments ++ (listed ++ .operator "\x7b" :: (front ++ inner))))
  | block {front inner : List Word} : Terminated front → UpToCondition inner →
      UpToCondition (.operator "\x7b" :: (front ++ inner))

namespace UpToCondition

variable {front phrase phrase' : List Word} {mark : Word}

/-- Such words start with a rule or with a block. -/
theorem starts (hfront : UpToCondition front) : Node.Starts front := by
  cases hfront with
  | condition => exact .of_kind (by simp) _
  | action => exact .of_kind (by simp) _
  | block => exact ⟨_, _, rfl, by simp, by simp⟩

/-- A statement whose words are known up to a condition comes to this condition. -/
theorem exchanges (hfront : UpToCondition front)
    (hphrase : Derivable (.expression node) phrase (some mark))
    (hphrase' : Derivable (.expression node') phrase' (some mark)) (rest : List Word) :
    Exchanges .expression id (front ++ (phrase ++ mark :: rest))
      (front ++ (phrase' ++ mark :: rest)) (node'.asCondition = node.asCondition) := by
  induction hfront with
  | condition harguments hearlier =>
      have hstarts : Node.Starts (phrase ++ mark :: rest) := by
        rcases hphrase with ⟨_, hphrase⟩
        exact (hphrase.starts trivial).append _
      have hitems :=
        (Exchanges.of_known hphrase hphrase' rest).items hstarts (.inl rfl) hearlier true
      simpa [itemLead] using (hitems.conditions.ruleConditions harguments).expression
  | action harguments hlisted hfront hinner ih =>
      have hitems := ih.items (hinner.starts.append _) (.inr rfl) hfront true
      simpa [itemLead] using (hitems.ruleActions harguments hlisted).expression
  | block hfront hinner ih =>
      have hitems := ih.items (hinner.starts.append _) (.inr rfl) hfront true
      simpa [itemLead] using hitems.block.expression

end UpToCondition

/-- The words of a script up to a condition of a rule.  Statements may stand in front of the one
that holds the rule. -/
inductive AwaitsCondition : List Word → Prop
  | intro {front statement : List Word} : Terminated front → UpToCondition statement →
      AwaitsCondition (front ++ statement)

/-- Another condition can be put in the place of a condition.  The script stands for the same nodes
if both conditions are the same as comparisons. -/
theorem AwaitsCondition.exchange {before phrase phrase' : List Word} {mark : Word}
    (hbefore : AwaitsCondition before)
    (hphrase : Derivable (.expression node) phrase (some mark))
    (hphrase' : Derivable (.expression node') phrase' (some mark))
    (hderives : DerivesScript nodes (before ++ (phrase ++ mark :: rest)) sites) :
    ∃ nodes' sites', DerivesScript nodes' (before ++ (phrase' ++ mark :: rest)) sites' ∧
      (node'.asCondition = node.asCondition → nodes' = nodes) := by
  rcases hbefore with ⟨hfront, hstatement⟩
  rw [List.append_assoc] at hderives ⊢
  exact (hstatement.exchanges hphrase hphrase' rest).script (hstatement.starts.append _) hfront
    hderives

end Workshop

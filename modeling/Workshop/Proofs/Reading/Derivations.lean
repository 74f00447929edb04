import Workshop.Proofs.Reading.Phrases
import Workshop.Proofs.Reading.Precedence

/-!
# Derivations

A grammar for the words of a script, without readers.  A derivation says that
words form a phrase of some category, and which node they stand for, when a given
word comes next.  One word is enough: whether a phrase goes on never depends on
more.

A derivation also lists the places at which expressions occur in its words, with
the role that each of them has there.

Main definitions:

- `Category`: what a phrase is, and what it stands for.
- `Role`, `Site`: an expression inside a phrase.
- `Derives`: the rules of the grammar.
- `DerivesScript`: statements with semicolons between them.
- `DerivesLinks`: operators, each with its right operand.
- `Script.words`: the words of a source text.

Main results:

- Theorem `OperatorTree.IsOrdered.derivable`: a tree that respects precedence can
  be derived from its operands and operators.
- Theorem `Derives.starts`: with which words an expression can start.
- Theorem `Derives.lieIn`: the sites are parts of the words, and not
  empty.
- Theorem `Derives.beforeEnd`: a phrase can also stand in front of a word that
  continues nothing.
-/

namespace Workshop

/-! ## Words -/

namespace Word

/-- A word that is not a binary operator. -/
def IsNoOperator (word : Word) : Prop :=
  word.kind = .operator → BinaryOperator.ofSymbol? word.text = none

/-- A word that does not continue a name: no second name, no value and no member follows. -/
def EndsName (word : Word) : Prop :=
  word.kind ≠ .identifier ∧ word ≠ keyword "player" ∧ word ≠ operator "=" ∧ word ≠ operator "."

/-- A word that continues no phrase at all. -/
structure EndsPhrase (word : Word) : Prop where
  isNoOperator : word.IsNoOperator
  endsName : word.EndsName
  notOpening : word ≠ operator "("
  notIf : word ≠ keyword "if"
  notElse : word ≠ keyword "else"

/-- Separators and brackets other than an opening parenthesis continue nothing. -/
theorem endsPhrase_operator {text : String} (htext : text ∈ [",", ";", ")", "\x7b", "\x7d"]) :
    EndsPhrase (operator text) := by
  simp only [List.mem_cons, List.not_mem_nil, or_false] at htext
  rcases htext with rfl | rfl | rfl | rfl | rfl
  all_goals exact ⟨fun _ => by decide, by simp [EndsName], by simp, by simp, by simp⟩

theorem endsPhrase_closing : EndsPhrase (operator ")") :=
  endsPhrase_operator (by simp)

theorem endsPhrase_brace : EndsPhrase (operator "\x7d") :=
  endsPhrase_operator (by simp)

theorem endsPhrase_semicolon : EndsPhrase (operator ";") :=
  endsPhrase_operator (by simp)

end Word

/-- The first of the given words, or the word behind them if there are none. -/
def firstOf (words : List Word) (next : Option Word) : Option Word :=
  words.head?.or next

@[simp]
theorem firstOf_nil (next : Option Word) : firstOf [] next = next :=
  rfl

@[simp]
theorem firstOf_cons (word : Word) (words : List Word) (next : Option Word) :
    firstOf (word :: words) next = some word :=
  rfl

/-- The first word of two parts. -/
@[simp]
theorem firstOf_append (first second : List Word) (next : Option Word) :
    firstOf (first ++ second) next = firstOf first (firstOf second next) := by
  cases first <;> rfl

/-- The first word, whatever follows. -/
theorem head?_append_eq_firstOf (words rest : List Word) :
    (words ++ rest).head? = firstOf words rest.head? := by
  cases words <;> rfl

/-- A test for one word. -/
theorem any_word_iff {kind : TokenKind} {text : String} {next : Option Word} :
    (next.any fun word => word.kind == kind && [text].contains word.text) = true ↔
      next = some ⟨kind, text⟩ := by
  cases next with
  | none => simp
  | some word =>
      rcases word with ⟨kind', text'⟩
      simp

/-! ## Sites of expressions -/

/-- What an expression is for the phrase around it. -/
inductive Role where
  /-- An operand of a binary operator. -/
  | operand
  /-- The operand of a negation. -/
  | negated
  /-- An element of a list: an argument of a call, a condition of a rule, or a statement. -/
  | element
  /-- The first value of a variable. -/
  | initial
  /-- The value of an assignment. -/
  | assigned
  /-- The value of a constant. -/
  | defined
  /-- The condition of a choice. -/
  | condition
  /-- A branch of a choice. -/
  | branch
deriving DecidableEq

/-- Whether an expression in this role is read up to its end for its own sake.  The other roles are
filled by operands with operators between them, without a call of their result. -/
def Role.isExpression : Role → Bool
  | operand | initial | assigned | defined => false
  | negated | element | condition | branch => true

/-- An expression among other words. -/
structure Site where
  role : Role
  before : List Word
  phrase : List Word
  behind : List Word
  /-- The condition of a choice whose branch starts with this expression, if there is one. -/
  conditions : List (List Word × Node)

namespace Site

/-- All the words. -/
def words (site : Site) : List Word :=
  site.before ++ site.phrase ++ site.behind

/-- The words with parentheses around the expression. -/
def enclosed (site : Site) : List Word :=
  site.before ++ .operator "(" :: site.phrase ++ .operator ")" :: site.behind

/-- An expression that is all there is. -/
def whole (role : Role) (phrase : List Word) : Site :=
  ⟨role, [], phrase, [], []⟩

/-- More words on both sides. -/
def within (left right : List Word) (site : Site) : Site :=
  { site with before := left ++ site.before, behind := site.behind ++ right }

/-- The condition of a choice in front.  It matters only if nothing stands between. -/
def behindCondition (words : List Word) (node : Node) (site : Site) : Site :=
  if site.before = [] then
    { site with conditions := (words, node) :: site.conditions }
  else site

variable (site : Site) (left right : List Word)

/-- The words of a site with more around it. -/
theorem words_within : (site.within left right).words = left ++ site.words ++ right := by
  simp [within, words]

/-- Its words with parentheses. -/
theorem enclosed_within :
    (site.within left right).enclosed = left ++ site.enclosed ++ right := by
  simp [within, enclosed]

@[simp]
theorem words_whole (role : Role) (phrase : List Word) : (whole role phrase).words = phrase := by
  simp [whole, words]

/-- A condition in front keeps the words. -/
@[simp]
theorem words_behindCondition (words : List Word) (node : Node) :
    (site.behindCondition words node).words = site.words := by
  unfold behindCondition
  split <;> rfl

/-- It keeps the phrase. -/
@[simp]
theorem phrase_behindCondition (words : List Word) (node : Node) :
    (site.behindCondition words node).phrase = site.phrase := by
  unfold behindCondition
  split <;> rfl

end Site

/-- Sites inside a phrase, as sites among the words around it. -/
def inside (left right : List Word) (sites : List Site) : List Site :=
  sites.map (Site.within left right)

/-- No words are added. -/
theorem inside_nil (sites : List Site) : inside [] [] sites = sites := by
  have hsame : Site.within [] [] = id := by
    funext site
    simp [Site.within]
  rw [inside, hsame, List.map_id]

/-! ## The grammar -/

/-- What a phrase is, and what it stands for. -/
inductive Category where
  /-- An atom without arguments behind it. -/
  | primary (node : Node)
  /-- An operand of an operator. -/
  | atom (node : Node)
  /-- Operands with operators between them, of which the weakest is the root. -/
  | tree (root : Option BinaryOperator) (node : Node)
  /-- Operands with operators between them, as many as there are. -/
  | operation (node : Node)
  /-- An expression. -/
  | expression (node : Node)
  /-- The arguments behind a phrase, if there are any.  They make another node of it. -/
  | suffix (head node : Node)
  /-- The elements of a list, with the closing bracket. -/
  | items (closing separator : String) (isFirst : Bool) (nodes : List Node)
  /-- The conditions of a rule, if it lists any. -/
  | conditions (nodes : Option (List Node))

/-- The arguments of an event, with the closing parenthesis.  Every word is an argument. -/
inductive EventWords : Bool → List Word → Prop
  | closed (isFirst : Bool) : EventWords isFirst [.operator ")"]
  | trailing : EventWords false [.operator ",", .operator ")"]
  | first {word : Word} {words : List Word} : word ≠ .operator ")" → EventWords false words →
      EventWords true (word :: words)
  | next {word : Word} {words : List Word} : word ≠ .operator ")" → EventWords false words →
      EventWords false (.operator "," :: word :: words)

/-- The words form a phrase of the category when `next` comes next.  The list holds the sites
of expressions in them. -/
inductive Derives : Category → List Word → Option Word → List Site → Prop
  | number {digits : String} {next : Option Word} :
      Derives (.primary (.number digits)) [⟨.number, digits⟩] next []
  | text {body : String} {next : Option Word} :
      Derives (.primary (.text body)) [⟨.string, body⟩] next []
  | boolean {value : Bool} {next : Option Word} :
      Derives (.primary (.boolean value)) [.keyword (if value then "true" else "false")] next []
  | useBank {domain : Domain} {bank : Bank} {next : Option Word} :
      Derives (.primary (.useBank domain bank))
        [.keyword "usevar", .keyword domain.keyword, .name bank.text] next []
  | parenthesised {node : Node} {words : List Word} {next : Option Word}
      {inner : List Site} :
      Derives (.expression node) words (some (.operator ")")) inner →
      Derives (.primary node) (.operator "(" :: (words ++ [.operator ")"])) next
        (inside [.operator "("] [.operator ")"] inner)
  | negation {node : Node} {words : List Word} {next : Option Word} {inner : List Site} :
      Derives (.expression node) words next inner →
      Derives (.primary (.negation node)) (.operator "!" :: words) next
        (inside [.operator "!"] [] (.whole .negated words :: inner))
  | block {nodes : List Node} {words : List Word} {next : Option Word} {inner : List Site} :
      Derives (.items "\x7d" ";" true nodes) words next inner →
      Derives (.primary (.block nodes)) (.operator "\x7b" :: words) next
        (inside [.operator "\x7b"] [] inner)
  | constant {name : String} {value : Node} {words : List Word} {next : Option Word}
      {inner : List Site} :
      Derives (.operation value) words next inner →
      Derives (.primary (.constant name value))
        (.keyword "const" :: .name name :: .operator "=" :: words) next
        (inside [.keyword "const", .name name, .operator "="] []
          (.whole .defined words :: inner))
  /-- A choice with one branch. -/
  | choice {condition branch : Node} {words words' : List Word} {next : Option Word}
      {inner inner' : List Site} :
      Derives (.expression condition) words (firstOf words' next) inner →
      Derives (.expression branch) words' next inner' → next ≠ some (.keyword "else") →
      Derives (.primary (.choice condition branch none)) (.keyword "if" :: (words ++ words')) next
        (inside [.keyword "if"] words' (.whole .condition words :: inner) ++
          inside (.keyword "if" :: words) []
            ((.whole .branch words' :: inner').map (.behindCondition words condition)))
  /-- A choice with two branches. -/
  | choiceElse {condition branch other : Node} {words words' words'' : List Word}
      {next : Option Word} {inner inner' inner'' : List Site} :
      Derives (.expression condition) words (firstOf words' (some (.keyword "else"))) inner →
      Derives (.expression branch) words' (some (.keyword "else")) inner' →
      Derives (.expression other) words'' next inner'' →
      Derives (.primary (.choice condition branch (some other)))
        (.keyword "if" :: (words ++ (words' ++ .keyword "else" :: words''))) next
        (inside [.keyword "if"] (words' ++ .keyword "else" :: words'')
            (.whole .condition words :: inner) ++
          inside (.keyword "if" :: words) (.keyword "else" :: words'')
            ((.whole .branch words' :: inner').map (.behindCondition words condition)) ++
          inside (.keyword "if" :: (words ++ (words' ++ [.keyword "else"]))) []
            (.whole .branch words'' :: inner''))
  | rule {name : String} {event : Word} {conditions : Option (List Node)} {actions : List Node}
      {arguments words words' : List Word} {next : Option Word} {inner inner' : List Site} :
      event.kind = .identifier ∨ event.kind = .keyword → EventWords true arguments →
      Derives (.conditions conditions) words (some (.operator "\x7b")) inner →
      Derives (.items "\x7d" ";" true actions) words' next inner' →
      Derives (.primary (.rule name event.text conditions actions))
        (ruleHeader name event ++ (arguments ++ (words ++ .operator "\x7b" :: words'))) next
        (inside (ruleHeader name event ++ arguments) (.operator "\x7b" :: words') inner ++
          inside (ruleHeader name event ++ (arguments ++ (words ++ [.operator "\x7b"]))) [] inner')
  | name {word : Word} {node : Node} {next : Option Word} :
      NameWord word node → (∀ other ∈ next, other.EndsName) →
      Derives (.primary node) [word] next []
  | assign {target : String} {value : Node} {words : List Word} {next : Option Word}
      {inner : List Site} :
      Derives (.operation value) words next inner →
      Derives (.primary (.assign target none value))
        (.name target :: .operator "=" :: words) next
        (inside [.name target, .operator "="] [] (.whole .assigned words :: inner))
  | enumMember {enumName member : String} {next : Option Word} : member ≠ "player" →
      Derives (.primary (.enumMember enumName member))
        [.name enumName, .operator ".", .keyword member] next []
  /-- A name with members.  A keyword behind the name would be a member of an enumeration. -/
  | member {word : Word} {node chain result : Node} {words : List Word} {next : Option Word}
      {inner : List Site} :
      NameWord word node → Derives (.atom chain) words next inner →
      (∀ other ∈ words.head?, node ≠ .player → other.kind = .keyword → other.text = "player") →
      Node.attach node chain = .ok result →
      Derives (.primary result) (word :: .operator "." :: words) next
        (inside [word, .operator "."] [] inner)
  | declare {typeWord : Word} {name : String} {perPlayer : Bool} {next : Option Word} :
      StartsWorded typeWord → next ≠ some (.operator "=") →
      Derives (.primary (.declare typeWord.text name perPlayer none))
        (declared typeWord perPlayer name) next []
  | declareInitial {typeWord : Word} {name : String} {perPlayer : Bool} {value : Node}
      {words : List Word} {next : Option Word} {inner : List Site} :
      StartsWorded typeWord → Derives (.operation value) words next inner →
      Derives (.primary (.declare typeWord.text name perPlayer (some value)))
        (declared typeWord perPlayer name ++ .operator "=" :: words) next
        (inside (declared typeWord perPlayer name ++ [.operator "="]) []
          (.whole .initial words :: inner))
  | noSuffix {head : Node} {next : Option Word} : next ≠ some (.operator "(") →
      Derives (.suffix head head) [] next []
  | call {head : Node} {arguments : List Node} {words : List Word} {next : Option Word}
      {inner : List Site} :
      Derives (.items ")" "," true arguments) words next inner → next ≠ some (.operator ".") →
      Derives (.suffix head (.call head none arguments)) (.operator "(" :: words) next
        (inside [.operator "("] [] inner)
  | callMember {head chain result : Node} {arguments : List Node} {words words' : List Word}
      {next : Option Word} {inner inner' : List Site} :
      Derives (.items ")" "," true arguments) words (some (.operator ".")) inner →
      Derives (.atom chain) words' next inner' →
      Node.attach (.call head none arguments) chain = .ok result →
      Derives (.suffix head result) (.operator "(" :: (words ++ .operator "." :: words')) next
        (inside [.operator "("] (.operator "." :: words') inner ++
          inside (.operator "(" :: (words ++ [.operator "."])) [] inner')
  | noItems {closing separator : String} {isFirst : Bool} {next : Option Word} :
      Derives (.items closing separator isFirst []) [.operator closing] next []
  | lastSeparator {closing separator : String} {next : Option Word} :
      Derives (.items closing separator false []) [.operator separator, .operator closing] next []
  | firstItem {closing separator : String} {node : Node} {nodes : List Node}
      {words words' : List Word} {next : Option Word} {inner inner' : List Site} :
      Derives (.expression node) words (firstOf words' next) inner →
      Derives (.items closing separator false nodes) words' next inner' →
      Derives (.items closing separator true (node :: nodes)) (words ++ words') next
        (inside [] words' (.whole .element words :: inner) ++ inside words [] inner')
  | nextItem {closing separator : String} {node : Node} {nodes : List Node}
      {words words' : List Word} {next : Option Word} {inner inner' : List Site} :
      Derives (.expression node) words (firstOf words' next) inner →
      Derives (.items closing separator false nodes) words' next inner' →
      Derives (.items closing separator false (node :: nodes))
        (.operator separator :: (words ++ words')) next
        (inside [.operator separator] words' (.whole .element words :: inner) ++
          inside (.operator separator :: words) [] inner')
  | noConditions {next : Option Word} : next ≠ some (.keyword "if") →
      Derives (.conditions none) [] next []
  | conditions {nodes : List Node} {words : List Word} {next : Option Word}
      {inner : List Site} :
      Derives (.items ")" ";" true nodes) words next inner →
      Derives (.conditions (some (nodes.map Node.asCondition)))
        (.keyword "if" :: .operator "(" :: words) next
        (inside [.keyword "if", .operator "("] [] inner)
  | atom {head node : Node} {words words' : List Word} {next : Option Word}
      {inner inner' : List Site} :
      Derives (.primary head) words (firstOf words' next) inner →
      Derives (.suffix head node) words' next inner' →
      Derives (.atom node) (words ++ words') next (inside [] words' inner ++ inside words [] inner')
  | single {node : Node} {words : List Word} {next : Option Word} {inner : List Site} :
      Derives (.atom node) words next inner → Derives (.tree none node) words next inner
  /-- A left operand binds at least as tightly as the operator, and a right operand more tightly. -/
  | binary {operator : BinaryOperator} {root root' : Option BinaryOperator} {left right : Node}
      {words words' : List Word} {next : Option Word} {inner inner' : List Site} :
      Derives (.tree root left) words (some (.operator operator.symbol)) inner →
      Derives (.tree root' right) words' next inner' →
      (∀ other ∈ root, operator.precedence ≤ other.precedence) →
      (∀ other ∈ root', operator.precedence < other.precedence) →
      Derives (.tree (some operator) (.binary operator left right))
        (words ++ .operator operator.symbol :: words') next
        (inside [] (.operator operator.symbol :: words') (.whole .operand words :: inner) ++
          inside (words ++ [.operator operator.symbol]) [] (.whole .operand words' :: inner'))
  | operation {root : Option BinaryOperator} {node : Node} {words : List Word}
      {next : Option Word} {inner : List Site} :
      Derives (.tree root node) words next inner → (∀ word ∈ next, word.IsNoOperator) →
      Derives (.operation node) words next inner
  | expression {head node : Node} {words words' : List Word} {next : Option Word}
      {inner inner' : List Site} :
      Derives (.operation head) words (firstOf words' next) inner →
      Derives (.suffix head node) words' next inner' →
      Derives (.expression node) (words ++ words') next
        (inside [] words' inner ++ inside words [] inner')

/-- Statements with semicolons between them.  There may be one more at the end. -/
inductive DerivesScript : List Node → List Word → List Site → Prop
  | nil : DerivesScript [] [] []
  | last {node : Node} {words : List Word} {inner : List Site} :
      Derives (.expression node) words none inner →
      DerivesScript [node] words (.whole .element words :: inner)
  | cons {node : Node} {nodes : List Node} {words words' : List Word}
      {inner inner' : List Site} :
      Derives (.expression node) words (some (.operator ";")) inner →
      DerivesScript nodes words' inner' →
      DerivesScript (node :: nodes) (words ++ .operator ";" :: words')
        (inside [] (.operator ";" :: words') (.whole .element words :: inner) ++
          inside (words ++ [.operator ";"]) [] inner')

/-- The words of a source text, with keywords told from identifiers. -/
def Script.words (source : String) : List Word :=
  (TokenStream.ofSource .standard source).ahead.map Token.word

/-- The words form a phrase of the category, whatever the sites in them are. -/
def Derivable (category : Category) (words : List Word) (next : Option Word) : Prop :=
  ∃ sites, Derives category words next sites

/-- The same words, written in another way. -/
theorem Derives.of_words {category : Category} {words words' : List Word} {next : Option Word}
    {sites : List Site} (hderives : Derives category words next sites) (hwords : words = words') :
    Derivable category words' next :=
  ⟨sites, hwords ▸ hderives⟩

namespace Derives

variable {node : Node} {words : List Word} {next : Option Word} {sites : List Site}

/-- An atom without arguments. -/
theorem withoutArguments (hderives : Derives (.primary node) words next sites)
    (hnext : next ≠ some (.operator "(")) : Derives (.atom node) words next sites := by
  have hatom := Derives.atom hderives (.noSuffix hnext)
  rwa [List.append_nil, inside_nil, inside, List.map_nil, List.append_nil] at hatom

/-- An expression whose result is not called. -/
theorem withoutCall (hderives : Derives (.operation node) words next sites)
    (hnext : next ≠ some (.operator "(")) : Derives (.expression node) words next sites := by
  have hexpression := Derives.expression hderives (.noSuffix hnext)
  rwa [List.append_nil, inside_nil, inside, List.map_nil, List.append_nil] at hexpression

/-- An expression that is a single atom without arguments. -/
theorem alone (hderives : Derives (.primary node) words next sites)
    (hnext : next ≠ some (.operator "(")) (hoperator : ∀ word ∈ next, word.IsNoOperator) :
    Derives (.expression node) words next sites :=
  (Derives.operation (.single (hderives.withoutArguments hnext)) hoperator).withoutCall hnext

end Derives

/-! ## Operators -/

/-- Operators with their right operands, one after the other. -/
inductive DerivesLinks : List Link → List Word → Option Word → Prop
  | nil {next : Option Word} : DerivesLinks [] [] next
  | cons {operator : BinaryOperator} {node : Node} {links : List Link} {words words' : List Word}
      {next : Option Word} :
      Derivable (.atom node) words (firstOf words' next) → DerivesLinks links words' next →
      DerivesLinks ((operator, node) :: links) (.operator operator.symbol :: (words ++ words')) next

/-- Operators can be split between two of them. -/
theorem DerivesLinks.split {links links' : List Link} {words : List Word} {next : Option Word}
    (hlinks : DerivesLinks (links ++ links') words next) :
    ∃ first second, words = first ++ second ∧ DerivesLinks links first (firstOf second next) ∧
      DerivesLinks links' second next := by
  induction links generalizing words with
  | nil => exact ⟨[], words, rfl, .nil, hlinks⟩
  | cons link links ih =>
      cases hlinks with
      | @cons operator node _ atomWords _ _ hatom hothers =>
          rcases ih hothers with ⟨first, second, rfl, hfirst, hsecond⟩
          refine ⟨.operator operator.symbol :: (atomWords ++ first), second, by simp, ?_, hsecond⟩
          rw [firstOf_append] at hatom
          exact .cons hatom hfirst

/-- The tree of a chain, if it respects precedence, is a tree of the grammar. -/
theorem OperatorTree.IsOrdered.derivable {tree : OperatorTree} (hordered : tree.IsOrdered)
    {first : Node} {links : List Link} (hchain : tree.inOrder = (first, links))
    {words words' : List Word} {next : Option Word}
    (hfirst : Derivable (.atom first) words (firstOf words' next))
    (hlinks : DerivesLinks links words' next) :
    Derivable (.tree tree.root? tree.toNode) (words ++ words') next := by
  induction tree generalizing first links words words' next with
  | operand node =>
      cases hchain
      cases hlinks
      rcases hfirst with ⟨sites, h⟩
      exact (Derives.single h).of_words (by simp)
  | operation operator left right ihleft ihright =>
      cases hchain
      rcases hordered with ⟨hroot, hroot', hleft, hright⟩
      rcases hlinks.split with ⟨leftWords, _, rfl, hleftLinks, hrest⟩
      cases hrest with
      | @cons _ _ _ rightWords others _ hatom hrightLinks =>
          rw [firstOf_append] at hfirst
          rcases ihleft hleft rfl hfirst hleftLinks with ⟨sites, h⟩
          rcases ihright hright rfl hatom hrightLinks with ⟨sites', h'⟩
          exact (Derives.binary h h' hroot hroot').of_words (by simp)

/-! ## First words -/

/-- Words of which the first closes no bracket. -/
def Node.Starts (words : List Word) : Prop :=
  ∃ word rest, words = word :: rest ∧ word ≠ ⟨.operator, ")"⟩ ∧ word ≠ ⟨.operator, "\x7d"⟩

namespace Node.Starts

/-- More words behind. -/
theorem append {first : List Word} (hfirst : Starts first) (second : List Word) :
    Starts (first ++ second) := by
  rcases hfirst with ⟨word, rest, rfl, hne⟩
  exact ⟨word, rest ++ second, rfl, hne⟩

/-- Words that are no operators close nothing. -/
theorem of_kind {word : Word} (hkind : word.kind ≠ .operator) (words : List Word) :
    Starts (word :: words) := by
  refine ⟨word, words, rfl, ?_, ?_⟩
  · rintro rfl
    exact hkind rfl
  · rintro rfl
    exact hkind rfl

/-- There is a first word. -/
theorem ne_nil {words : List Word} (hwords : Starts words) : words ≠ [] := by
  rcases hwords with ⟨word, rest, rfl, _⟩
  exact List.cons_ne_nil word rest

end Node.Starts

/-- A category of phrases that stand for a node. -/
def Category.IsPhrase : Category → Prop
  | primary _ | atom _ | tree _ _ | operation _ | expression _ => True
  | suffix _ _ | items _ _ _ _ | conditions _ => False

namespace Derives

variable {category : Category} {words words' : List Word} {next : Option Word}
  {sites : List Site}

/-- No phrase starts with a closing bracket. -/
theorem starts (hderives : Derives category words next sites)
    (hphrase : category.IsPhrase) : Node.Starts words := by
  induction hderives with
  | number | text | boolean | useBank | constant | choice | choiceElse | rule | assign
  | enumMember => exact .of_kind (by simp) _
  | parenthesised | negation | block => exact ⟨_, _, rfl, by simp, by simp⟩
  | name hname => cases hname <;> exact .of_kind (by simp) _
  | member hname => cases hname <;> exact .of_kind (by simp) _
  | declare htype =>
      rcases htype with htype | rfl | rfl
      all_goals exact .of_kind (by simp_all) _
  | declareInitial htype =>
      rcases htype with htype | rfl | rfl
      all_goals exact .of_kind (by simp_all) _
  | atom _ _ ih _ => exact (ih trivial).append _
  | single _ ih => exact ih trivial
  | binary _ _ _ _ ih _ => exact (ih trivial).append _
  | operation _ _ ih => exact ih trivial
  | expression _ _ ih _ => exact (ih trivial).append _
  | noSuffix | call | callMember | noItems | lastSeparator | firstItem | nextItem | noConditions
  | conditions => exact hphrase.elim

/-- Phrases are not empty. -/
theorem ne_nil (hderives : Derives category words next sites)
    (hphrase : category.IsPhrase) : words ≠ [] :=
  (hderives.starts hphrase).ne_nil

end Derives

/-! ## The places of the sites -/

/-- The sites are parts of the words, and not empty. -/
def LieIn (words : List Word) (sites : List Site) : Prop :=
  ∀ site ∈ sites, site.words = words ∧ site.phrase ≠ []

namespace LieIn

variable {words : List Word} {first second : List Site}

theorem nil (words : List Word) : LieIn words [] := by
  intro site hmem
  cases hmem

/-- Sites of two phrases. -/
theorem append (hfirst : LieIn words first) (hsecond : LieIn words second) :
    LieIn words (first ++ second) :=
  List.forall_mem_append.2 ⟨hfirst, hsecond⟩

/-- Sites with more words around. -/
theorem inside (hfirst : LieIn words first) (left right : List Word) :
    LieIn (left ++ words ++ right) (inside left right first) := by
  refine List.forall_mem_map.2 fun site hmem => ?_
  rw [Site.words_within, (hfirst site hmem).1]
  exact ⟨rfl, (hfirst site hmem).2⟩

/-- A phrase is a site of itself. -/
theorem whole (hfirst : LieIn words first) (hwords : words ≠ []) (role : Role) :
    LieIn words (.whole role words :: first) :=
  List.forall_mem_cons.2 ⟨⟨Site.words_whole role words, hwords⟩, hfirst⟩

/-- A condition in front keeps the sites. -/
theorem behindCondition (hfirst : LieIn words first) (front : List Word) (node : Node) :
    LieIn words (first.map (.behindCondition front node)) := by
  refine List.forall_mem_map.2 fun site hmem => ?_
  rw [Site.words_behindCondition, Site.phrase_behindCondition]
  exact hfirst site hmem

end LieIn

namespace Derives

variable {category : Category} {words words' : List Word} {next : Option Word}
  {sites : List Site}

/-- The sites of a derivation are parts of its words. -/
theorem lieIn (hderives : Derives category words next sites) :
    LieIn words sites := by
  induction hderives with
  | number | text | boolean | useBank | name | enumMember | declare | noSuffix | noItems
  | lastSeparator | noConditions => exact .nil _
  | parenthesised _ ih => simpa using ih.inside [.operator "("] [.operator ")"]
  | negation h ih => simpa using (ih.whole (h.ne_nil trivial) .negated).inside [.operator "!"] []
  | block _ ih => simpa using ih.inside [.operator "\x7b"] []
  | @constant name _ _ _ _ h ih =>
      simpa using (ih.whole (h.ne_nil trivial) .defined).inside
        [.keyword "const", .name name, .operator "="] []
  | @choice condition _ words words' _ _ _ h h' _ ih ih' =>
      have hfirst := (ih.whole (h.ne_nil trivial) .condition).inside [.keyword "if"] words'
      have hsecond := ((ih'.whole (h'.ne_nil trivial) .branch).behindCondition words
        condition).inside (.keyword "if" :: words) []
      exact .append (by simpa using hfirst) (by simpa using hsecond)
  | @choiceElse condition _ _ words words' words'' _ _ _ _ h h' h'' ih ih' ih'' =>
      have hfirst := (ih.whole (h.ne_nil trivial) .condition).inside [.keyword "if"]
        (words' ++ .keyword "else" :: words'')
      have hsecond := ((ih'.whole (h'.ne_nil trivial) .branch).behindCondition words
        condition).inside (.keyword "if" :: words) (.keyword "else" :: words'')
      have hthird := (ih''.whole (h''.ne_nil trivial) .branch).inside
        (.keyword "if" :: (words ++ (words' ++ [.keyword "else"]))) []
      exact .append (.append (by simpa using hfirst) (by simpa using hsecond))
        (by simpa using hthird)
  | @rule name event _ _ arguments words words' _ _ _ _ _ _ _ ih ih' =>
      have hfirst := ih.inside (ruleHeader name event ++ arguments) (.operator "\x7b" :: words')
      have hsecond :=
        ih'.inside (ruleHeader name event ++ (arguments ++ (words ++ [.operator "\x7b"]))) []
      exact .append (by simpa using hfirst) (by simpa using hsecond)
  | @assign target _ _ _ _ h ih =>
      simpa using (ih.whole (h.ne_nil trivial) .assigned).inside [.name target, .operator "="] []
  | @member word _ _ _ _ _ _ _ _ _ _ ih => simpa using ih.inside [word, .operator "."] []
  | @declareInitial typeWord name perPlayer _ _ _ _ _ h ih =>
      have hinitial := (ih.whole (h.ne_nil trivial) .initial).inside
        (declared typeWord perPlayer name ++ [.operator "="]) []
      simpa using hinitial
  | call _ _ ih => simpa using ih.inside [.operator "("] []
  | @callMember _ _ _ _ words words' _ _ _ _ _ _ ih ih' =>
      have hfirst := ih.inside [.operator "("] (.operator "." :: words')
      have hsecond := ih'.inside (.operator "(" :: (words ++ [.operator "."])) []
      exact .append (by simpa using hfirst) (by simpa using hsecond)
  | @firstItem _ _ _ _ words words' _ _ _ h _ ih ih' =>
      have hfirst := (ih.whole (h.ne_nil trivial) .element).inside [] words'
      have hsecond := ih'.inside words []
      exact .append (by simpa using hfirst) (by simpa using hsecond)
  | @nextItem _ separator _ _ words words' _ _ _ h _ ih ih' =>
      have hfirst := (ih.whole (h.ne_nil trivial) .element).inside [.operator separator] words'
      have hsecond := ih'.inside (.operator separator :: words) []
      exact .append (by simpa using hfirst) (by simpa using hsecond)
  | conditions _ ih => simpa using ih.inside [.keyword "if", .operator "("] []
  | @atom _ _ words words' _ _ _ _ _ ih ih' =>
      have hfirst := ih.inside [] words'
      have hsecond := ih'.inside words []
      exact .append (by simpa using hfirst) (by simpa using hsecond)
  | single _ ih => exact ih
  | @binary operator _ _ _ _ words words' _ _ _ h h' _ _ ih ih' =>
      have hfirst := (ih.whole (h.ne_nil trivial) .operand).inside []
        (.operator operator.symbol :: words')
      have hsecond := (ih'.whole (h'.ne_nil trivial) .operand).inside
        (words ++ [.operator operator.symbol]) []
      exact .append (by simpa using hfirst) (by simpa using hsecond)
  | operation _ _ ih => exact ih
  | @expression _ _ words words' _ _ _ _ _ ih ih' =>
      have hfirst := ih.inside [] words'
      have hsecond := ih'.inside words []
      exact .append (by simpa using hfirst) (by simpa using hsecond)

end Derives

/-! ## Words behind a phrase -/

namespace Derives

variable {category : Category} {words words' : List Word} {next : Option Word}
  {sites : List Site} {word : Word}

/-- A phrase in front of other words, if the given word may stand behind these. -/
theorem firstOf_end (hderives : Derives category words (firstOf words' next) sites)
    (hend : Derives category words (some word) sites) :
    Derives category words (firstOf words' (some word)) sites := by
  cases words' with
  | nil => exact hend
  | cons word others => exact hderives

/-- A word that continues nothing may follow every phrase. -/
theorem beforeEnd (hderives : Derives category words next sites) (hword : word.EndsPhrase) :
    Derives category words (some word) sites := by
  have hname : ∀ other ∈ some word, other.EndsName := by
    rintro _ ⟨⟩
    exact hword.endsName
  induction hderives with
  | number => exact .number
  | text => exact .text
  | boolean => exact .boolean
  | useBank => exact .useBank
  | parenthesised h => exact .parenthesised h
  | negation _ ih => exact .negation ih
  | block _ ih => exact .block ih
  | constant _ ih => exact .constant ih
  | choice h _ _ ih ih' => exact .choice (h.firstOf_end ih) ih' (by simpa using hword.notElse)
  | choiceElse h h' _ _ _ ih'' => exact .choiceElse h h' ih''
  | rule hevent harguments h _ _ ih' => exact .rule hevent harguments h ih'
  | name hnode => exact .name hnode hname
  | assign _ ih => exact .assign ih
  | enumMember hmember => exact .enumMember hmember
  | member hnode _ hkeyword hattach ih => exact .member hnode ih hkeyword hattach
  | declare htype => exact .declare htype (by simpa using hword.endsName.2.2.1)
  | declareInitial htype _ ih => exact .declareInitial htype ih
  | noSuffix => exact .noSuffix (by simpa using hword.notOpening)
  | call _ _ ih => exact .call ih (by simpa using hword.endsName.2.2.2)
  | callMember h _ hattach _ ih' => exact .callMember h ih' hattach
  | noItems => exact .noItems
  | lastSeparator => exact .lastSeparator
  | firstItem h _ ih ih' => exact .firstItem (h.firstOf_end ih) ih'
  | nextItem h _ ih ih' => exact .nextItem (h.firstOf_end ih) ih'
  | noConditions => exact .noConditions (by simpa using hword.notIf)
  | conditions _ ih => exact .conditions ih
  | atom h _ ih ih' => exact .atom (h.firstOf_end ih) ih'
  | single _ ih => exact .single ih
  | binary h _ hleft hright _ ih' => exact .binary h ih' hleft hright
  | operation _ _ ih =>
      refine .operation ih ?_
      rintro _ ⟨⟩
      exact hword.isNoOperator
  | expression h _ ih ih' => exact .expression (h.firstOf_end ih) ih'

end Derives

/-- The sites of a script are parts of its words. -/
theorem DerivesScript.lieIn {nodes : List Node} {words : List Word}
    {sites : List Site} (hderives : DerivesScript nodes words sites) :
    LieIn words sites := by
  induction hderives with
  | nil => exact .nil _
  | last h => exact h.lieIn.whole (h.ne_nil trivial) _
  | @cons _ _ words words' _ _ h _ ih =>
      have hfirst := (h.lieIn.whole (h.ne_nil trivial) .element).inside []
        (.operator ";" :: words')
      have hsecond := ih.inside (words ++ [.operator ";"]) []
      exact .append (by simpa using hfirst) (by simpa using hsecond)

end Workshop

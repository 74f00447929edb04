import Workshop.Proofs.Reading.ValidWords
import Mathlib.Algebra.Group.Nat.Even
import Mathlib.Data.List.DropRight

/-!
# The form of a tree

Compiling does not check again what reading a script has made sure of.  This
module spells out what that is.  All names, numbers and texts in the tree of a
script are spelled as the language wants it, members are asked of names, calls
and the player only, and the conditions of rules are operations.

Main definitions:

- `IsIdentifier`, `IsName`, `IsNumber`: the spelling of names and numbers.
- `LiteralBody`: the characters between the quotes of a literal.
- `Node.HasForm`: what reading makes sure of at one node.

Main results:

- Theorem `LiteralBody.even_backslashes`: the backslashes at the end of a literal
  are pairs.
- Theorem `Script.hasForm_of_parse`: all nodes of the tree of a script have this
  form.
-/

namespace Workshop

/-! ## Spelling -/

/-- A letter or an underscore, and then letters, digits and underscores. -/
def IsIdentifier (text : String) : Prop :=
  ∃ first others, text.toList = first :: others ∧ isWordStart first = true ∧
    ∀ c ∈ others, isWordChar c = true

/-- An identifier that is not reserved. -/
def IsName (text : String) : Prop :=
  IsIdentifier text ∧ text ∉ Vocabulary.standard.keywords

/-- Characters that can stand between two of the given quotes: plain ones, and pairs of a backslash
and a character that it protects.  None of them is a line break. -/
inductive LiteralBody (quote : Char) : List Char → Prop
  | nil : LiteralBody quote []
  | plain {c : Char} {rest : List Char} :
      c ≠ quote → c ≠ '\\' → isLineBreak c = false → LiteralBody quote rest →
      LiteralBody quote (c :: rest)
  | pair {c : Char} {rest : List Char} :
      isLineBreak c = false → LiteralBody quote rest → LiteralBody quote ('\\' :: c :: rest)

/-- Words are identifiers. -/
theorem isIdentifier_of_isWordLike {text : String} (hlike : isWordLike text = true) :
    IsIdentifier text := by
  unfold isWordLike at hlike
  split at hlike
  · cases hlike
  · rename_i first others htext
    rw [Bool.and_eq_true, List.all_eq_true] at hlike
    exact ⟨first, others, htext, hlike⟩

/-- Valid identifiers are names. -/
theorem isName_of_isValid {text : String} (hvalid : (Word.mk .identifier text).isValid = true) :
    IsName text := by
  have hname : isName text = true := hvalid
  rw [isName, Bool.and_eq_true, Bool.not_eq_true'] at hname
  refine ⟨isIdentifier_of_isWordLike hname.1, ?_⟩
  simpa [Vocabulary.isKeyword] using hname.2

namespace LiteralBody

variable {quote : Char} {body : List Char}

/-- The test for bodies is right. -/
theorem of_isLiteralBody (hbody : isLiteralBody quote body = true) : LiteralBody quote body := by
  fun_induction isLiteralBody quote body with
  | case1 => exact .nil
  | case2 => cases hbody
  | case3 d rest ih =>
      rw [Bool.and_eq_true, Bool.not_eq_true'] at hbody
      exact .pair hbody.1 (ih hbody.2)
  | case4 c rest hplain ih =>
      simp only [Bool.and_eq_true, Bool.not_eq_true', bne_iff_ne] at hbody
      exact .plain hbody.1.2 hplain hbody.1.1 (ih hbody.2)

/-- No line break stands in a literal. -/
theorem isLineBreak_eq_false (hbody : LiteralBody quote body) :
    ∀ c ∈ body, isLineBreak c = false := by
  induction hbody with
  | nil =>
      intro c hmem
      cases hmem
  | plain _ _ hbreak _ ih => exact List.forall_mem_cons.2 ⟨hbreak, ih⟩
  | pair hbreak _ ih =>
      exact List.forall_mem_cons.2 ⟨by decide, List.forall_mem_cons.2 ⟨hbreak, ih⟩⟩

/-- A character in front does not change the last run of a class that does not reach it. -/
theorem rtakeWhile_cons {p : Char → Bool} {c : Char} {chars : List Char}
    (hstops : ∃ d ∈ c :: chars, p d = false) :
    (c :: chars).rtakeWhile p = chars.rtakeWhile p := by
  induction chars using List.reverseRecOn with
  | nil =>
      rcases hstops with ⟨d, hmem, hd⟩
      cases List.mem_singleton.1 hmem
      simp [List.rtakeWhile, hd]
  | append_singleton init last ih =>
      rw [← List.cons_append, List.rtakeWhile_concat, List.rtakeWhile_concat]
      split
      · rename_i hlast
        rw [ih]
        rcases hstops with ⟨d, hmem, hd⟩
        rw [← List.cons_append, List.mem_append, List.mem_singleton] at hmem
        rcases hmem with hmem | rfl
        · exact ⟨d, hmem, hd⟩
        · rw [hlast] at hd
          cases hd
      · rfl

/-- The backslashes at the end of a literal are pairs, so that none of them protects the closing
quote. -/
theorem even_backslashes (hbody : LiteralBody quote body) :
    Even (body.rtakeWhile (· == '\\')).length := by
  induction hbody with
  | nil => exact ⟨0, rfl⟩
  | @plain c rest _ hplain _ _ ih =>
      rw [rtakeWhile_cons ⟨c, List.mem_cons_self, by simpa using hplain⟩]
      exact ih
  | @pair c rest _ _ ih =>
      by_cases hall : ∀ d ∈ c :: rest, (d == '\\') = true
      · rw [List.rtakeWhile_eq_self_iff.2 (List.forall_mem_cons.2 ⟨rfl, hall⟩)]
        rw [List.rtakeWhile_eq_self_iff.2 (List.forall_mem_cons.1 hall).2] at ih
        exact ih.add ⟨1, rfl⟩
      · simp only [not_forall, Bool.not_eq_true] at hall
        rcases hall with ⟨d, hmem, hd⟩
        rw [rtakeWhile_cons ⟨d, List.mem_cons_of_mem _ hmem, hd⟩, rtakeWhile_cons ⟨d, hmem, hd⟩]
        exact ih

end LiteralBody

/-- A literal has a body for some quote. -/
theorem exists_literalBody_of_isLiteral {text : String} (hliteral : isLiteral text = true) :
    ∃ quote, isQuote quote = true ∧ LiteralBody quote text.toList := by
  rw [isLiteral, Bool.or_eq_true] at hliteral
  rcases hliteral with hdouble | hsingle
  · exact ⟨'"', rfl, .of_isLiteralBody hdouble⟩
  · exact ⟨'\'', rfl, .of_isLiteralBody hsingle⟩

/-! ## Nodes -/

namespace Node

/-- The names in a node: of a variable, a constant or an enumeration. -/
def names : Node → List String
  | constant name _ => [name]
  | declare _ name _ _ => [name]
  | assign target _ _ => [target]
  | enumMember enumName _ => [enumName]
  | identifier name _ => [name]
  | _ => []

/-- The literals in a node: a text or the name of a rule. -/
def literals : Node → List String
  | rule name _ _ _ => [name]
  | text body => [body]
  | _ => []

/-- What a member is asked of. -/
def receiver? : Node → Option Node
  | assign _ receiver _ => receiver
  | call _ receiver _ => receiver
  | identifier _ receiver => receiver
  | _ => none

/-- The conditions of a rule. -/
def conditions : Node → List Node
  | rule _ _ conditions _ => conditions.getD []
  | _ => []

/-- What reading a script makes sure of at one node of its tree. -/
structure HasForm (node : Node) : Prop where
  conditions : ∀ condition ∈ node.conditions,
    ∃ operator left right, condition = binary operator left right
  receiver : ∀ receiver ∈ node.receiver?,
    (∃ name inner, receiver = identifier name inner) ∨
    (∃ callee inner arguments, receiver = call callee inner arguments) ∨ receiver = player
  names : ∀ name ∈ node.names, IsName name
  declaredType : ∀ {typeName name perPlayer initial},
    node = declare typeName name perPlayer initial →
    IsName typeName ∨ typeName = "var" ∨ typeName = "player"
  member : ∀ {enumName member}, node = enumMember enumName member →
    member ∈ Vocabulary.standard.keywords ∧ member ≠ "player"
  number : ∀ {digits}, node = number digits → IsNumber digits
  literals : ∀ body ∈ node.literals, ∃ quote, isQuote quote = true ∧ LiteralBody quote body.toList

/-- Operations have two operands. -/
theorem exists_binary_of_isOperation {node : Node} (hoperation : node.isOperation = true) :
    ∃ operator left right, node = binary operator left right := by
  cases node with
  | binary operator left right => exact ⟨operator, left, right, rfl⟩
  | _ => cases hoperation

/-- The three kinds of receivers. -/
theorem eq_of_isReceiver {node : Node} (hreceiver : node.isReceiver = true) :
    (∃ name inner, node = identifier name inner) ∨
    (∃ callee inner arguments, node = call callee inner arguments) ∨ node = player := by
  cases node with
  | identifier name inner => exact .inl ⟨name, inner, rfl⟩
  | call callee inner arguments => exact .inr (.inl ⟨callee, inner, arguments, rfl⟩)
  | player => exact .inr (.inr rfl)
  | _ => cases hreceiver

/-- A node whose words are valid has the form that reading makes sure of. -/
theorem Fits.hasForm {node : Node} (hfits : node.Fits fun word => word.isValid = true) :
    node.HasForm where
  conditions condition hmem := by
    cases node with
    | rule name event conditions actions =>
        cases conditions with
        | none => cases hmem
        | some conditions =>
            exact exists_binary_of_isOperation (hfits.2.2 conditions rfl condition hmem)
    | _ => cases hmem
  receiver receiver hmem := by
    cases node with
    | assign target inner value => exact eq_of_isReceiver (hfits.2 receiver hmem)
    | call callee inner arguments => exact eq_of_isReceiver (hfits receiver hmem)
    | identifier name inner => exact eq_of_isReceiver (hfits.2 receiver hmem)
    | _ => cases hmem
  names name hmem := by
    cases node with
    | constant given value =>
        cases List.mem_singleton.1 hmem
        exact isName_of_isValid hfits
    | declare typeName given perPlayer initial =>
        cases List.mem_singleton.1 hmem
        exact isName_of_isValid hfits.2
    | assign target receiver value =>
        cases List.mem_singleton.1 hmem
        exact isName_of_isValid hfits.1
    | enumMember enumName member =>
        cases List.mem_singleton.1 hmem
        exact isName_of_isValid hfits.1
    | identifier given receiver =>
        cases List.mem_singleton.1 hmem
        exact isName_of_isValid hfits.1
    | _ => cases hmem
  declaredType := by
    rintro typeName name perPlayer initial rfl
    exact hfits.1.imp_left isName_of_isValid
  member := by
    rintro enumName member rfl
    rcases hfits with ⟨_, hkeyword, hplayer⟩
    exact ⟨by simpa [Word.isValid, Vocabulary.isKeyword] using hkeyword, hplayer⟩
  number := by
    rintro digits rfl
    exact isNumeral_iff.1 hfits
  literals body hmem := by
    cases node with
    | rule name event conditions actions =>
        cases List.mem_singleton.1 hmem
        exact exists_literalBody_of_isLiteral hfits.1
    | text given =>
        cases List.mem_singleton.1 hmem
        exact exists_literalBody_of_isLiteral hfits
    | _ => cases hmem

end Node

/-- The tree of a script is a block, and at every depth of it the nodes have the form that compiling
relies on.  Literals have no line breaks in them, and no single backslash at their end. -/
theorem Script.hasForm_of_parse {source : String} {tree : Node}
    (hparse : Script.parse source = .ok tree) :
    (∃ statements, tree = .block statements) ∧
    ∀ node : Node, node.StandsIn tree → node.HasForm ∧
      ∀ body ∈ node.literals, (∀ c ∈ body.toList, isLineBreak c = false) ∧
        Even (body.toList.rtakeWhile (· == '\\')).length := by
  rcases Script.isWellFormed_of_parse hparse with ⟨hwell, hblock⟩
  refine ⟨hblock, ?_⟩
  intro node hstands
  have hform := (hwell node hstands).hasForm
  refine ⟨hform, ?_⟩
  intro body hmem
  rcases hform.literals body hmem with ⟨quote, _, hbody⟩
  exact ⟨hbody.isLineBreak_eq_false, hbody.even_backslashes⟩

/-- A rule whose name ends in two backslashes, with a bare condition. -/
theorem Script.hasForm_of_parse_backslashes :
    ∃ tree rule : Node,
      Script.parse "rule 'end\\\\': Event.player() if (alive) \x7b score = Team.global \x7d" =
        .ok tree ∧
      rule.StandsIn tree ∧ "end\\\\" ∈ rule.literals ∧ rule.conditions.length = 1 ∧
      rule.HasForm := by
  have hfound : ((Script.parse
      "rule 'end\\\\': Event.player() if (alive) \x7b score = Team.global \x7d").toOption.any
      fun tree => tree.parts.any fun node =>
        node.literals.contains "end\\\\" && node.conditions.length == 1) = true := by
    decide +kernel
  generalize hparse : Script.parse
    "rule 'end\\\\': Event.player() if (alive) \x7b score = Team.global \x7d" = outcome at hfound
  cases outcome with
  | error diagnostic => cases hfound
  | ok tree =>
      rcases List.any_eq_true.1 hfound with ⟨rule, hrule, htests⟩
      rw [Bool.and_eq_true, List.contains_iff_mem, beq_iff_eq] at htests
      have hstands : rule.StandsIn tree := .inPart hrule (.here rule)
      exact ⟨tree, rule, rfl, hstands, htests.1, htests.2,
        ((Script.hasForm_of_parse hparse).2 rule hstands).1⟩

end Workshop

import Workshop.Proofs.Output.Layouts
import Workshop.Proofs.Reading.TreeForm

/-!
# The headers of rules

The header of a rule has the name of the rule between double quotes.  The name is
the body of a string literal of the script, and such a literal may have single
quotes around it.  This module follows the name from there into the header, and
says when the header is a string literal again.

Main definitions:

- `unescape`: what the body of a literal stands for.
- `hasBareQuote`: whether a double quote stands unprotected in a body.
- `IsStringToken`: a text is one string token, and nothing else.
- `IsWrittenBetween`: a string token of a source text, with its quotes.
- `RuleLayout.HasHeader`: what is known about the header of a rule.

Main results:

- Theorem `exists_isStringToken_iff`: a body between double quotes is one token
  exactly if it has no bare double quote.
- Theorem `isStringToken_escapeQuotes`: escaping the bare quotes is enough for
  this, and does not change what the body stands for.
- Theorem `isWrittenBetween_of_parse`: rules are named by literals of the source.
- Theorem `compile_writes_headers`: the headers of an accepted program.
-/

namespace Workshop

/-! ## Bodies between double quotes -/

/-- What the body of a string literal stands for.  A backslash gives way to the character that it
protects. -/
def unescape : List Char → List Char
  | [] => []
  | c :: rest =>
    if c = '\\' then
      match rest with
      | [] => [c]
      | d :: rest => d :: unescape rest
    else c :: unescape rest

/-- Whether there is a double quote that no backslash protects. -/
def hasBareQuote : List Char → Bool
  | [] => false
  | c :: rest =>
    if c = '\\' then
      match rest with
      | [] => false
      | _ :: rest => hasBareQuote rest
    else c == '"' || hasBareQuote rest

/-- A body between double quotes. -/
def doubleQuoted (body : String) : String :=
  "\"" ++ body ++ "\""

/-- A text is one string token with the given body, and nothing else. -/
def IsStringToken (text body : String) : Prop :=
  lex .standard text = ⟨[⟨.string, body, .start⟩], none⟩
deriving Decidable

/-- The characters of a quoted text. -/
theorem toList_doubleQuoted (body : String) :
    (doubleQuoted body).toList = '"' :: (body.toList ++ ['"']) := by
  simp [doubleQuoted]

/-- Of the bodies of literals, those between double quotes have no bare double quote. -/
theorem isLiteralBody_double_iff {quote : Char} {body : List Char}
    (hbody : isLiteralBody quote body = true) :
    isLiteralBody '"' body = true ↔ hasBareQuote body = false := by
  fun_induction isLiteralBody quote body with
  | case1 => simp [isLiteralBody, hasBareQuote]
  | case2 => cases hbody
  | case3 d rest ih =>
      rw [Bool.and_eq_true] at hbody
      simp [isLiteralBody, hasBareQuote, hbody.1, ih hbody.2]
  | case4 c rest hplain ih =>
      rw [Bool.and_eq_true, Bool.and_eq_true] at hbody
      rw [isLiteralBody.eq_def, hasBareQuote.eq_def]
      simp [hplain, hbody.1.1, ih hbody.2]

/-- The part of a body before its first bare double quote. -/
theorem exists_cut_of_hasBareQuote {quote : Char} {body : List Char}
    (hbody : isLiteralBody quote body = true) (hbare : hasBareQuote body = true) :
    ∃ before behind, body = before ++ '"' :: behind ∧ isLiteralBody '"' before = true := by
  fun_induction isLiteralBody quote body with
  | case1 => cases hbare
  | case2 => cases hbody
  | case3 d rest ih =>
      rw [Bool.and_eq_true] at hbody
      have hrest : hasBareQuote rest = true := by simpa [hasBareQuote] using hbare
      rcases ih hbody.2 hrest with ⟨before, behind, rfl, hbefore⟩
      exact ⟨'\\' :: d :: before, behind, rfl, by simp [isLiteralBody, hbody.1, hbefore]⟩
  | case4 c rest hplain ih =>
      rw [Bool.and_eq_true, Bool.and_eq_true] at hbody
      by_cases hquote : c = '"'
      · exact ⟨[], rest, by rw [hquote, List.nil_append], rfl⟩
      · rw [hasBareQuote.eq_def] at hbare
        have hrest : hasBareQuote rest = true := by simpa [hplain, hquote] using hbare
        rcases ih hbody.2 hrest with ⟨before, behind, rfl, hbefore⟩
        refine ⟨c :: before, behind, rfl, ?_⟩
        rw [isLiteralBody.eq_def]
        simp [hplain, hquote, hbody.1.1, hbefore]

/-- A body without bare double quotes is one token between them. -/
theorem isStringToken_doubleQuoted {body : String} (hbody : isLiteralBody '"' body.toList = true) :
    IsStringToken (doubleQuoted body) body := by
  have hoperators : "" ∉ Vocabulary.standard.operators := by decide
  have hmaximal : Lexeme.Maximal .standard ⟨.string, '"' :: (body.toList ++ ['"'])⟩ [] :=
    .literal [] rfl hbody
  have hsegmented := Segmented.cons hmaximal (.stop [])
  rw [IsStringToken, lex, toList_doubleQuoted,
    ← List.append_nil ('"' :: (body.toList ++ ['"'])), hsegmented.lexFrom_eq hoperators rfl]
  simp [tokensFrom, Lexeme.text]

/-- Lexing finds a token or a fault in a text, unless the text is empty. -/
theorem eq_nil_of_lexFrom {vocabulary : Vocabulary} {input : List Char} {position : Position}
    (htokens : (lexFrom vocabulary input position 0).tokens = [])
    (hfault : (lexFrom vocabulary input position 0).fault = none) : input = [] := by
  cases hscan : Lexeme.scan? vocabulary input with
  | none =>
      rw [lexFrom_of_scan?_eq_none position hscan] at hfault
      simpa using hfault
  | some lexeme =>
      rw [lexFrom_eq vocabulary input position hscan] at htokens
      cases htokens

/-- At a bare double quote the token ends, and there is more of the text behind it. -/
theorem not_isStringToken_of_hasBareQuote {quote : Char} {body : String}
    (hbody : isLiteralBody quote body.toList = true) (hbare : hasBareQuote body.toList = true)
    (text : String) : ¬ IsStringToken (doubleQuoted body) text := by
  rcases exists_cut_of_hasBareQuote hbody hbare with ⟨before, behind, hcut, hbefore⟩
  intro htoken
  have hscan : Lexeme.scan? .standard ('"' :: (body.toList ++ ['"'])) =
      some ⟨.string, '"' :: (before ++ ['"'])⟩ := by
    rw [hcut, List.append_assoc, List.cons_append, Lexeme.scan?_quote rfl,
      Lexeme.literalBody?_append hbefore (by decide), Option.map_some]
  rw [IsStringToken, lex, toList_doubleQuoted, lexFrom_eq _ _ _ hscan] at htoken
  have hnone := eq_nil_of_lexFrom (List.cons.inj (congrArg Lexed.tokens htoken)).2
    (congrArg Lexed.fault htoken)
  simp [hcut] at hnone

/-- A body between double quotes is one token exactly if it has no bare double quote. -/
theorem exists_isStringToken_iff {quote : Char} {body : String}
    (hbody : isLiteralBody quote body.toList = true) :
    (∃ text, IsStringToken (doubleQuoted body) text) ↔ hasBareQuote body.toList = false := by
  constructor
  · rintro ⟨text, htoken⟩
    by_contra hbare
    exact not_isStringToken_of_hasBareQuote hbody (Bool.not_eq_false _ ▸ hbare) text htoken
  · intro hbare
    exact ⟨body, isStringToken_doubleQuoted ((isLiteralBody_double_iff hbody).2 hbare)⟩

/-- If a body is one token between double quotes, it is the body of that token. -/
theorem eq_of_isStringToken {quote : Char} {body text : String}
    (hbody : isLiteralBody quote body.toList = true)
    (htoken : IsStringToken (doubleQuoted body) text) : text = body := by
  have hbare := (exists_isStringToken_iff hbody).1 ⟨text, htoken⟩
  have hown := isStringToken_doubleQuoted ((isLiteralBody_double_iff hbody).2 hbare)
  cases htoken.symm.trans hown
  rfl

/-! ## Escaped bodies -/

/-- Escaped quotes do not end a text. -/
theorem isLiteralBody_escapeQuotes {quote : Char} {body : List Char}
    (hbody : isLiteralBody quote body = true) :
    isLiteralBody '"' (Term.escapeQuotes body) = true := by
  fun_induction isLiteralBody quote body with
  | case1 => rfl
  | case2 => cases hbody
  | case3 d rest ih =>
      rw [Bool.and_eq_true] at hbody
      simp [Term.escapeQuotes, isLiteralBody, hbody.1, ih hbody.2]
  | case4 c rest hplain ih =>
      rw [Bool.and_eq_true, Bool.and_eq_true] at hbody
      rw [Term.escapeQuotes.eq_def]
      by_cases hquote : c = '"'
      · simp [hquote, isLiteralBody, isLineBreak, ih hbody.2]
      · simp only [hplain, hquote, if_false]
        rw [isLiteralBody.eq_def]
        simp [hplain, hquote, hbody.1.1, ih hbody.2]

/-- Escaped quotes mean quotes. -/
theorem unescape_escapeQuotes (body : List Char) :
    unescape (Term.escapeQuotes body) = unescape body := by
  fun_induction Term.escapeQuotes body with
  | case1 => rfl
  | case2 => rfl
  | case3 d rest ih => simp [unescape, ih]
  | case4 rest _ ih =>
      have hquote : unescape ('"' :: rest) = '"' :: unescape rest := by
        rw [unescape.eq_def]
        rfl
      rw [hquote, ← ih]
      rfl
  | case5 c rest hplain _ ih =>
      rw [unescape.eq_def, unescape.eq_def]
      simp [hplain, ih]

/-- Escaping the bare double quotes makes a token of any body, and the token stands for the same
characters. -/
theorem isStringToken_escapeQuotes {quote : Char} {body : String}
    (hbody : isLiteralBody quote body.toList = true) :
    ∃ text, IsStringToken (doubleQuoted (String.ofList (Term.escapeQuotes body.toList))) text ∧
      unescape text.toList = unescape body.toList := by
  refine ⟨_, isStringToken_doubleQuoted ?_, ?_⟩
  · rw [String.toList_ofList]
    exact isLiteralBody_escapeQuotes hbody
  · rw [String.toList_ofList]
    exact unescape_escapeQuotes body.toList

/-! ## Literals of a source text -/

/-- A string token of a source text with the given body, and the quotes between which it stands. -/
def IsWrittenBetween (source : String) (quote : Char) (body : String) : Prop :=
  ∃ before behind, source.toList = before ++ quote :: (body.toList ++ quote :: behind) ∧
    ⟨.string, body, Position.start.advance before⟩ ∈ (lex .standard source).tokens

/-- A text comes from a lexeme with quotes. -/
theorem Segmented.exists_literal {vocabulary : Vocabulary} {input rest : List Char}
    {lexemes : List Lexeme} (hsegmented : Segmented vocabulary input lexemes rest)
    {position : Position} {token : Token} (hmem : token ∈ tokensFrom position lexemes)
    (hkind : token.kind = .string) :
    ∃ quote before behind, isQuote quote = true ∧ isLiteralBody quote token.text.toList = true ∧
      input = before ++ quote :: (token.text.toList ++ quote :: behind) ∧
      token.position = position.advance before := by
  induction hsegmented generalizing position with
  | stop rest => cases hmem
  | @cons lexeme lexemes following rest hmaximal _ ih =>
      rcases List.mem_cons.1 hmem with rfl | hmem
      · cases hmaximal with
        | @literal quote body _ hquote hbody =>
            refine ⟨quote, [], following, hquote, ?_, ?_, rfl⟩
            · simpa [Lexeme.text] using hbody
            · simp [Lexeme.text]
        | _ => cases hkind
      · rcases ih hmem with ⟨quote, before, behind, hquote, hbody, rfl, hposition⟩
        refine ⟨quote, lexeme.chars ++ before, behind, hquote, hbody, ?_, ?_⟩
        · rw [List.append_assoc]
        · rw [hposition, Position.advance_append]

/-- A string that the grammar reads is a literal of the source text. -/
theorem isWrittenBetween_of_mem_ahead {source body : String}
    (hword : ∃ token ∈ (TokenStream.ofSource .standard source).ahead,
      token.word = ⟨.string, body⟩) :
    ∃ quote, isQuote quote = true ∧ isLiteralBody quote body.toList = true ∧
      IsWrittenBetween source quote body := by
  rcases hword with ⟨token, hmem, hword⟩
  rcases List.mem_map.1 hmem with ⟨lexed, hfiltered, rfl⟩
  have hlexed := (List.mem_filter.1 hfiltered).1
  -- Keywords are told from identifiers, and strings are left alone.
  have hplain : TokenStream.classify .standard lexed = lexed := by
    unfold TokenStream.classify at hword ⊢
    split
    · rename_i hkeyword
      rw [if_pos hkeyword] at hword
      cases Token.kind_eq hword
    · rfl
  rw [hplain] at hword
  have hkind : lexed.kind = .string := Token.kind_eq hword
  cases Token.text_eq hword
  rcases lexFrom_segmented .standard source.toList .start with
    ⟨lexemes, rest, hsegmented, _, hsource⟩
  have hfound : lexed ∈ tokensFrom .start lexemes := by
    rw [lex, hsource] at hlexed
    exact hlexed
  rcases hsegmented.exists_literal hfound hkind with
    ⟨quote, before, behind, hquote, hbody, hcut, hposition⟩
  refine ⟨quote, hquote, hbody, before, behind, hcut, ?_⟩
  have hsame : lexed = ⟨.string, lexed.text, Position.start.advance before⟩ := by
    rw [← hposition, ← hkind]
  exact hsame ▸ hlexed

/-! ## Names of rules -/

namespace Node

mutual

/-- The names of the rules in a top level statement. -/
def ruleNames : Node → List String
  | block statements => ruleNamesList statements
  | rule name _ _ _ => [name]
  | _ => []
termination_by structural node => node

/-- The names of the rules in several top level statements. -/
def ruleNamesList : List Node → List String
  | [] => []
  | node :: rest => ruleNames node ++ ruleNamesList rest
termination_by structural nodes => nodes

end

/-- The names of the rules are listed. -/
theorem listsRules_ruleNames : ListsRules ruleNames ruleNamesList :=
  ⟨fun _ => rfl, fun _ _ => rfl, fun _ _ _ _ => rfl, fun _ _ => rfl, rfl, fun _ _ => rfl⟩

/-- They are listed node by node. -/
theorem ruleNamesList_eq_flatMap (nodes : List Node) :
    ruleNamesList nodes = nodes.flatMap ruleNames := by
  induction nodes with
  | nil => rfl
  | cons node rest ih => rw [ruleNamesList, List.flatMap_cons, ih]

/-- They are valid texts. -/
theorem Proper.valid_of_mem_ruleNames {valid : Word → Prop} {node : Node} {name : String}
    (hproper : node.Proper valid) (hmem : name ∈ node.ruleNames) : valid ⟨.string, name⟩ := by
  induction node with
  | block statements ih =>
      rw [ruleNames, ruleNamesList_eq_flatMap] at hmem
      rcases List.mem_flatMap.1 hmem with ⟨statement, hstatement, hmem⟩
      exact ih statement hstatement (proper_block.1 hproper statement hstatement) hmem
  | rule given event conditions actions _ _ =>
      cases List.mem_singleton.1 hmem
      exact (proper_rule.1 hproper).1
  | _ => cases hmem

end Node

/-- The rules of a script are named by literals of its source text. -/
theorem isWrittenBetween_of_parse {source name : String} {tree : Node}
    (hparse : Script.parse source = .ok tree) (hmem : name ∈ tree.ruleNames) :
    ∃ quote, isQuote quote = true ∧ isLiteralBody quote name.toList = true ∧
      IsWrittenBetween source quote name := by
  let valid : Word → Prop := fun word =>
    ∃ token ∈ (TokenStream.ofSource .standard source).ahead, token.word = word
  have hproper : tree.Proper valid :=
    (Script.proper_of_parse (fun token htoken => ⟨token, htoken, rfl⟩) hparse).1
  exact isWrittenBetween_of_mem_ahead (hproper.valid_of_mem_ruleNames hmem)

/-- The rules of a program are laid out in their order, each under its name. -/
theorem Catalog.map_name_of_ruleLayouts {catalog : Catalog} {node : Node}
    {layouts : List RuleLayout} {state final : CompileState}
    (hrun : catalog.ruleLayouts node state = .ok layouts final) :
    layouts.map RuleLayout.name = node.ruleNames := by
  have hnames : List.Forall₂ (fun name layout => name = RuleLayout.name layout) node.ruleNames
      layouts := by
    refine forall₂_ruleLayouts Node.listsRules_ruleNames ?_ .refl hrun
    intro name event conditions actions state layout final _ hlayout
    rcases ruleLayout_eq_ok.1 hlayout with ⟨_, _, _, _, _, _, _, rfl, _⟩
    exact .cons rfl .nil
  rw [← List.forall₂_map_right_iff, List.forall₂_eq_eq_eq] at hnames
  exact hnames.symm

/-! ## Headers -/

/-- The first line of a rule. -/
theorem RuleLayout.render_eq (layout : RuleLayout) :
    ∃ below, layout.render = "rule(" ++ doubleQuoted layout.name ++ ")" ++ "\n" ++ below := by
  let body := Line.write 1 false (layout.body ++ [.dedent, .text "\x7d"])
  refine ⟨String.ofList ('\x7b' :: body), String.toList_inj.1 ?_⟩
  simp [render, Line.render, lines, Line.inSection, Line.write, doubleQuoted, body]

/-- What is known about the header of a rule, given the source text of the rule. -/
structure RuleLayout.HasHeader (layout : RuleLayout) (source : String) : Prop where
  /-- The header has the name between double quotes, and is a line of its own. -/
  line : ∃ below, layout.render = "rule(" ++ doubleQuoted layout.name ++ ")" ++ "\n" ++ below
  oneLine : ∀ c ∈ layout.name.toList, isLineBreak c = false
  /-- The name is written in the source, and if it has bare double quotes, between single ones. -/
  written : ∃ quote, isQuote quote = true ∧ IsWrittenBetween source quote layout.name ∧
    (hasBareQuote layout.name.toList = true → quote = '\'')
  /-- The name in the header is a string token again, unless it has bare double quotes. -/
  token : (∃ body, IsStringToken (doubleQuoted layout.name) body) ↔
    hasBareQuote layout.name.toList = false
  /-- If it is, it stands for the same characters. -/
  meaning : ∀ body, IsStringToken (doubleQuoted layout.name) body →
    unescape body.toList = unescape layout.name.toList
  /-- With its bare quotes escaped, it would always be one that does. -/
  escaped : ∃ body,
    IsStringToken (doubleQuoted (String.ofList (Term.escapeQuotes layout.name.toList))) body ∧
      unescape body.toList = unescape layout.name.toList

/-- A layout has its header. -/
theorem hasHeader {source : String} {layout : RuleLayout} {quote : Char}
    (hquote : isQuote quote = true) (hbody : isLiteralBody quote layout.name.toList = true)
    (hwritten : IsWrittenBetween source quote layout.name) : layout.HasHeader source where
  line := layout.render_eq
  oneLine := (LiteralBody.of_isLiteralBody hbody).isLineBreak_eq_false
  written := by
    refine ⟨quote, hquote, hwritten, ?_⟩
    intro hbare
    rw [isQuote, Bool.or_eq_true, beq_iff_eq, beq_iff_eq] at hquote
    rcases hquote with rfl | rfl
    · rw [(isLiteralBody_double_iff hbody).1 hbody] at hbare
      cases hbare
    · rfl
  token := exists_isStringToken_iff hbody
  meaning body htoken := by rw [eq_of_isStringToken hbody htoken]
  escaped := isStringToken_escapeQuotes hbody

/-- The headers of an accepted program.  Its rules are written in their order, each below a header
with its name.  The name in the header is a string literal that stands for the same characters as
the literal in the source, unless the source has it between single quotes and with a double quote
that is not escaped. -/
theorem compile_writes_headers {source text : String} {options : CompileOptions}
    (haccepted : compile source options = .ok text) :
    ∃ program layouts final, Script.parse source = .ok program ∧
      Catalog.standard.ruleLayouts program (Point.start .initial program).state =
        .ok layouts final ∧
      text = options.finish ("\n\n".intercalate (layouts.map RuleLayout.render)) ∧
      layouts.map RuleLayout.name = program.ruleNames ∧
      ∀ layout ∈ layouts, layout.HasHeader source := by
  rcases layouts_of_compile haccepted with ⟨program, layouts, final, hparse, hlayouts, rfl⟩
  have hnames := Catalog.map_name_of_ruleLayouts hlayouts
  refine ⟨program, layouts, final, hparse, hlayouts, rfl, hnames, ?_⟩
  intro layout hmem
  have hname : layout.name ∈ program.ruleNames := hnames ▸ List.mem_map_of_mem hmem
  rcases isWrittenBetween_of_parse hparse hname with ⟨quote, hquote, hbody, hwritten⟩
  exact hasHeader hquote hbody hwritten

/-- Two rules, the first of which is named between single quotes. -/
theorem compile_writes_headers_mixedQuotes :
    let source :=
      "rule 'say \"hi\"': Event.global() \x7b\x7d; rule \"it's\": Event.global() \x7b\x7d"
    let text := "\n".intercalate ["rule(\"say \"hi\"\")", "\x7b", "\tevent", "\t\x7b",
      "\t\tOngoing - Global;", "\t\x7d", "", "\tactions", "\t\x7b", "\t\x7d", "\x7d", "",
      "rule(\"it's\")", "\x7b", "\tevent", "\t\x7b", "\t\tOngoing - Global;", "\t\x7d", "",
      "\tactions", "\t\x7b", "\t\x7d", "\x7d"]
    compile source ⟨false⟩ = .ok text ∧
      ∃ program layouts final, Script.parse source = .ok program ∧
        Catalog.standard.ruleLayouts program (Point.start .initial program).state =
          .ok layouts final ∧
        layouts.map RuleLayout.name = program.ruleNames ∧
        ∀ layout ∈ layouts, layout.HasHeader source := by
  intro source text
  have haccepted : compile source ⟨false⟩ = .ok text :=
    Except.toOption_eq_some.1 (by decide +kernel)
  rcases compile_writes_headers haccepted with
    ⟨program, layouts, final, hparse, hlayouts, _, hnames, hheaders⟩
  exact ⟨haccepted, program, layouts, final, hparse, hlayouts, hnames, hheaders⟩

/-- A quoted word in the name of a rule ends the literal in its header. -/
theorem header_ends_at_bare_quote :
    (compile "rule 'say \"hi\"': Event.global() \x7b\x7d" ⟨false⟩).toOption =
      some ("\n".intercalate ["rule(\"say \"hi\"\")", "\x7b", "\tevent", "\t\x7b",
        "\t\tOngoing - Global;", "\t\x7d", "", "\tactions", "\t\x7b", "\t\x7d", "\x7d"]) ∧
    ∀ body, ¬ IsStringToken (doubleQuoted "say \"hi\"") body := by
  have hbody : isLiteralBody '\'' "say \"hi\"".toList = true := by decide +kernel
  have hbare : hasBareQuote "say \"hi\"".toList = true := by decide +kernel
  exact ⟨by decide +kernel, not_isStringToken_of_hasBareQuote hbody hbare⟩

end Workshop

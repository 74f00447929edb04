import Workshop.Proofs.Output.Headers

/-!
# String literals keep their content

A string literal of a script becomes a custom string of the output.  Its body is
copied, and the bare double quotes in it are escaped, since a literal of a script
may stand between single quotes while a custom string never does.

Main definitions:

- `StandsAt`: a text stands at a place of a source text.

Main results:

- Theorem `Term.escapeQuotes_eq_self`: between double quotes there is nothing to
  escape.
- Theorem `Term.escapeQuotes_escapeQuotes`: escaping again changes nothing.
- Theorem `customString_keeps_literal`: what a custom string has between its
  parentheses is a literal that stands for the same characters.
-/

namespace Workshop

/-! ## Escaping twice -/

namespace Term

/-- The body of a literal between double quotes has no bare double quote. -/
theorem escapeQuotes_eq_self {body : List Char} (hbody : isLiteralBody '"' body = true) :
    escapeQuotes body = body := by
  fun_induction escapeQuotes body with
  | case1 => rfl
  | case2 => rfl
  | case3 d rest ih =>
      rw [isLiteralBody, if_pos rfl, Bool.and_eq_true] at hbody
      rw [ih hbody.2]
  | case4 rest hplain ih =>
      rw [isLiteralBody.eq_def] at hbody
      simp at hbody
  | case5 c rest hplain hquote ih =>
      rw [isLiteralBody.eq_def] at hbody
      simp only [hplain, if_false, Bool.and_eq_true] at hbody
      rw [ih hbody.2]

/-- Escaped quotes are not escaped once more. -/
theorem escapeQuotes_escapeQuotes (body : List Char) :
    escapeQuotes (escapeQuotes body) = escapeQuotes body := by
  fun_induction escapeQuotes body with
  | case1 => rfl
  | case2 => rfl
  | case3 d rest ih => simp [escapeQuotes, ih]
  | case4 rest hplain ih => simp [escapeQuotes, ih]
  | case5 c rest hplain hquote ih =>
      rw [escapeQuotes.eq_def]
      simp [hplain, hquote, ih]

/-- A custom string has a literal between double quotes as its argument. -/
theorem customString_eq (body : String) :
    customString body =
      "Custom String(" ++ doubleQuoted (String.ofList (escapeQuotes body.toList)) ++ ")" := by
  apply String.toList_inj.1
  simp [customString, doubleQuoted]

end Term

/-! ## Literals of a source text -/

variable {vocabulary : Vocabulary}

/-- A text stands at a place of a source text. -/
def StandsAt (source : String) (position : Position) (text : String) : Prop :=
  ∃ before behind, source.toList = before ++ text.toList ++ behind ∧
    position = Position.start.advance before

/-- A body between two quotes. -/
def quotedBy (quote : Char) (body : String) : String :=
  String.ofList (quote :: (body.toList ++ [quote]))

theorem quotedBy_double (body : String) : quotedBy '"' body = doubleQuoted body := by
  rw [← String.toList_inj, toList_doubleQuoted, quotedBy, String.toList_ofList]

/-- A string token is a literal that stands at the place of the token. -/
theorem exists_literal_of_mem_lex {source : String} {token : Token}
    (hmem : token ∈ (lex vocabulary source).tokens) (hkind : token.kind = .string) :
    ∃ quote, isQuote quote = true ∧ isLiteralBody quote token.text.toList = true ∧
      StandsAt source token.position (quotedBy quote token.text) := by
  rcases lexFrom_segmented vocabulary source.toList .start with
    ⟨lexemes, rest, hsegmented, _, hlexed⟩
  rw [lex, hlexed] at hmem
  rcases hsegmented.exists_literal hmem hkind with
    ⟨quote, before, behind, hquote, hbody, hsource, hposition⟩
  refine ⟨quote, hquote, hbody, before, behind, ?_, hposition⟩
  rw [hsource, quotedBy, String.toList_ofList]
  simp

/-- A body of a literal between double quotes is read as one token, whatever the operators are. -/
theorem lex_doubleQuoted {body : String} (hbody : isLiteralBody '"' body.toList = true) :
    lex vocabulary (doubleQuoted body) = ⟨[⟨.string, body, .start⟩], none⟩ := by
  have hscan : Lexeme.scan? vocabulary ('"' :: (body.toList ++ ['"'])) =
      some ⟨.string, '"' :: (body.toList ++ ['"'])⟩ := by
    rw [Lexeme.scan?_quote rfl, Lexeme.literalBody?_append hbody (by decide), Option.map_some]
  rw [lex, toList_doubleQuoted, lexFrom_eq vocabulary _ _ hscan, List.drop_length]
  simp [lexFrom, Lexed.cons, Lexeme.text]

/-- String literals keep their content.  Every string token is a literal of its source text, and
the custom string that is made of its body has a literal between double quotes as its argument: it
is read as one token again, it stands for the same characters, it is the literal of the source if
that has double quotes too, and escaping it again changes nothing. -/
theorem customString_keeps_literal {source : String} {token : Token}
    (hmem : token ∈ (lex vocabulary source).tokens) (hkind : token.kind = .string) :
    ∃ quote escaped, isQuote quote = true ∧
      StandsAt source token.position (quotedBy quote token.text) ∧
      Term.customString token.text = "Custom String(" ++ doubleQuoted escaped ++ ")" ∧
      lex vocabulary (doubleQuoted escaped) = ⟨[⟨.string, escaped, .start⟩], none⟩ ∧
      unescape escaped.toList = unescape token.text.toList ∧
      (quote = '"' → doubleQuoted escaped = quotedBy quote token.text) ∧
      Term.customString escaped = Term.customString token.text := by
  rcases exists_literal_of_mem_lex hmem hkind with ⟨quote, hquote, hbody, hstands⟩
  refine ⟨quote, String.ofList (Term.escapeQuotes token.text.toList), hquote, hstands,
    Term.customString_eq token.text, ?_, ?_, ?_, ?_⟩
  · apply lex_doubleQuoted
    rw [String.toList_ofList]
    exact isLiteralBody_escapeQuotes hbody
  · rw [String.toList_ofList]
    exact unescape_escapeQuotes token.text.toList
  · rintro rfl
    rw [Term.escapeQuotes_eq_self hbody, String.ofList_toList, quotedBy_double]
  · rw [Term.customString_eq, Term.customString_eq, String.toList_ofList,
      Term.escapeQuotes_escapeQuotes]

/-- A literal between single quotes with an escaped backslash, an escaped quote and two bare double
quotes. -/
theorem customString_keeps_literal_mixed :
    ⟨.string, "\\\\\"\\'\"", ⟨0, 1, 1⟩⟩ ∈ (lex .standard "'\\\\\"\\'\"'").tokens ∧
    Term.customString "\\\\\"\\'\"" = "Custom String(\"\\\\\\\"\\'\\\"\")" ∧
    ∃ escaped, lex .standard (doubleQuoted escaped) = ⟨[⟨.string, escaped, .start⟩], none⟩ ∧
      unescape escaped.toList = ['\\', '"', '\'', '"'] ∧
      Term.customString escaped = Term.customString "\\\\\"\\'\"" := by
  have hmem : ⟨.string, "\\\\\"\\'\"", ⟨0, 1, 1⟩⟩ ∈
      (lex .standard "'\\\\\"\\'\"'").tokens := by
    decide +kernel
  rcases customString_keeps_literal hmem rfl with
    ⟨_, escaped, _, _, _, htoken, hmeaning, _, hagain⟩
  exact ⟨hmem, by decide +kernel, escaped, htoken, hmeaning.trans (by decide +kernel), hagain⟩

end Workshop

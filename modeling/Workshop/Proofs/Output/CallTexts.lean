import Workshop.Proofs.Calls.Forms
import Workshop.Proofs.Output.Statements

/-!
# Texts of calls

The text of a call is made from the texts of its arguments.  An argument keeps to
its place, so it can be found again in the text, and no argument is lost where
the template writes it down.  Some arguments are not written down: an impulse
only says whether each of its two last arguments is the truth value `True` or
anything else.

Main definitions:

- `TemplatePiece.Agrees`: a piece does not tell two lists of arguments apart.
- `Template.separates`: every argument has a place of its own.
- `Template.writes`: every argument is written down.

Main results:

- Theorem `Template.fill_eq_iff`: a template that separates its arguments has the
  same text for two lists of arguments exactly if no piece tells them apart.
- Theorem `call_text_determines_arguments`: what the text of a call tells about
  its arguments.
-/

namespace Workshop

/-! ## Places of arguments -/

/-- Whether an argument ends where some characters begin. -/
def stopsArgument (chars : List Char) : Bool :=
  chars.head?.any endsArgument

/-- What stops an argument stops it early. -/
theorem stopsArgument_append {chars : List Char} (hstops : stopsArgument chars = true)
    (rest : List Char) : stopsArgument (chars ++ rest) = true := by
  cases chars with
  | nil => cases hstops
  | cons c chars => exact hstops

/-- Two arguments that the same text begins with are the same. -/
theorem IsArgument.append_inj {first second : String} {rest rest' : List Char}
    (hfirst : IsArgument first) (hsecond : IsArgument second) (hrest : stopsArgument rest = true)
    (hrest' : stopsArgument rest' = true) (hsame : first.toList ++ rest = second.toList ++ rest') :
    first = second ∧ rest = rest' := by
  cases rest with
  | nil => cases hrest
  | cons c chars =>
      cases rest' with
      | nil => cases hrest'
      | cons d chars' =>
          obtain rfl : second = first :=
            hfirst.keepsPlace second c d chars chars' hsecond hrest hrest' hsame
          exact ⟨rfl, List.append_cancel_left hsame⟩

/-- The same for several arguments with a separator between them. -/
theorem intercalate_append_inj {separator : String} {texts texts' : List String}
    {rest rest' : List Char} (hseparator : stopsArgument separator.toList = true)
    (htexts : ∀ text ∈ texts, IsArgument text) (htexts' : ∀ text ∈ texts', IsArgument text)
    (hlength : texts.length = texts'.length) (hrest : stopsArgument rest = true)
    (hrest' : stopsArgument rest' = true)
    (hsame : (separator.intercalate texts).toList ++ rest =
      (separator.intercalate texts').toList ++ rest') :
    texts = texts' ∧ rest = rest' := by
  induction texts generalizing texts' with
  | nil =>
      obtain rfl := List.length_eq_zero_iff.1 hlength.symm
      exact ⟨rfl, by simpa using hsame⟩
  | cons first others ih =>
      cases texts' with
      | nil => cases hlength
      | cons first' others' =>
          rw [List.forall_mem_cons] at htexts htexts'
          have hothers : others.length = others'.length := Nat.succ.inj hlength
          cases others with
          | nil =>
              obtain rfl := List.length_eq_zero_iff.1 hothers.symm
              rw [String.intercalate_singleton, String.intercalate_singleton] at hsame
              rcases htexts.1.append_inj htexts'.1 hrest hrest' hsame with ⟨rfl, rfl⟩
              exact ⟨rfl, rfl⟩
          | cons second others =>
              cases others' with
              | nil => cases hothers
              | cons second' others' =>
                  simp only [String.intercalate_cons_cons, String.toList_append,
                    List.append_assoc] at hsame
                  rcases htexts.1.append_inj htexts'.1 (stopsArgument_append hseparator _)
                    (stopsArgument_append hseparator _) hsame with ⟨rfl, hmore⟩
                  rcases ih htexts.2 htexts'.2 hothers (List.append_cancel_left hmore) with
                    ⟨hsecond, rfl⟩
                  exact ⟨by rw [hsecond], rfl⟩

/-! ## Templates -/

namespace TemplatePiece

/-- A piece does not tell two lists of arguments apart. -/
def Agrees (texts texts' : List String) : TemplatePiece → Prop
  | literal _ => True
  | argument index => texts.getD index "" = texts'.getD index ""
  | allArguments _ => texts = texts'
  | option index _ _ => texts.getD index "" = "True" ↔ texts'.getD index "" = "True"

/-- Whether a piece in the place of an argument can be told from all others in this place. -/
def keepsApart : TemplatePiece → Bool
  | literal _ => true
  | argument _ => true
  | allArguments separator => stopsArgument separator.toList
  | option _ ifTrue otherwise => IsArgument ifTrue ∧ IsArgument otherwise ∧ ifTrue ≠ otherwise

/-- Whether a piece writes the argument with the given number down. -/
def writes (index : Nat) : TemplatePiece → Bool
  | literal _ => false
  | argument other => other == index
  | allArguments _ => true
  | option _ _ _ => false

variable {piece : TemplatePiece} {texts texts' : List String}

/-- Texts that agree fill a piece alike. -/
theorem Agrees.fill_eq (hagrees : piece.Agrees texts texts') :
    piece.fill texts = piece.fill texts' := by
  cases piece with
  | literal text => rfl
  | argument index => exact hagrees
  | allArguments separator =>
      cases hagrees
      rfl
  | option index ifTrue otherwise =>
      rw [Agrees] at hagrees
      simp only [fill, beq_iff_eq, hagrees]

/-- The text at an index, or none, is an argument. -/
theorem isArgument_getD (htexts : ∀ text ∈ texts, IsArgument text) (index : Nat) :
    IsArgument (texts.getD index "") := by
  rw [List.getD_eq_getElem?_getD]
  cases hfound : texts[index]? with
  | none => exact (by decide : IsArgument "")
  | some found => exact htexts found (List.mem_of_getElem? hfound)

/-- Where an argument ends behind a piece, its text shows what the piece tells apart. -/
theorem fill_append_inj {rest rest' : List Char} (hpiece : piece.keepsApart = true)
    (htexts : ∀ text ∈ texts, IsArgument text) (htexts' : ∀ text ∈ texts', IsArgument text)
    (hlength : texts.length = texts'.length) (hrest : stopsArgument rest = true)
    (hrest' : stopsArgument rest' = true)
    (hsame : (piece.fill texts).toList ++ rest = (piece.fill texts').toList ++ rest') :
    piece.Agrees texts texts' ∧ rest = rest' := by
  cases piece with
  | literal text => exact ⟨trivial, List.append_cancel_left hsame⟩
  | argument index =>
      exact (isArgument_getD htexts index).append_inj (isArgument_getD htexts' index) hrest hrest'
        hsame
  | allArguments separator =>
      exact intercalate_append_inj hpiece htexts htexts' hlength hrest hrest' hsame
  | option index ifTrue otherwise =>
      rcases of_decide_eq_true hpiece with ⟨htrue, hotherwise, hdifferent⟩
      have hfill (texts : List String) :
          IsArgument (fill texts (.option index ifTrue otherwise)) := by
        rw [fill]
        split
        · exact htrue
        · exact hotherwise
      rcases (hfill texts).append_inj (hfill texts') hrest hrest' hsame with ⟨hchosen, rfl⟩
      refine ⟨?_, rfl⟩
      rw [fill, fill] at hchosen
      rw [Agrees]
      grind

end TemplatePiece

namespace Template

/-- Whether every place of an argument ends before the text that follows it. -/
def separates : List TemplatePiece → Bool
  | [] => true
  | .literal _ :: rest => separates rest
  | piece :: .literal text :: rest =>
    piece.keepsApart && stopsArgument text.toList && separates rest
  | _ :: _ => false

/-- Whether a template writes all of so many arguments down. -/
def writes (template : Template) (count : Nat) : Bool :=
  (List.range count).all fun index => template.pieces.any (·.writes index)

variable {texts texts' : List String}

/-- Pieces that are apart tell their texts. -/
theorem agrees_of_separates {pieces : List TemplatePiece} (hpieces : separates pieces = true)
    (htexts : ∀ text ∈ texts, IsArgument text) (htexts' : ∀ text ∈ texts', IsArgument text)
    (hlength : texts.length = texts'.length)
    (hsame : (String.join (pieces.map (·.fill texts))).toList =
      (String.join (pieces.map (·.fill texts'))).toList) :
    ∀ piece ∈ pieces, piece.Agrees texts texts' := by
  fun_induction separates pieces with
  | case1 => exact List.forall_mem_nil _
  | case2 text rest ih =>
      simp only [List.map_cons, String.join_cons, String.toList_append] at hsame
      exact List.forall_mem_cons.2 ⟨trivial, ih hpieces (List.append_cancel_left hsame)⟩
  | case3 piece text rest _ ih =>
      simp only [Bool.and_eq_true] at hpieces
      simp only [List.map_cons, String.join_cons, String.toList_append] at hsame
      have hends (texts : List String) : stopsArgument
          ((TemplatePiece.fill texts (.literal text)).toList ++
            (String.join (rest.map (·.fill texts))).toList) = true :=
        stopsArgument_append hpieces.1.2 _
      rcases TemplatePiece.fill_append_inj hpieces.1.1 htexts htexts' hlength (hends texts)
        (hends texts') hsame with ⟨hagrees, hrest⟩
      exact List.forall_mem_cons.2 ⟨hagrees, List.forall_mem_cons.2
        ⟨trivial, ih hpieces.2 (List.append_cancel_left hrest)⟩⟩
  | case4 => cases hpieces

/-- A template that separates its arguments has the same text for two lists of arguments exactly if
no piece tells them apart. -/
theorem fill_eq_iff {template : Template} (hseparates : separates template.pieces = true)
    (htexts : ∀ text ∈ texts, IsArgument text) (htexts' : ∀ text ∈ texts', IsArgument text)
    (hlength : texts.length = texts'.length) :
    template.fill texts = template.fill texts' ↔
      ∀ piece ∈ template.pieces, piece.Agrees texts texts' := by
  constructor
  · intro hsame
    exact agrees_of_separates hseparates htexts htexts' hlength (congrArg String.toList hsame)
  · intro hagrees
    rw [fill, fill, List.map_congr_left fun piece hmem => (hagrees piece hmem).fill_eq]

/-- Arguments that are all written down and not told apart are the same. -/
theorem eq_of_agrees {template : Template} {count : Nat} (hwrites : template.writes count = true)
    (htexts : texts.length = count) (htexts' : texts'.length = count)
    (hagrees : ∀ piece ∈ template.pieces, piece.Agrees texts texts') : texts = texts' := by
  refine List.ext_getElem (htexts.trans htexts'.symm) fun index hindex hindex' => ?_
  have hwritten := List.all_eq_true.1 hwrites index (List.mem_range.2 (htexts ▸ hindex))
  rcases List.any_eq_true.1 hwritten with ⟨piece, hmem, hpiece⟩
  have hsame := hagrees piece hmem
  cases piece with
  | literal text => cases hpiece
  | argument other =>
      obtain rfl : other = index := beq_iff_eq.1 hpiece
      rw [TemplatePiece.Agrees] at hsame
      simpa [hindex, hindex'] using hsame
  | allArguments separator =>
      cases hsame
      rfl
  | option other ifTrue otherwise => cases hpiece

end Template

/-! ## Operands -/

namespace Catalog

variable {catalog : Catalog} {bindings : Bindings} {mode : CallMode} {name : String}
  {builtin : Builtin} {value : Typed} {position : Nat} {parameters texts : List String}

/-- The first argument is adapted first. -/
theorem adaptedArguments_cons_eq_ok {operand : Typed} {operands : List Typed} {parameter : String} :
    catalog.adaptedArguments name position (operand :: operands) (parameter :: parameters) =
        .ok texts ↔
      ∃ type text others, catalog.type parameter = .ok type ∧ operand.as type = .ok text ∧
        catalog.adaptedArguments name (position + 1) operands parameters = .ok others ∧
        texts = text :: others := by
  simp only [adaptedArguments, Except.bind_eq_ok]
  refine exists_congr fun type => ?_
  cases haccepts : type.accepts operand.type with
  | true =>
      simp only [if_true, Except.bind_eq_ok, Except.pure_eq_ok]
      grind
  | false =>
      have hrefused : ∀ text, operand.as type ≠ .ok text := by
        intro text htext
        have hno := ValueType.adapt_eq_ok_iff.1 ⟨text, htext⟩
        rw [haccepts] at hno
        cases hno
      simp [hrefused]

/-- The texts of a call are those of its operands. -/
theorem operandTexts_of_adaptedArguments {operands : List Node} {values : List Typed}
    (hvalues : List.Forall₂ (fun node value => catalog.valueOf bindings node = .ok value) operands
      values) (hlength : values.length = parameters.length)
    (htexts : catalog.adaptedArguments name position values parameters = .ok texts) :
    catalog.operandTexts bindings parameters operands = .ok texts ∧
      texts.length = parameters.length := by
  rw [operandTexts_eq_ok]
  induction hvalues generalizing position parameters texts with
  | nil =>
      obtain rfl := List.length_eq_zero_iff.1 hlength.symm
      cases htexts
      exact ⟨.nil, rfl⟩
  | cons hvalue _ ih =>
      cases parameters with
      | nil => cases hlength
      | cons parameter parameters =>
          rcases adaptedArguments_cons_eq_ok.1 htexts with
            ⟨type, text, others, htype, htext, hothers, rfl⟩
          rcases ih (Nat.succ.inj hlength) hothers with ⟨hrest, hcount⟩
          refine ⟨.cons ?_ hrest, congrArg Nat.succ hcount⟩
          exact Except.bind_eq_ok.2 ⟨_, hvalue, Except.bind_eq_ok.2 ⟨type, htype, htext⟩⟩

/-- Arguments are the values of their nodes. -/
theorem forall₂_of_producedArguments {nodes : List Node} {values : List Typed}
    (hvalues : producedArguments name position (catalog.valuesOf bindings nodes) = .ok values) :
    List.Forall₂ (fun node value => catalog.valueOf bindings node = .ok value) nodes values := by
  induction nodes generalizing position values with
  | nil =>
      cases hvalues
      exact .nil
  | cons node nodes ih =>
      rcases producedArguments_cons_eq_ok.1 hvalues with ⟨first, others, hfirst, _, hothers, rfl⟩
      exact .cons hfirst (ih hothers)

/-- A call that succeeds has the text that its builtin makes from the texts of its operands. -/
theorem callOutcome_text (hfound : catalog.builtin? mode name = some builtin)
    {receiver : Option Node} {arguments : List Node}
    (hcall : catalog.callOutcome bindings mode (.identifier name none) receiver arguments =
      .ok value) :
    ∃ texts, catalog.operandTexts bindings builtin.parameters (receiver.toList ++ arguments) =
        .ok texts ∧
      texts.length = builtin.parameters.length ∧ value.text = builtin.render texts := by
  rcases (callOutcome_eq_ok hfound).1 hcall with ⟨first, others, hreceiver, hothers, happly⟩
  have hfirst : List.Forall₂ (fun node value => catalog.valueOf bindings node = .ok value)
      receiver.toList first := by
    cases receiver with
    | none =>
        cases hreceiver
        exact .nil
    | some receiver =>
        have hreceivers : builtin.receivers ≠ [] := by
          intro hnone
          rw [optionalValueOf, receiverArgument, hnone] at hreceiver
          cases hreceiver
        rcases (receiverArgument_some_eq_ok hreceivers).1 hreceiver with ⟨single, hvalue, _, rfl⟩
        exact .cons hvalue .nil
  have hoperands := List.rel_append hfirst (forall₂_of_producedArguments hothers)
  rcases applyBuiltin_eq_ok.1 happly with ⟨hlength, texts, _, htexts, _, rfl⟩
  rcases operandTexts_of_adaptedArguments hoperands hlength htexts with ⟨hsame, hcount⟩
  exact ⟨texts, hsame, hcount, rfl⟩

/-- The texts of well-formed operands are arguments. -/
theorem isArgument_of_operandTexts (hclosed : catalog.IsClosed)
    (hbindings : bindings.IsSound catalog) {operands : List Node}
    (hoperands : ∀ node ∈ operands, node.IsWellFormed)
    (htexts : catalog.operandTexts bindings parameters operands = .ok texts) :
    ∀ text ∈ texts, IsArgument text := by
  intro text hmem
  rcases List.getElem_of_mem hmem with ⟨index, hindex, rfl⟩
  have hall := operandTexts_eq_ok.1 htexts
  have hpair := hall.get (hall.length_eq ▸ hindex) hindex
  rcases Except.bind_eq_ok.1 hpair with ⟨value, hvalue, hrest⟩
  rcases Except.bind_eq_ok.1 hrest with ⟨type, htype, htext⟩
  have hnode := hoperands _ (List.of_mem_zip (List.getElem_mem (hall.length_eq ▸ hindex))).2
  exact isArgument_of_as (hclosed.types type (mem_registry_of_type htype))
    (isArgument_of_valueOf hclosed hbindings hnode hvalue) htext

end Catalog

/-! ## The standard catalog -/

namespace Catalog

variable {mode : CallMode} {name : String} {builtin : Builtin}

/-- A function is found by its name. -/
theorem name_of_builtin? {catalog : Catalog} (hfound : catalog.builtin? mode name = some builtin) :
    builtin.name = name := by
  cases mode with
  | action =>
      rw [builtin?, action?] at hfound
      have hname := List.find?_some hfound
      exact beq_iff_eq.1 hname
  | value =>
      rw [builtin?, value?] at hfound
      have hname := List.find?_some hfound
      exact beq_iff_eq.1 hname

/-- What a script calls has a template, which separates its arguments. -/
theorem exists_template_of_builtin? (hfound : standard.builtin? mode name = some builtin) :
    ∃ entry ∈ standardActions ++ standardValues, entry.toBuiltin = builtin ∧ entry.name = name ∧
      Template.separates entry.template.pieces = true := by
  have hall : ∀ entry ∈ standardActions ++ standardValues,
      Template.separates entry.template.pieces = true := by
    decide
  rcases exists_template_of_mem (mem_of_builtin? hfound) with ⟨entry, hentry, rfl⟩
  exact ⟨entry, hentry, rfl, name_of_builtin? hfound, hall entry hentry⟩

variable {entry : TemplateBuiltin}

/-- All builtins but one write all their arguments down. -/
theorem standard_writes (hentry : entry ∈ standardActions ++ standardValues)
    (hname : entry.name ≠ "applyImpulse") :
    entry.template.writes entry.parameters.length = true := by
  have hall : ∀ entry ∈ standardActions ++ standardValues, entry.name ≠ "applyImpulse" →
      entry.template.writes entry.parameters.length = true := by
    decide
  exact hall entry hentry hname

/-- An impulse writes three arguments down, and tells of two others whether they are `True`. -/
theorem impulse_agrees_iff (hentry : entry ∈ standardActions ++ standardValues)
    (hname : entry.name = "applyImpulse") {texts texts' : List String}
    (htexts : texts.length = entry.parameters.length)
    (htexts' : texts'.length = entry.parameters.length) :
    (∀ piece ∈ entry.template.pieces, piece.Agrees texts texts') ↔
      texts.take 3 = texts'.take 3 ∧
        ∀ flag ∈ [3, 4], texts[flag]? = some "True" ↔ texts'[flag]? = some "True" := by
  have hall : ∀ entry ∈ standardActions ++ standardValues, entry.name = "applyImpulse" →
      standardActions.head? = some entry := by
    decide
  obtain rfl := Option.some.inj (hall entry hentry hname)
  match texts, texts' with
  | [a, b, c, d, e], [a', b', c', d', e'] => simp [TemplatePiece.Agrees, and_assoc]

end Catalog

/-- A node of the tree of some source text. -/
def Node.IsWritten (node : Node) : Prop :=
  ∃ source tree, Script.parse source = .ok tree ∧ node.StandsIn tree

/-- Trees that are written are well formed. -/
theorem Node.IsWritten.isWellFormed {node : Node} (hwritten : node.IsWritten) :
    node.IsWellFormed := by
  rcases hwritten with ⟨source, tree, hparse, hstands⟩
  intro inner hinner
  exact (Script.isWellFormed_of_parse hparse).1 inner (hinner.trans hstands)

/-- What the text of a call tells about its arguments.  Two calls of a builtin that succeed in one
state have the same text exactly if the texts of their arguments are the same.  An impulse is the
one exception: its text tells the first three arguments, and of each of the other two only whether
it is the text `True`. -/
theorem call_text_determines_arguments {programs : List Node} {source : String} {program : Node}
    {point : Point} (hprograms : ∀ earlier ∈ programs, earlier.IsWritten)
    (hparse : Script.parse source = .ok program)
    (hreaches : Reaches .standard
      (.start (Session.initial.compileAll .standard programs) program) point)
    {bindings : Bindings} (hbindings : bindings ∈ point.bindings .standard)
    {mode : CallMode} {name : String} {builtin : Builtin}
    (hfound : Catalog.standard.builtin? mode name = some builtin)
    {receiver receiver' : Option Node} {arguments arguments' : List Node} {value value' : Typed}
    (hwritten : ∀ node ∈ receiver.toList ++ arguments, node.IsWritten)
    (hwritten' : ∀ node ∈ receiver'.toList ++ arguments', node.IsWritten)
    (hcall : Catalog.standard.callOutcome bindings mode (.identifier name none) receiver
      arguments = .ok value)
    (hcall' : Catalog.standard.callOutcome bindings mode (.identifier name none) receiver'
      arguments' = .ok value') :
    ∃ texts texts',
      Catalog.standard.operandTexts bindings builtin.parameters (receiver.toList ++ arguments) =
        .ok texts ∧
      Catalog.standard.operandTexts bindings builtin.parameters (receiver'.toList ++ arguments') =
        .ok texts' ∧
      (name ≠ "applyImpulse" → (value.text = value'.text ↔ texts = texts')) ∧
      (name = "applyImpulse" → (value.text = value'.text ↔
        texts.take 3 = texts'.take 3 ∧
          ∀ flag ∈ [3, 4], texts[flag]? = some "True" ↔ texts'[flag]? = some "True")) := by
  have hclosed := Catalog.standard_isClosed
  have hsession : (Session.initial.compileAll .standard programs).bindings.IsSound .standard :=
    Session.isSound_compileAll hclosed
      (fun earlier hmem => (hprograms earlier hmem).isWellFormed) .initial
  have hsound : bindings.IsSound .standard :=
    hreaches.isSound_of_mem hclosed hsession (Script.isWellFormed_of_parse hparse).1 bindings
      hbindings
  rcases Catalog.callOutcome_text hfound hcall with ⟨texts, htexts, hlength, htext⟩
  rcases Catalog.callOutcome_text hfound hcall' with ⟨texts', htexts', hlength', htext'⟩
  rcases Catalog.exists_template_of_builtin? hfound with ⟨entry, hentry, rfl, rfl, hseparates⟩
  have hagrees : value.text = value'.text ↔
      ∀ piece ∈ entry.template.pieces, piece.Agrees texts texts' := by
    rw [htext, htext', TemplateBuiltin.render_toBuiltin hlength,
      TemplateBuiltin.render_toBuiltin hlength']
    refine Template.fill_eq_iff hseparates ?_ ?_ (hlength.trans hlength'.symm)
    · exact Catalog.isArgument_of_operandTexts hclosed hsound
        (fun node hmem => (hwritten node hmem).isWellFormed) htexts
    · exact Catalog.isArgument_of_operandTexts hclosed hsound
        (fun node hmem => (hwritten' node hmem).isWellFormed) htexts'
  refine ⟨texts, texts', htexts, htexts', ?_, ?_⟩
  · intro hname
    constructor
    · intro hsame
      exact Template.eq_of_agrees (Catalog.standard_writes hentry hname) hlength hlength'
        (hagrees.1 hsame)
    · rintro rfl
      rw [htext, htext']
  · intro hname
    rw [hagrees, Catalog.impulse_agrees_iff hentry hname hlength hlength']

/-- A statement of a source text that is the only one to pass a test. -/
theorem Node.IsWritten.of_test (source : String) (test : Node → Bool) {node : Node}
    (htest : ∀ other, test other = true → other = node)
    (hfound : ((Script.parse source).toOption.any fun tree => tree.parts.any test) = true) :
    node.IsWritten := by
  cases hparse : Script.parse source with
  | error diagnostic =>
      rw [hparse] at hfound
      cases hfound
  | ok tree =>
      rw [hparse] at hfound
      rcases List.any_eq_true.1 hfound with ⟨other, hmem, hpasses⟩
      obtain rfl := htest other hpasses
      exact ⟨source, tree, hparse, .inPart hmem (.here other)⟩

/-- Two impulses with the same text.  The one is called on a player and the other with it, and their
last arguments are two ways to say no. -/
theorem call_text_determines_arguments_impulse :
    ∃ value value',
      Catalog.standard.callOutcome Session.initial.bindings .action
        (.identifier "applyImpulse" none) (some .player)
        [.player, .number "10", .boolean true, .boolean false] = .ok value ∧
      Catalog.standard.callOutcome Session.initial.bindings .action
        (.identifier "applyImpulse" none) none
        [.player, .player, .number "10", .boolean true, .negation (.boolean true)] = .ok value' ∧
      value.text = value'.text := by
  have hplayer : Node.player.IsWritten :=
    .of_test "player" (fun | .player => true | _ => false)
      (by intro other hother; split at hother <;> trivial) (by decide +kernel)
  have hnumber : (Node.number "10").IsWritten :=
    .of_test "10" (fun | .number digits => digits == "10" | _ => false)
      (by intro other hother; split at hother <;> simp_all) (by decide +kernel)
  have hboolean (truth : Bool) : (Node.boolean truth).IsWritten :=
    .of_test (if truth then "true" else "false")
      (fun | .boolean other => other == truth | _ => false)
      (by intro other hother; split at hother <;> simp_all) (by cases truth <;> decide +kernel)
  have hnegation : (Node.negation (.boolean true)).IsWritten :=
    .of_test "!true" (fun | .negation (.boolean true) => true | _ => false)
      (by intro other hother; split at hother <;> trivial) (by decide +kernel)
  have hfirst : ∀ node ∈ [.player, .player, .number "10", .boolean true, .boolean false],
      Node.IsWritten node := by
    simp [hplayer, hnumber, hboolean]
  have hsecond : ∀ node ∈ [.player, .player, .number "10", .boolean true,
      .negation (.boolean true)], Node.IsWritten node := by
    simp [hplayer, hnumber, hboolean, hnegation]
  rcases hplayer with ⟨source, program, hparse, _⟩
  have hreaches : Reaches .standard (.start .initial program) (.start .initial program) := .refl
  rcases @call_text_determines_arguments [] source program _ (List.forall_mem_nil _) hparse hreaches
    _ List.mem_cons_self .action "applyImpulse" _ rfl (some .player) none
    [.player, .number "10", .boolean true, .boolean false]
    [.player, .player, .number "10", .boolean true, .negation (.boolean true)] _ _ hfirst hsecond
    rfl rfl with ⟨texts, texts', htexts, htexts', _, himpulse⟩
  refine ⟨_, _, rfl, rfl, (himpulse rfl).2 ?_⟩
  cases htexts
  cases htexts'
  decide

/-- The last impulse of this program says yes in other words than `True`, and its text is that of
the first one, which says no. -/
theorem impulse_direction_lost :
    (compile ("rule \"R\": Event.player() \x7b player.applyImpulse(player, 10, false, false); " ++
      "player.applyImpulse(player, 10, !false, false) \x7d") ⟨false⟩).toOption =
      some ("\n".intercalate ["rule(\"R\")", "\x7b", "\tevent", "\t\x7b",
        "\t\tOngoing - Each Player;", "\t\tAll;", "\t\tAll;", "\t\x7d", "", "\tactions", "\t\x7b",
        "\t\tApply Impulse(Event Player, Position Of(Event Player), 10, To World, " ++
          "Cancel Contrary Motion);",
        "\t\tApply Impulse(Event Player, Position Of(Event Player), 10, To World, " ++
          "Cancel Contrary Motion);", "\t\x7d", "\x7d"]) ∧
    (Catalog.standard.operandTexts Session.initial.bindings
      ["player", "vector", "number", "boolean", "boolean"]
      [.player, .player, .number "10", .boolean false, .boolean false]).toOption =
      some ["Event Player", "Position Of(Event Player)", "10", "False", "False"] ∧
    (Catalog.standard.operandTexts Session.initial.bindings
      ["player", "vector", "number", "boolean", "boolean"]
      [.player, .player, .number "10", .negation (.boolean false), .boolean false]).toOption =
      some ["Event Player", "Position Of(Event Player)", "10", "Not(False)", "False"] := by
  decide +kernel

end Workshop

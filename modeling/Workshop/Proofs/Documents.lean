import Workshop.Proofs.Tree
import Mathlib.Data.List.Basic

/-!
# Documents tell trees apart

The document of a tree is written on several lines, with escapes in its strings.
From its text the document can be found again, and from the document the tree.
So two trees are the same if their documents are written in the same way.

Whatever is written ends by itself: it can be told from everything else that can
be written in its place, without looking at what follows.

Main definitions:

- `Delimits`: what is written for something ends by itself, and for nothing else
  the same is written.
- `Json.unescape?`: reads one character of a string back.

Main results:

- Theorem `Json.delimits_write`: documents end by themselves.
- Theorem `Node.hasOwnDocument`: different trees have different documents.
- Theorem `Node.pretty_toJson_inj`: different trees are written differently.
-/

namespace Workshop

variable {α β : Type}

/-! ## What ends by itself -/

/-- What is written for something ends by itself: if a text can be read as starting with it, and as
starting with something else, the two are the same and the same text follows. -/
def Delimits (write : α → List Char) (a : α) : Prop :=
  ∀ ⦃b rest rest'⦄, write a ++ rest = write b ++ rest' → a = b ∧ rest = rest'

namespace Delimits

variable {write : α → List Char} {a : α}

/-- The same characters in front make no difference. -/
theorem behind (chars : List Char) (ha : Delimits write a) :
    Delimits (fun a => chars ++ write a) a := by
  intro b rest rest' htext
  rw [List.append_assoc, List.append_assoc] at htext
  exact ha (List.append_cancel_left htext)

/-- One thing after another, with the same characters between them. -/
theorem pair {second : β → List Char} {b : β} (between : List Char) (ha : Delimits write a)
    (hb : Delimits second b) :
    Delimits (fun both : α × β => write both.1 ++ between ++ second both.2) (a, b) := by
  rintro ⟨a', b'⟩ rest rest' htext
  simp only [List.append_assoc] at htext
  rcases ha htext with ⟨rfl, hafter⟩
  rcases hb (List.append_cancel_left hafter) with ⟨rfl, hrest⟩
  exact ⟨rfl, hrest⟩

end Delimits

/-- Entries with commas between them. -/
def commaSeparated (entry : α → List Char) : List α → List Char
  | [] => []
  | a :: others =>
    entry a ++ (if others.isEmpty then [] else [',']) ++ commaSeparated entry others

/-- A comma decides whether another entry follows. -/
theorem commaSeparated_inj {entry : α → List Char} {rest rest' : List Char}
    (hstop : rest.head? ≠ some ',') (hstop' : rest'.head? ≠ some ',') {entries entries' : List α}
    (hentries : ∀ a ∈ entries, Delimits entry a) (hsome : entries ≠ []) (hsome' : entries' ≠ [])
    (htext : commaSeparated entry entries ++ rest = commaSeparated entry entries' ++ rest') :
    entries = entries' ∧ rest = rest' := by
  induction entries generalizing entries' with
  | nil => exact absurd rfl hsome
  | cons a others ih =>
      cases entries' with
      | nil => exact absurd rfl hsome'
      | cons b others' =>
          rw [List.forall_mem_cons] at hentries
          simp only [commaSeparated, List.append_assoc] at htext
          rcases hentries.1 htext with ⟨rfl, hafter⟩
          cases others with
          | nil =>
              cases others' with
              | nil => exact ⟨rfl, hafter⟩
              | cons _ _ => exact absurd (congrArg List.head? hafter) hstop
          | cons c more =>
              cases others' with
              | nil => exact absurd (congrArg List.head? hafter).symm hstop'
              | cons d more' =>
                  have hothers := ih hentries.2 (List.cons_ne_nil _ _) (List.cons_ne_nil _ _)
                    (List.cons.inj hafter).2
                  rw [hothers.1]
                  exact ⟨rfl, hothers.2⟩

namespace Json

/-! ## Strings -/

/-- The value of a hexadecimal digit. -/
def hexValue (c : Char) : Nat :=
  if c.isDigit then c.toNat - 48 else c.toNat - 87

/-- The character that a letter after a backslash stands for. -/
def shortEscape? : Char → Option Char
  | '"' => some '"'
  | '\\' => some '\\'
  | 'b' => some '\x08'
  | 'f' => some '\x0c'
  | 'n' => some '\n'
  | 'r' => some '\r'
  | 't' => some '\t'
  | _ => none

/-- Reads one character of a string back.  There is none at the closing quote. -/
def unescape? : List Char → Option (Char × List Char)
  | '"' :: _ => none
  | '\\' :: 'u' :: _ :: _ :: high :: low :: rest =>
    some (Char.ofNat (16 * hexValue high + hexValue low), rest)
  | '\\' :: c :: rest => (shortEscape? c).map fun c => (c, rest)
  | c :: rest => some (c, rest)
  | [] => none

variable {closing : Char} {level : Nat} {entry : α → List Char}

/-- Digits have their value. -/
theorem hexValue_digitChar : ∀ digit < 16, hexValue (Nat.digitChar digit) = digit := by
  decide

/-- Escaping a character loses nothing. -/
theorem unescape?_escapedChar (c : Char) (rest : List Char) :
    unescape? (escapedChar c ++ rest) = some (c, rest) := by
  unfold escapedChar
  split_ifs with hquote hbackslash hb hf hn hr ht hcontrol
  · rw [hquote]
    rfl
  · rw [hbackslash]
    rfl
  · rw [hb]
    rfl
  · rw [hf]
    rfl
  · rw [hn]
    rfl
  · rw [hr]
    rfl
  · rw [ht]
    rfl
  · have hhigh := hexValue_digitChar (c.toNat / 16) (by omega)
    have hlow := hexValue_digitChar (c.toNat % 16) (by omega)
    have hsum : 16 * (c.toNat / 16) + c.toNat % 16 = c.toNat := by omega
    simp only [List.cons_append, List.nil_append, unescape?, hhigh, hlow, hsum, Char.ofNat_toNat]
  · simp [unescape?, hbackslash]

/-- Escaped texts end at the first quote. -/
theorem escaped_inj {chars chars' rest rest' : List Char}
    (htext : chars.flatMap escapedChar ++ '"' :: rest =
      chars'.flatMap escapedChar ++ '"' :: rest') :
    chars = chars' ∧ rest = rest' := by
  have hread := congrArg unescape? htext
  induction chars generalizing chars' with
  | nil =>
      cases chars' with
      | nil => exact ⟨rfl, List.tail_eq_of_cons_eq htext⟩
      | cons d others =>
          rw [List.flatMap_cons, List.append_assoc, unescape?_escapedChar] at hread
          cases hread
  | cons c more ih =>
      rw [List.flatMap_cons, List.append_assoc, unescape?_escapedChar] at hread
      cases chars' with
      | nil => cases hread
      | cons d others =>
          rw [List.flatMap_cons, List.append_assoc, unescape?_escapedChar, Option.some.injEq,
            Prod.mk.injEq] at hread
          rcases hread with ⟨rfl, hafter⟩
          rcases ih hafter (congrArg unescape? hafter) with ⟨rfl, hrest⟩
          exact ⟨rfl, hrest⟩

/-- A quoted text is known by its start. -/
theorem delimits_quote (text : String) : Delimits quote text := by
  intro other rest rest' htext
  simp only [quote, List.cons_append, List.append_assoc, List.nil_append,
    List.cons.injEq, true_and] at htext
  rcases escaped_inj htext with ⟨hchars, hrest⟩
  exact ⟨String.toList_inj.1 hchars, hrest⟩

/-! ## Documents -/

/-- Entries between brackets, each on a line of its own. -/
def bracketed (opening closing : Char) (level : Nat) (entry : α → List Char)
    (entries : List α) : List Char :=
  if entries.isEmpty then [opening, closing]
  else opening :: (commaSeparated (fun a => newLine (level + 1) ++ entry a) entries ++
    newLine level ++ [closing])

theorem bracketed_nil {opening : Char} (rest : List Char) :
    bracketed opening closing level entry [] ++ rest = opening :: closing :: rest :=
  rfl

theorem bracketed_cons {opening : Char} (a : α) (others : List α) (rest : List Char) :
    bracketed opening closing level entry (a :: others) ++ rest =
      opening :: (commaSeparated (fun a => newLine (level + 1) ++ entry a) (a :: others) ++
        (newLine level ++ closing :: rest)) := by
  simp [bracketed]

/-- What follows the opening bracket decides whether there are entries. -/
theorem delimits_bracketed {opening : Char} (hclosing : closing ≠ '\n') (level : Nat)
    {entries : List α} (hentries : ∀ a ∈ entries, Delimits entry a) :
    Delimits (bracketed opening closing level entry) entries := by
  intro entries' rest rest' htext
  cases entries with
  | nil =>
      cases entries' with
      | nil => exact ⟨rfl, List.append_cancel_left htext⟩
      | cons b others =>
          rw [bracketed_nil, bracketed_cons] at htext
          exact absurd (List.cons.inj (List.cons.inj htext).2).1 hclosing
  | cons a others =>
      rw [bracketed_cons] at htext
      cases entries' with
      | nil =>
          rw [bracketed_nil] at htext
          exact absurd (List.cons.inj (List.cons.inj htext).2).1.symm hclosing
      | cons b others' =>
          rw [bracketed_cons] at htext
          have hnewLine (following : List Char) :
              (newLine level ++ following).head? ≠ some ',' := by
            rw [newLine, List.cons_append, List.head?_cons]
            decide
          rcases commaSeparated_inj (hnewLine _) (hnewLine _)
            (fun a hmem => (hentries a hmem).behind (newLine (level + 1))) (List.cons_ne_nil _ _)
            (List.cons_ne_nil _ _) (List.cons.inj htext).2 with ⟨hsame, hafter⟩
          exact ⟨hsame, (List.cons.inj (List.append_cancel_left hafter)).2⟩

/-- A property of all parts of a document holds of the document, hence of every document. -/
theorem inductionOnParts {motive : Json → Prop} (null : motive null)
    (bool : ∀ value, motive (bool value)) (string : ∀ value, motive (string value))
    (array : ∀ items, (∀ item ∈ items, motive item) → motive (array items))
    (object : ∀ fields, (∀ field ∈ fields, motive field.2) → motive (object fields))
    (document : Json) : motive document := by
  refine @Json.rec motive (fun items => ∀ item ∈ items, motive item)
    (fun fields => ∀ field ∈ fields, motive field.2) (fun field => motive field.2)
    null bool string array object ?_ ?_ ?_ ?_ ?_ document
  · intro item hmem
    cases hmem
  · intro item items hitem hitems
    exact List.forall_mem_cons.2 ⟨hitem, hitems⟩
  · intro field hmem
    cases hmem
  · intro field fields hfield hfields
    exact List.forall_mem_cons.2 ⟨hfield, hfields⟩
  · intro key value hvalue
    exact hvalue

/-- A field of an object, after the start of its line. -/
def writeField (level : Nat) (field : String × Json) : List Char :=
  quote field.1 ++ [':', ' '] ++ write level field.2

/-- Items are separated by commas. -/
theorem writeItems_eq (level : Nat) (items : List Json) :
    writeItems level items =
      commaSeparated (fun item => newLine level ++ write level item) items := by
  induction items with
  | nil => rfl
  | cons item rest ih => rw [writeItems, ih, commaSeparated]

/-- So are fields. -/
theorem writeFields_eq (level : Nat) (fields : List (String × Json)) :
    writeFields level fields =
      commaSeparated (fun field => newLine level ++ writeField level field) fields := by
  induction fields with
  | nil => rfl
  | cons field rest ih =>
      rw [writeFields, ih, commaSeparated]
      simp [writeField]

/-- The text of an array. -/
theorem write_array (level : Nat) (items : List Json) :
    write level (array items) = bracketed '[' ']' level (write (level + 1)) items := by
  rw [write, writeItems_eq, bracketed]

/-- The text of an object. -/
theorem write_object (level : Nat) (fields : List (String × Json)) :
    write level (object fields) =
      bracketed '\x7b' '\x7d' level (writeField (level + 1)) fields := by
  rw [write, writeFields_eq, bracketed]

/-- The character with which a document begins. -/
def opening : Json → Char
  | null => 'n'
  | bool value => if value then 't' else 'f'
  | string _ => '"'
  | array _ => '['
  | object _ => '\x7b'

/-- What a document starts with. -/
theorem head?_write (level : Nat) (document : Json) :
    (write level document).head? = some document.opening := by
  cases document with
  | null => rfl
  | bool value => cases value <;> rfl
  | string value => rfl
  | array items => cases items <;> rfl
  | object fields => cases fields <;> rfl

/-- The same text starts alike. -/
theorem opening_eq {document other : Json} {rest rest' : List Char}
    (htext : write level document ++ rest = write level other ++ rest') :
    document.opening = other.opening := by
  have hheads := congrArg List.head? htext
  simpa [List.head?_append, head?_write] using hheads

/-- Documents end by themselves, at every level. -/
theorem delimits_write (document : Json) (level : Nat) : Delimits (write level) document := by
  -- The first character decides which kind of document is written.
  induction document using inductionOnParts generalizing level with
  | null =>
      intro other rest rest' htext
      have hopening := opening_eq htext
      cases other with
      | null => exact ⟨rfl, List.append_cancel_left htext⟩
      | bool value => cases value <;> simp [opening] at hopening
      | _ => simp [opening] at hopening
  | bool value =>
      intro other rest rest' htext
      have hopening := opening_eq htext
      cases other with
      | bool value' =>
          have hvalue : value = value' := by
            cases value <;> cases value' <;> simp [opening] at hopening ⊢
          subst hvalue
          exact ⟨rfl, List.append_cancel_left htext⟩
      | _ => cases value <;> simp [opening] at hopening
  | string value =>
      intro other rest rest' htext
      have hopening := opening_eq htext
      cases other with
      | string value' =>
          rcases delimits_quote value htext with ⟨rfl, hrest⟩
          exact ⟨rfl, hrest⟩
      | bool value' => cases value' <;> simp [opening] at hopening
      | _ => simp [opening] at hopening
  | array items ih =>
      intro other rest rest' htext
      have hopening := opening_eq htext
      cases other with
      | array items' =>
          rw [write_array, write_array] at htext
          have hitems : Delimits (bracketed '[' ']' level (write (level + 1))) items :=
            delimits_bracketed (by decide) level fun item hmem => ih item hmem (level + 1)
          rcases hitems htext with ⟨rfl, hrest⟩
          exact ⟨rfl, hrest⟩
      | bool value => cases value <;> simp [opening] at hopening
      | _ => simp [opening] at hopening
  | object fields ih =>
      intro other rest rest' htext
      have hopening := opening_eq htext
      cases other with
      | object fields' =>
          rw [write_object, write_object] at htext
          have hfields :
              Delimits (bracketed '\x7b' '\x7d' level (writeField (level + 1))) fields :=
            delimits_bracketed (by decide) level fun field hmem =>
              (delimits_quote field.1).pair [':', ' '] (ih field hmem (level + 1))
          rcases hfields htext with ⟨rfl, hrest⟩
          exact ⟨rfl, hrest⟩
      | bool value => cases value <;> simp [opening] at hopening
      | _ => simp [opening] at hopening

/-- Different documents are written differently. -/
theorem pretty_injective {document other : Json} (htext : document.pretty = other.pretty) :
    document = other := by
  have hchars := congrArg String.toList htext
  rw [pretty, pretty, String.toList_ofList, String.toList_ofList] at hchars
  have happend : write 0 document ++ [] = write 0 other ++ [] := by rw [hchars]
  exact (delimits_write document 0 happend).1

end Json

/-! ## Trees -/

namespace Domain

/-- A domain is known by its keyword. -/
theorem keyword_injective {first second : Domain} (hkeyword : first.keyword = second.keyword) :
    first = second := by
  cases first <;> cases second <;> simp [keyword] at hkeyword ⊢

end Domain

namespace Node

/-- The first field of the document of a node. -/
def documentType : Node → String
  | block _ => "block"
  | constant _ _ => "const"
  | declare _ _ _ _ => "declare"
  | useBank _ _ => "useVar"
  | rule _ _ _ _ => "rule"
  | assign _ _ _ => "assign"
  | call _ _ _ => "call"
  | enumMember _ _ => "enumRef"
  | negation _ => "not"
  | binary _ _ _ => "binary"
  | choice _ _ _ => "if"
  | number _ => "number"
  | text _ => "string"
  | boolean _ => "boolean"
  | player => "player"
  | identifier _ _ => "identifier"

/-- The document of a tree names its type. -/
theorem exists_toJson (node : Node) :
    ∃ fields, node.toJson = .object (("type", .string node.documentType) :: fields) := by
  cases node with
  | rule name event conditions actions => cases conditions <;> exact ⟨_, rfl⟩
  | _ => exact ⟨_, rfl⟩

/-- Trees with one document have one type. -/
theorem documentType_eq {node other : Node} (hjson : node.toJson = other.toJson) :
    node.documentType = other.documentType := by
  rcases node.exists_toJson with ⟨fields, hnode⟩
  rcases other.exists_toJson with ⟨fields', hother⟩
  rw [hnode, hother] at hjson
  injection hjson with hfields
  injection hfields with hfirst
  injection hfirst with _ htype
  injection htype

/-- A node that has the same document as no other node. -/
def HasOwnDocument (node : Node) : Prop :=
  ∀ other : Node, node.toJson = other.toJson → node = other

/-- The documents of a list tell its nodes. -/
theorem listToJson_inj {nodes nodes' : List Node} (hnodes : ∀ node ∈ nodes, node.HasOwnDocument)
    (hjson : listToJson nodes = listToJson nodes') : nodes = nodes' := by
  induction nodes generalizing nodes' with
  | nil =>
      cases nodes' with
      | nil => rfl
      | cons node' rest' => cases hjson
  | cons node rest ih =>
      rw [List.forall_mem_cons] at hnodes
      cases nodes' with
      | nil => cases hjson
      | cons node' rest' =>
          rw [listToJson, listToJson, List.cons.injEq] at hjson
          rw [hnodes.1 node' hjson.1, ih hnodes.2 hjson.2]

/-- No tree is written as nothing. -/
theorem toJson_ne_null (node : Node) : node.toJson ≠ .null := by
  rcases node.exists_toJson with ⟨fields, hnode⟩
  rw [hnode]
  exact Json.noConfusion

/-- A part that is missing is written as nothing else. -/
theorem optionToJson_inj {part part' : Option Node} (hpart : ∀ node ∈ part, node.HasOwnDocument)
    (hjson : optionToJson part = optionToJson part') : part = part' := by
  cases part with
  | none =>
      cases part' with
      | none => rfl
      | some node' => exact absurd hjson.symm node'.toJson_ne_null
  | some node =>
      cases part' with
      | none => exact absurd hjson node.toJson_ne_null
      | some node' => rw [hpart node rfl node' hjson]

/-- The conditions of a rule, which may be missing, in its document. -/
theorem rule_inj {name event name' event' : String} {conditions conditions' : Option (List Node)}
    {actions actions' : List Node}
    (hconditions : ∀ nodes ∈ conditions, ∀ node ∈ nodes, node.HasOwnDocument)
    (hactions : ∀ node ∈ actions, node.HasOwnDocument)
    (hjson : (rule name event conditions actions).toJson =
      (rule name' event' conditions' actions').toJson) :
    rule name event conditions actions = rule name' event' conditions' actions' := by
  cases conditions with
  | none =>
      cases conditions' with
      | none =>
          simp only [toJson, Json.object.injEq, List.cons.injEq, Prod.mk.injEq, Json.string.injEq,
            Json.array.injEq, true_and, and_true] at hjson
          rw [hjson.1, hjson.2.1, listToJson_inj hactions hjson.2.2]
      | some nodes' => simp [toJson] at hjson
  | some nodes =>
      cases conditions' with
      | none => simp [toJson] at hjson
      | some nodes' =>
          simp only [toJson, Json.object.injEq, List.cons.injEq, Prod.mk.injEq, Json.string.injEq,
            Json.array.injEq, true_and, and_true] at hjson
          rw [hjson.1, hjson.2.1, listToJson_inj (hconditions nodes rfl) hjson.2.2.1,
            listToJson_inj hactions hjson.2.2.2]

/-- Different trees have different documents. -/
theorem hasOwnDocument (node : Node) : node.HasOwnDocument := by
  -- The type tells the constructors apart, so that only equal ones are left to compare.
  induction node
  all_goals
    intro other hjson
    have htype := documentType_eq hjson
    cases other
    all_goals try (simp [documentType] at htype; done)
  case rule.rule name event conditions actions hconditions hactions _ _ _ _ =>
    exact rule_inj hconditions hactions hjson
  all_goals
    simp only [toJson, Json.object.injEq, List.cons.injEq, Prod.mk.injEq, Json.string.injEq,
      Json.bool.injEq, Json.array.injEq, true_and, and_true] at hjson
  case block.block hstatements statements' => rw [listToJson_inj hstatements hjson]
  case constant.constant hvalue name' value' => rw [hjson.1, hvalue value' hjson.2]
  case declare.declare hinitial typeName' name' perPlayer' initial' =>
    rw [hjson.1, hjson.2.1, hjson.2.2.1, optionToJson_inj hinitial hjson.2.2.2]
  case useBank.useBank =>
    rw [Domain.keyword_injective hjson.1, Bank.text_injective hjson.2]
  case assign.assign hreceiver hvalue target' receiver' value' =>
    rw [hjson.1, optionToJson_inj hreceiver hjson.2.1, hvalue value' hjson.2.2]
  case call.call hcallee hreceiver harguments callee' receiver' arguments' =>
    rw [hcallee callee' hjson.1, optionToJson_inj hreceiver hjson.2.1,
      listToJson_inj harguments hjson.2.2]
  case enumMember.enumMember => rw [hjson.1, hjson.2]
  case negation.negation hoperand operand' => rw [hoperand operand' hjson]
  case binary.binary hleft hright operator' left' right' =>
    rw [BinaryOperator.symbol_injective hjson.1, hleft left' hjson.2.1, hright right' hjson.2.2]
  case choice.choice hcondition hthen helse condition' thenBranch' elseBranch' =>
    rw [hcondition condition' hjson.1, hthen thenBranch' hjson.2.1,
      optionToJson_inj helse hjson.2.2]
  case number.number => rw [hjson]
  case text.text => rw [hjson]
  case boolean.boolean => rw [hjson]
  case player.player => rfl
  case identifier.identifier hreceiver name' receiver' =>
    rw [hjson.1, optionToJson_inj hreceiver hjson.2]

end Node

/-- The document of a tree loses nothing: trees whose documents are written in the same way are the
same, whatever texts stand in them. -/
theorem Node.pretty_toJson_inj {first second : Node} :
    first.toJson.pretty = second.toJson.pretty ↔ first = second := by
  constructor
  · intro htext
    exact first.hasOwnDocument second (Json.pretty_injective htext)
  · rintro rfl
    rfl

end Workshop

/-!
# Templates

A template is a text with places for arguments.

Main result: Theorem `Template.fill?_eq_some_iff`: a template can be filled in exactly when there
are at least as many arguments as it reads.
-/

namespace Workshop

/-- A piece of a template. -/
inductive TemplatePiece where
  /-- Text that is always the same. -/
  | literal (text : String)
  /-- The argument with the given number, counted from zero. -/
  | argument (index : Nat)
  /-- All arguments, with a separator between them. -/
  | allArguments (separator : String)
  /-- One of two texts, the first if the argument with the given number is `True`. -/
  | option (index : Nat) (ifTrue otherwise : String)
deriving DecidableEq, Repr

/-- A text with places for arguments. -/
structure Template where
  pieces : List TemplatePiece
deriving DecidableEq, Repr

namespace TemplatePiece

/-- How many arguments there have to be for a piece. -/
def arity : TemplatePiece → Nat
  | literal _ => 0
  | argument index => index + 1
  | allArguments _ => 0
  | option index _ _ => index + 1

/-- The text of a piece.  A missing argument is empty. -/
def fill (arguments : List String) : TemplatePiece → String
  | literal text => text
  | argument index => arguments.getD index ""
  | allArguments separator => separator.intercalate arguments
  | option index ifTrue otherwise =>
    if arguments.getD index "" == "True" then ifTrue else otherwise

/-- The text of a piece, if the argument that it reads is there. -/
def fill? (arguments : List String) : TemplatePiece → Option String
  | literal text => some text
  | argument index => arguments[index]?
  | allArguments separator => some (separator.intercalate arguments)
  | option index ifTrue otherwise =>
    arguments[index]?.map fun text => if text == "True" then ifTrue else otherwise

/-- A piece has a text exactly when the argument that it reads is there. -/
theorem fill?_eq_some_iff {piece : TemplatePiece} {arguments : List String} {text : String} :
    piece.fill? arguments = some text ↔
      piece.arity ≤ arguments.length ∧ piece.fill arguments = text := by
  cases piece with
  | literal written => simp [fill?, arity, fill]
  | argument index =>
    by_cases hindex : index < arguments.length
    · simp [fill?, arity, fill, List.getD, hindex, Nat.succ_le_iff]
    · simp [fill?, arity, hindex, Nat.succ_le_iff]
  | allArguments separator => simp [fill?, arity, fill]
  | option index ifTrue otherwise =>
    by_cases hindex : index < arguments.length
    · simp [fill?, arity, fill, List.getD, hindex, Nat.succ_le_iff]
    · simp [fill?, arity, hindex, Nat.succ_le_iff]

end TemplatePiece

namespace Template

/-- How many arguments a template reads at least. -/
def arity (template : Template) : Nat :=
  template.pieces.foldr (fun piece count => max piece.arity count) 0

/-- The filled in text.  A missing argument is empty. -/
def fill (template : Template) (arguments : List String) : String :=
  String.join (template.pieces.map (·.fill arguments))

/-- The filled in text, if no argument is missing. -/
def fill? (template : Template) (arguments : List String) : Option String :=
  (template.pieces.mapM (TemplatePiece.fill? arguments)).map String.join

/-- A call with all arguments in parentheses. -/
def call (function : String) : Template :=
  ⟨[.literal (function ++ "("), .allArguments ", ", .literal ")"]⟩

/-- A call with all arguments in parentheses, and one more that is always the same. -/
def callWith (function last : String) : Template :=
  ⟨[.literal (function ++ "("), .allArguments ", ", .literal (", " ++ last ++ ")")]⟩

/-- A template reads so many arguments exactly when each of its pieces does. -/
theorem arity_le_iff {template : Template} {count : Nat} :
    template.arity ≤ count ↔ ∀ piece ∈ template.pieces, piece.arity ≤ count := by
  obtain ⟨pieces⟩ := template
  rw [arity]
  induction pieces with
  | nil => simp
  | cons piece rest ih => rw [List.foldr_cons, Nat.max_le, ih, List.forall_mem_cons]

/-- All pieces have texts exactly when no argument is missing. -/
theorem mapM_fill?_eq_some_iff {pieces : List TemplatePiece} {arguments texts : List String} :
    pieces.mapM (TemplatePiece.fill? arguments) = some texts ↔
      (∀ piece ∈ pieces, piece.arity ≤ arguments.length) ∧
        pieces.map (·.fill arguments) = texts := by
  induction pieces generalizing texts with
  | nil => simp
  | cons piece rest ih =>
    simp only [List.mapM_cons, Option.bind_eq_bind, Option.bind_eq_some_iff, ih,
      TemplatePiece.fill?_eq_some_iff, List.forall_mem_cons, List.map_cons]
    constructor
    · rintro ⟨text, ⟨hpiece, rfl⟩, others, ⟨hrest, rfl⟩, hresult⟩
      exact ⟨⟨hpiece, hrest⟩, Option.some.inj hresult⟩
    · rintro ⟨⟨hpiece, hrest⟩, rfl⟩
      exact ⟨_, ⟨hpiece, rfl⟩, _, ⟨hrest, rfl⟩, rfl⟩

/-- A template can be filled in exactly when there are at least as many arguments as it reads. -/
theorem fill?_eq_some_iff {template : Template} {arguments : List String} {text : String} :
    template.fill? arguments = some text ↔
      template.arity ≤ arguments.length ∧ template.fill arguments = text := by
  rw [fill?, Option.map_eq_some_iff, arity_le_iff]
  simp only [mapM_fill?_eq_some_iff, fill]
  constructor
  · rintro ⟨texts, ⟨harity, rfl⟩, rfl⟩
    exact ⟨harity, rfl⟩
  · rintro ⟨harity, rfl⟩
    exact ⟨_, ⟨harity, rfl⟩, rfl⟩

example : fill? ⟨[.literal "Heal(", .argument 0, .literal ", Null, ", .argument 1,
    .literal ")"]⟩ ["Event Player"] = none := by
  rfl

@[simp]
theorem arity_call (function : String) : (call function).arity = 0 := by
  simp [call, arity, TemplatePiece.arity]

@[simp]
theorem arity_callWith (function last : String) : (callWith function last).arity = 0 := by
  simp [callWith, arity, TemplatePiece.arity]

end Template
end Workshop

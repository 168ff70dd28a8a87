/-!
Contract: blank characters, and trimming.

Owns: the class of characters that count as blank space, trimming of a list of
characters at either end, and the same on strings.
Does not own: cutting a text into lines or pieces (`Gherkin.Text.Pieces`).
-/

set_option autoImplicit false

namespace Gherkin.Text

/-- Blank space is the Unicode property `White_Space`: twenty-five characters,
among them the next-line control and the ideographic space, but no zero-width
character. -/
def isBlank (c : Char) : Bool :=
  ('\t' ≤ c && c ≤ '\r') || c == ' ' || c == '\u0085' || c == '\u00a0' || c == '\u1680' ||
    ('\u2000' ≤ c && c ≤ '\u200a') || c == '\u2028' || c == '\u2029' || c == '\u202f' ||
    c == '\u205f' || c == '\u3000'

/-- Removes the longest run of characters in the class from the end. -/
def dropEndWhile (p : Char → Bool) (cs : List Char) : List Char :=
  (cs.reverse.dropWhile p).reverse

def trimStart (cs : List Char) : List Char :=
  cs.dropWhile isBlank

def trimEnd (cs : List Char) : List Char :=
  dropEndWhile isBlank cs

/-- Blank space goes at both ends; what lies between stays as it is. -/
def trim (cs : List Char) : List Char :=
  trimEnd (trimStart cs)

def trimmed (s : String) : String :=
  String.ofList (trim s.toList)

/-- Trimming at the end is decided by the last character. -/
theorem dropEndWhile_append_singleton (p : Char → Bool) (cs : List Char) (c : Char) :
    dropEndWhile p (cs ++ [c]) = if p c then dropEndWhile p cs else cs ++ [c] := by
  by_cases h : p c <;> simp [dropEndWhile, h]

end Gherkin.Text

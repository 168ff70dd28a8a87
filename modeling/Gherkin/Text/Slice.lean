/-!
Contract: stretches of a text between offsets that are counted in bytes.

Owns: cutting a text at such an offset, and the stretch from one offset to another.
Does not own: cutting a text at a character (`Gherkin.Text.Pieces`).

A text cannot be cut behind its end or inside a character, and there is no stretch from an
offset to an earlier one.
-/

set_option autoImplicit false

namespace Gherkin.Text

/-- The parts of a text in front of an offset and behind it. -/
def cutAtOffset? : Nat → List Char → Option (List Char × List Char)
  | 0, cs => some ([], cs)
  | _ + 1, [] => none
  | offset + 1, c :: cs =>
      if c.utf8Size ≤ offset + 1 then
        (cutAtOffset? (offset + 1 - c.utf8Size) cs).map fun cut => (c :: cut.1, cut.2)
      else none

/-- The part of a text between two offsets. The first one has to be an offset of the part in
front of the second. -/
def slice? (start stop : Nat) (cs : List Char) : Option (List Char) :=
  (cutAtOffset? stop cs).bind fun cut => (cutAtOffset? start cut.1).map Prod.snd

end Gherkin.Text

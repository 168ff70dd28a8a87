import Gherkin.Text.Encoded

/-!
Contract: text in the sixty-four digits of headers.

Owns: the digit for six bits, and the digits of a text, with equals signs for the bytes
that are missing at its end.
-/

set_option autoImplicit false

namespace Gherkin.Text

/-- The digit for six bits. -/
def digit64 (bits : Nat) : Char :=
  if bits < 26 then Char.ofNat ('A'.toNat + bits)
  else if bits < 52 then Char.ofNat ('a'.toNat + (bits - 26))
  else if bits < 62 then Char.ofNat ('0'.toNat + (bits - 52))
  else if bits = 62 then '+'
  else '/'

/-- Three bytes give four digits. -/
def digitsOf : List UInt8 → List Char
  | [] => []
  | [a] => [digit64 (a.toNat / 4), digit64 (a.toNat % 4 * 16), '=', '=']
  | [a, b] =>
      [digit64 (a.toNat / 4), digit64 (a.toNat % 4 * 16 + b.toNat / 16),
        digit64 (b.toNat % 16 * 4), '=']
  | a :: b :: c :: bytes =>
      digit64 (a.toNat / 4) :: digit64 (a.toNat % 4 * 16 + b.toNat / 16) ::
        digit64 (b.toNat % 16 * 4 + c.toNat / 64) :: digit64 (c.toNat % 64) :: digitsOf bytes

def base64 (s : String) : String :=
  String.ofList (digitsOf (encodeChars s.toList))

end Gherkin.Text

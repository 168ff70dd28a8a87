import Gherkin.Text.Bytes
import Gherkin.Text.Digits

/-!
Contract: the bytes of a text, and bytes written as a percent sign and two digits.

Owns: the bytes of characters, which characters of a text are written as bytes, and
reading such a text again.
Does not own: which characters an address keeps (`Gherkin.Http.Address`).
-/

set_option autoImplicit false

namespace Gherkin.Text

/-- The bytes of characters in UTF-8. -/
def encodeChars (cs : List Char) : List UInt8 :=
  cs.flatMap String.utf8EncodeChar

/-- A byte as a percent sign and two hexadecimal digits. -/
def percentByte (byte : UInt8) : List Char :=
  '%' :: [byte.toNat / 16, byte.toNat % 16].map fun digit => (Nat.digitChar digit).toUpper

/-- A text with the bytes of all characters that are not kept written as such. A percent
sign is kept, so that what is written as bytes already stays as it is. -/
def percentEncoded (isKept : Char → Bool) (cs : List Char) : List Char :=
  cs.flatMap fun c =>
    if isKept c then [c] else (String.utf8EncodeChar c).flatMap percentByte

/-- The bytes of a text, where those that are written as such count as what they are. -/
def percentBytes : List Char → List UInt8
  | [] => []
  | '%' :: high :: low :: cs =>
      match hexValue? high, hexValue? low with
      | some a, some b => UInt8.ofNat (16 * a + b) :: percentBytes cs
      | _, _ => String.utf8EncodeChar '%' ++ percentBytes (high :: low :: cs)
  | c :: cs => String.utf8EncodeChar c ++ percentBytes cs

/-- The characters that a text with bytes in it denotes, if they are characters. -/
def percentDecoded? (cs : List Char) : Option (List Char) :=
  let bytes := percentBytes cs
  let decoded := decodeFrom none bytes
  if encodeChars decoded = bytes then some decoded else none

end Gherkin.Text

/-!
Contract: text from bytes that may not be well-formed UTF-8.

Owns: the bytes that may follow each other in a character, and decoding with a
replacement character for every stretch that is no character.

A stretch that is replaced is as long as it can be while it still begins some
character; the byte that breaks it off starts anew.
-/

set_option autoImplicit false

namespace Gherkin.Text

def replacement : Char :=
  '\ufffd'

/-- A character of which some bytes have been read: the bits so far, the bounds of
the next byte, and how many bytes follow that one. -/
structure Unfinished where
  bits : Nat
  low : UInt8
  high : UInt8
  further : Nat
deriving DecidableEq, Repr

/-- What a byte begins: a character of one byte, a longer one, or nothing. -/
def beginByte (b : UInt8) : List Char × Option Unfinished :=
  if b < 0x80 then ([Char.ofNat b.toNat], none)
  else if b < 0xc2 then ([replacement], none)
  else if b < 0xe0 then ([], some ⟨b.toNat - 0xc0, 0x80, 0xbf, 0⟩)
  else if b < 0xf0 then
    let low := if b = 0xe0 then 0xa0 else 0x80
    let high := if b = 0xed then 0x9f else 0xbf
    ([], some ⟨b.toNat - 0xe0, low, high, 1⟩)
  else if b < 0xf5 then
    let low := if b = 0xf0 then 0x90 else 0x80
    let high := if b = 0xf4 then 0x8f else 0xbf
    ([], some ⟨b.toNat - 0xf0, low, high, 2⟩)
  else ([replacement], none)

/-- What a byte does to an unfinished character: it finishes it, goes on with it, or
breaks it off. -/
def continueByte (unfinished : Unfinished) (b : UInt8) : List Char × Option Unfinished :=
  if unfinished.low ≤ b ∧ b ≤ unfinished.high then
    let bits := unfinished.bits * 64 + (b.toNat - 0x80)
    match unfinished.further with
    | 0 => ([Char.ofNat bits], none)
    | further + 1 => ([], some ⟨bits, 0x80, 0xbf, further⟩)
  else
    let (chars, next) := beginByte b
    (replacement :: chars, next)

/-- The characters of bytes that follow an unfinished character, if there is one. -/
def decodeFrom : Option Unfinished → List UInt8 → List Char
  | none, [] => []
  | some _, [] => [replacement]
  | none, b :: bs =>
      let (chars, next) := beginByte b
      chars ++ decodeFrom next bs
  | some unfinished, b :: bs =>
      let (chars, next) := continueByte unfinished b
      chars ++ decodeFrom next bs

def decodeBytes (bytes : List UInt8) : String :=
  String.ofList (decodeFrom none bytes)

end Gherkin.Text

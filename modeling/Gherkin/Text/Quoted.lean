import Gherkin.Text.Unprinted

/-!
Contract: the quoted form of a text, as messages show it.

Owns: `quoted`, which puts a text between double quotes and escapes what would
not be readable there.
Does not own: the strings of JSON documents, whose escapes differ.
-/

set_option autoImplicit false

namespace Gherkin.Text

/-- One character of a quoted text. Quote, backslash, line breaks, tab and null
have two-character escapes; any other unprinted character is written by its
code point in hexadecimal. A single quote stays as it is. -/
def quotedChar (c : Char) : List Char :=
  if c = '"' then ['\\', '"']
  else if c = '\\' then ['\\', '\\']
  else if c = '\n' then ['\\', 'n']
  else if c = '\r' then ['\\', 'r']
  else if c = '\t' then ['\\', 't']
  else if c = '\x00' then ['\\', '0']
  else if isUnprinted c then
    '\\' :: 'u' :: '{' :: (Nat.toDigits 16 c.toNat ++ ['}'])
  else [c]

/-- The text between double quotes, with each character in its quoted form. -/
def quoted (s : String) : String :=
  String.ofList ('"' :: (s.toList.flatMap quotedChar ++ ['"']))

end Gherkin.Text

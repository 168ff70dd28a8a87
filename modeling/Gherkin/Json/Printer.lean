import Gherkin.Decimal.Layout
import Gherkin.Json.Value

/-!
Contract: the compact text of a JSON value.

Owns: the written form of strings, numbers, arrays and objects, without any
space between them, and that of records, whose fields keep their own order.
-/

set_option autoImplicit false

namespace Gherkin.Json

/-- Numbers from `1e-5` up to `1e16` are written without an exponent. -/
def numberLayout : Decimal.Layout :=
  ⟨-5, 15⟩

/-- The text of a number that is kept as a float. The two infinities and what is
no number have no JSON form and show as `null`. -/
def floatText (x : Float) : List Char :=
  if x.isFinite then numberLayout.render x else ['n', 'u', 'l', 'l']

def hexDigit (n : Nat) : Char :=
  Nat.digitChar (n % 16)

/-- One character of a string. Only the quote, the backslash and the controls below
the space are escaped; five of the controls have letters. -/
def escapeChar (c : Char) : List Char :=
  if c = '"' then ['\\', '"']
  else if c = '\\' then ['\\', '\\']
  else if c = '\x08' then ['\\', 'b']
  else if c = '\x0c' then ['\\', 'f']
  else if c = '\n' then ['\\', 'n']
  else if c = '\r' then ['\\', 'r']
  else if c = '\t' then ['\\', 't']
  else if c < ' ' then ['\\', 'u', '0', '0', hexDigit (c.toNat / 16), hexDigit c.toNat]
  else [c]

def stringText (s : String) : List Char :=
  '"' :: (s.toList.flatMap escapeChar ++ ['"'])

mutual

def Value.chars : Value → List Char
  | .null => ['n', 'u', 'l', 'l']
  | .bool true => ['t', 'r', 'u', 'e']
  | .bool false => ['f', 'a', 'l', 's', 'e']
  | .int n => (Text.signedNumeral n).toList
  | .float x => floatText x
  | .string s => stringText s
  | .array [] => ['[', ']']
  | .array (item :: items) => '[' :: (item.chars ++ itemChars items)
  | .object [] => ['{', '}']
  | .object ((name, value) :: members) =>
      '{' :: (stringText name ++ ':' :: (value.chars ++ memberChars members))

def itemChars : List Value → List Char
  | [] => [']']
  | item :: items => ',' :: (item.chars ++ itemChars items)

def memberChars : List (String × Value) → List Char
  | [] => ['}']
  | (name, value) :: members =>
      ',' :: (stringText name ++ ':' :: (value.chars ++ memberChars members))

end

/-- Parts between brackets, with a comma between any two. -/
def bracketed (opening closing : Char) (parts : List (List Char)) : List Char :=
  opening :: ([','].intercalate parts ++ [closing])

def listText (items : List (List Char)) : List Char :=
  bracketed '[' ']' items

/-- The text of a record: those of its fields that are there, in the order given, each a
name and the text of what it holds. -/
def recordText (fields : List (String × Option (List Char))) : List Char :=
  bracketed '{' '}' <| fields.filterMap fun (name, content?) =>
    content?.map fun content => stringText name ++ ':' :: content

/-- The compact text of a value. -/
def Value.render (value : Value) : String :=
  String.ofList value.chars

end Gherkin.Json

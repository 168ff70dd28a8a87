import Gherkin.Json.Printer
import Gherkin.Text.Quoted

/-!
Contract: why a JSON text is refused, and where.

Owns: the causes, the wording of each, and the line and column of a fault.

A place in the text is given by the number of bytes behind it. Lines count from
one; a column is the number of bytes of its line up to the place, so the column
of a line that has just begun is zero.
-/

set_option autoImplicit false

namespace Gherkin.Json

/-- What a value is, as told to someone who expected something else. -/
def Value.shape : Value → String
  | .null => "null"
  | .bool b => "boolean `" ++ (if b then "true" else "false") ++ "`"
  | .int n => "integer `" ++ Text.signedNumeral n ++ "`"
  | .float x => "floating point `" ++ String.ofList (floatText x) ++ "`"
  | .string s => "string " ++ Text.quoted s
  | .array _ => "sequence"
  | .object _ => "map"

inductive Cause where
  | endInValue
  | endInList
  | endInObject
  | endInString
  | expectedValue
  | expectedWord
  | expectedColon
  | expectedItemOrEnd
  | expectedMemberOrEnd
  | trailingComma
  | trailingText
  | nameNotString
  | badEscape
  | unpairedSurrogate
  | missingSurrogate
  | controlCharacter
  | badNumber
  | numberTooGreat
  | tooDeep
  /-- A value of another type than the one that has to stand here. -/
  | mismatch (found : Value) (expected : String)

def Cause.message : Cause → String
  | .endInValue => "EOF while parsing a value"
  | .endInList => "EOF while parsing a list"
  | .endInObject => "EOF while parsing an object"
  | .endInString => "EOF while parsing a string"
  | .expectedValue => "expected value"
  | .expectedWord => "expected ident"
  | .expectedColon => "expected `:`"
  | .expectedItemOrEnd => "expected `,` or `]`"
  | .expectedMemberOrEnd => "expected `,` or `\x7d`"
  | .trailingComma => "trailing comma"
  | .trailingText => "trailing characters"
  | .nameNotString => "key must be a string"
  | .badEscape => "invalid escape"
  | .unpairedSurrogate => "lone leading surrogate in hex escape"
  | .missingSurrogate => "unexpected end of hex escape"
  | .controlCharacter => "control character (\\u0000-\\u001F) found while parsing a string"
  | .badNumber => "invalid number"
  | .numberTooGreat => "number out of range"
  | .tooDeep => "recursion limit exceeded"
  | .mismatch found expected => "invalid type: " ++ found.shape ++ ", expected " ++ expected

def byteCount : List Char → Nat
  | [] => 0
  | c :: cs => c.utf8Size + byteCount cs

/-- A cause together with the number of bytes behind the place where it shows. -/
structure Fault where
  cause : Cause
  unread : Nat

namespace Fault

/-- A fault in front of the unread text: everything before has been read. -/
def before (cause : Cause) (rest : List Char) : Fault :=
  ⟨cause, byteCount rest⟩

/-- A fault at the next byte of the unread text, which counts as reached. At the
end of the text there is none, and the place is the end. -/
def reaching (cause : Cause) (rest : List Char) : Fault :=
  ⟨cause, byteCount rest - 1⟩

/-- The line of the place, and its column. -/
def position (fault : Fault) (text : String) : Nat × Nat :=
  let bytes := text.toUTF8.toList
  let reached := bytes.take (bytes.length - fault.unread)
  (1 + reached.count 10, (reached.reverse.takeWhile (· != 10)).length)

def message (fault : Fault) (text : String) : String :=
  let (line, column) := fault.position text
  fault.cause.message ++ " at line " ++ Text.numeral line ++ " column " ++ Text.numeral column

end Fault

end Gherkin.Json

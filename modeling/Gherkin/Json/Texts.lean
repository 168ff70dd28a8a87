import Gherkin.Json.Reader

/-!
Contract: documents that are one object with strings for members.

Owns: `readTexts`, which refuses any value of another type at the place where it
stands.
-/

set_option autoImplicit false

namespace Gherkin.Json

/-- Why the value that starts here does not do where something else is expected. A
scalar is read before it is refused, so a fault inside it comes first; an array or
an object is refused at its bracket. -/
def refusal (expected : String) (cs : List Char) : Fault :=
  match readScalar? cs with
  | some (.error fault) => fault
  | some (.ok (value, rest)) => .before (.mismatch value expected) rest
  | none =>
      match cs with
      | [] => .before .endInValue []
      | '[' :: _ => .before (.mismatch (.array []) expected) cs
      | '{' :: _ => .before (.mismatch (.object []) expected) cs
      | _ => .reaching .expectedValue cs

def readText : List Char → Reading String
  | '"' :: cs => readString cs
  | cs => .error (refusal "a string" cs)

def readTextMembers : List Char → Reading (Dictionary String)
  | '{' :: cs =>
      (readObject readText cs).map fun (members, rest) => (.ofList members, rest)
  | cs => .error (refusal "a map" cs)

/-- The names and texts of a document of that form; of several texts under one name
the last one counts. -/
def readTexts (text : String) : Except Fault (Dictionary String) :=
  finishDocument (readTextMembers (skipSpace text.toList))

end Gherkin.Json

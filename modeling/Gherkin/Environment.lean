import Gherkin.Json.Decode
import Gherkin.Text.Blank

/-!
Contract: the variables of a run.

Owns: reading them from lines of the form `KEY=VALUE`, look-up, the base address
that requests start from, and their JSON form.
-/

set_option autoImplicit false

namespace Gherkin

structure Environment where
  values : Dictionary String
deriving Inhabited

namespace Environment

def empty : Environment :=
  ⟨∅⟩

/-- The variable that a line sets. Blank lines, lines that start with `#`, lines
without `=` and lines without a key set none. The value is all that follows the
first `=`; both are trimmed. -/
def binding? (line : List Char) : Option (String × String) :=
  let line := Text.trim line
  if line.head? = some '#' then none
  else match Text.cutAt? '=' line with
    | none => none
    | some (key, value) =>
        let key := Text.trim key
        if key.isEmpty then none
        else some (String.ofList key, String.ofList (Text.trim value))

/-- The variables that the lines of a text set; of two lines that set the same one
the later counts. -/
def ofText (text : String) : Environment :=
  ⟨.ofList ((text.toList.splitOn '\n').filterMap binding?)⟩

def ofList (pairs : List (String × String)) : Environment :=
  ⟨.ofList pairs⟩

def get? (environment : Environment) (key : String) : Option String :=
  environment.values.get? key

def set (environment : Environment) (key value : String) : Environment :=
  ⟨environment.values.insert key value⟩

/-- The variables that may hold the base address; the first one set counts. -/
def baseUrlKeys : List String :=
  ["BASE_URL", "API_URL"]

/-- The address that relative paths are appended to; empty if none is set. -/
def baseUrl (environment : Environment) : String :=
  (baseUrlKeys.findSome? environment.get?).getD ""

def toList (environment : Environment) : List (String × String) :=
  environment.values.toList

def size (environment : Environment) : Nat :=
  environment.values.size

def isEmpty (environment : Environment) : Bool :=
  environment.values.isEmpty

def toJson (environment : Environment) : Json.Value :=
  .ofDictionary .string environment.values

def ofJson? (value : Json.Value) : Except Json.DecodeError Environment :=
  (Json.decodeDictionary Json.decodeString value).map Environment.mk

end Environment

end Gherkin

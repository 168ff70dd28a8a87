import Gherkin.Feature.Table
import Gherkin.Text.Digits
import Gherkin.Text.Quoted

/-!
Contract: the arguments that a step is called with.

Owns: the kinds of arguments, how one is shown, reading an argument as a certain
kind, and the errors of such a reading.

Arguments stand in a fixed order: the values of the pattern's placeholders, then
the doc string, then the data table, each of the last two only if there is one.
-/

set_option autoImplicit false

namespace Gherkin

inductive Argument where
  | int (n : Int)
  | text (s : String)
  | docString (s : String)
  | table (t : DataTable)
deriving DecidableEq, Repr

namespace Argument

def kindName : Argument → String
  | .int _ => "an int"
  | .text _ => "a string"
  | .docString _ => "a doc string"
  | .table _ => "a data table"

/-- The argument in one line, unless it is a doc string of several. -/
def render : Argument → String
  | .int n => Text.signedNumeral n
  | .text s => Text.quoted s
  | .docString s => "\"\"\"" ++ s ++ "\"\"\""
  | .table t => "<table " ++ Text.numeral t.rows.length ++ " rows>"

end Argument

inductive ArgumentError where
  | missing (index : Nat)
  | wrongKind (index : Nat) (found expected : String)
  | noDocString
  | noDataTable
deriving DecidableEq, Repr

def ArgumentError.message : ArgumentError → String
  | .missing index => "step argument " ++ Text.numeral index ++ " is missing"
  | .wrongKind index found expected =>
      "step argument " ++ Text.numeral index ++ " is " ++ found ++ ", expected " ++ expected
  | .noDocString => "step has no doc string"
  | .noDataTable => "step has no data table"

/-- The arguments of one call, counted from zero. -/
abbrev Arguments :=
  List Argument

namespace Arguments

def at? (arguments : Arguments) (index : Nat) : Except ArgumentError Argument :=
  match arguments[index]? with
  | some argument => .ok argument
  | none => .error (.missing index)

def int (arguments : Arguments) (index : Nat) : Except ArgumentError Int :=
  match arguments.at? index with
  | .error e => .error e
  | .ok (.int n) => .ok n
  | .ok other => .error (.wrongKind index other.kindName "an int")

/-- The text at an index. A doc string there reads as a text, too. -/
def text (arguments : Arguments) (index : Nat) : Except ArgumentError String :=
  match arguments.at? index with
  | .error e => .error e
  | .ok (.text s) | .ok (.docString s) => .ok s
  | .ok other => .error (.wrongKind index other.kindName "a string")

def docString (arguments : Arguments) : Except ArgumentError String :=
  let found := arguments.findSome? fun
    | .docString s => some s
    | _ => none
  match found with
  | some s => .ok s
  | none => .error .noDocString

def table (arguments : Arguments) : Except ArgumentError DataTable :=
  let found := arguments.findSome? fun
    | .table t => some t
    | _ => none
  match found with
  | some t => .ok t
  | none => .error .noDataTable

end Arguments

end Gherkin

import Gherkin.Feature.Keyword
import Gherkin.Feature.Document

/-!
Contract: the kinds of lines of a feature text.

Owns: the five kinds, the reading of one line by itself (`LineKind.ofText`), the
written form of a kind (`LineKind.render`), and the cells of a table row.
Does not own: whether a line stands inside a doc string; that depends on the
lines before it (`Gherkin.Feature.Reader`).
-/

set_option autoImplicit false

namespace Gherkin

inductive LineKind where
  | header (name : String)
  | step (keyword : Keyword) (text : String)
  | fence
  | row (cells : List String)
  | other
deriving DecidableEq, Repr

namespace LineKind

def headerWord : String :=
  "Scenario:"

def fenceText : String :=
  "\"\"\""

def dropEmptyFirst : List (List Char) → List (List Char)
  | [] :: cells => cells
  | cells => cells

def dropEmptyLast (cells : List (List Char)) : List (List Char) :=
  if cells.getLast? = some [] then cells.dropLast else cells

/-- The trimmed cells between the pipes of a row. Only the empty ones outside
the outer pipes are dropped; an empty cell between two pipes stays. -/
def cellsOf (line : List Char) : List String :=
  (dropEmptyLast (dropEmptyFirst ((line.splitOn '|').map Text.trim))).map String.ofList

/-- The step on a trimmed line: a keyword, a space, and the text after it. -/
def stepOf? (line : List Char) : Option LineKind :=
  Keyword.all.findSome? fun keyword =>
    (Text.after? (keyword.word ++ " ") line).map fun text =>
      .step keyword (String.ofList (Text.trim text))

def ofTrimmed (line : List Char) : LineKind :=
  match Text.after? headerWord line with
  | some name => .header (String.ofList (Text.trim name))
  | none =>
      match stepOf? line with
      | some kind => kind
      | none =>
          if line = fenceText.toList then .fence
          else if line.head? = some '|' then .row (cellsOf line)
          else .other

/-- The kind of a line. Blank space at either end plays no part. -/
def ofText (line : String) : LineKind :=
  ofTrimmed (Text.trim line.toList)

/-- The written form of a kind; a line of no known kind shows as such. -/
def render : LineKind → String
  | .header name => headerWord ++ " " ++ name
  | .step keyword text => keyword.word ++ " " ++ text
  | .fence => fenceText
  | .row cells => "| " ++ Text.join " | " cells ++ " |"
  | .other => "<other>"

def isRow : LineKind → Bool
  | .row _ => true
  | _ => false

end LineKind

/-- A line of a feature text: what it is, how it was written, and its number. -/
structure Line where
  kind : LineKind
  raw : String
  number : UInt32
deriving DecidableEq, Repr

/-- The classified lines of a document; a document without any text has none. -/
def Document.classified (document : Document) : List Line :=
  if document.text.isEmpty then []
  else document.lines.map fun (number, raw) => ⟨.ofText raw, raw, number⟩

end Gherkin

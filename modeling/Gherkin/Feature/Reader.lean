import Gherkin.Feature.Line
import Gherkin.Feature.Scenario

/-!
Contract: reading scenarios off classified lines.

Owns: the reader's state, its step for one line (`Reader.read`), and the
scenarios of a stream of lines or of a text.
Does not own: the kinds of lines (`Gherkin.Feature.Line`).

Reading never fails. A line that has no place where it stands is dropped: a step
before any header, a fence or a row before any step, prose anywhere.
-/

set_option autoImplicit false

namespace Gherkin

/-- What the lines read so far have left open. -/
inductive Reader.Mode where
  | neutral
  /-- Between two fences: every line is content up to the closing fence. -/
  | docString
  /-- Behind a table row: any line that is no row ends the table. -/
  | dataTable
deriving DecidableEq, Repr

/-- A scenario that still receives steps; the newest step stands first. -/
structure Reader.Draft where
  name : String
  line : UInt32
  stepsRev : List Step
deriving DecidableEq, Repr

def Reader.Draft.scenario (draft : Reader.Draft) : Scenario :=
  ⟨draft.name, draft.line, draft.stepsRev.reverse⟩

/-- The state between two lines: finished scenarios (newest first), the one that
is open, the mode, and the doc string lines collected so far (newest first). -/
structure Reader where
  doneRev : List Scenario := []
  draft : Option Reader.Draft := none
  mode : Reader.Mode := .neutral
  docLinesRev : List String := []
deriving DecidableEq, Repr

namespace Reader

/-- All scenarios so far; the open one is the last. -/
def scenarios (reader : Reader) : List Scenario :=
  ((reader.draft.map Draft.scenario).toList ++ reader.doneRev).reverse

def currentStep? (reader : Reader) : Option Step :=
  reader.draft.bind fun draft => draft.stepsRev.head?

/-- Puts `step` in the place of the newest step of the open scenario. -/
def replaceStep (reader : Reader) (step : Step) : Reader :=
  { reader with
    draft := reader.draft.map fun draft =>
      { draft with stepsRev := step :: draft.stepsRev.tail } }

def openScenario (reader : Reader) (name : String) (line : UInt32) : Reader :=
  { reader with
    doneRev := (reader.draft.map Draft.scenario).toList ++ reader.doneRev
    draft := some ⟨name, line, []⟩
    mode := .neutral }

/-- Adds a step to the open scenario; before the first header it is dropped. -/
def addStep (reader : Reader) (keyword : Keyword) (text : String) (line : UInt32) : Reader :=
  match reader.draft with
  | none => reader
  | some draft =>
      let kind := keyword.resolve (draft.stepsRev.head?.map Step.kind)
      { reader with
        draft := some { draft with
          stepsRev := { kind, keyword, text, line } :: draft.stepsRev }
        mode := .neutral }

/-- Opens a doc string on the newest step, in the place of one it had before;
a fence without a step is dropped. -/
def openDocString (reader : Reader) : Reader :=
  match reader.currentStep? with
  | none => reader
  | some step =>
      { reader.replaceStep { step with docString := some "" } with
        mode := .docString
        docLinesRev := [] }

/-- Closes the doc string: its lines, joined by line feeds, go to the step. -/
def closeDocString (reader : Reader) : Reader :=
  let text := Text.join "\n" reader.docLinesRev.reverse
  let filled := match reader.currentStep? with
    | none => reader
    | some step => reader.replaceStep { step with docString := some text }
  { filled with mode := .neutral, docLinesRev := [] }

/-- Adds a row to the table of the newest step. The first row behind any other
line starts the table anew; a row without a step is dropped. -/
def addRow (reader : Reader) (cells : List String) : Reader :=
  match reader.currentStep? with
  | none => reader
  | some step =>
      let table :=
        if reader.mode = .dataTable then step.dataTable.getD .empty else .empty
      { reader.replaceStep { step with dataTable := some (table.push cells) } with
        mode := .dataTable }

/-- Reads a line outside doc strings. A line that is no row ends a table. -/
def readPlain (reader : Reader) (line : Line) : Reader :=
  let settled :=
    if reader.mode = .dataTable ∧ line.kind.isRow = false then { reader with mode := .neutral }
    else reader
  match line.kind with
  | .header name => settled.openScenario name line.number
  | .step keyword text => settled.addStep keyword text line.number
  | .fence => settled.openDocString
  | .row cells => settled.addRow cells
  | .other => settled

/-- Reads one line. Inside a doc string every line but a fence is content, as it
was written. -/
def read (reader : Reader) (line : Line) : Reader :=
  if reader.mode = .docString then
    if line.kind = .fence then reader.closeDocString
    else { reader with docLinesRev := line.raw :: reader.docLinesRev }
  else reader.readPlain line

def readAll (reader : Reader) (lines : List Line) : Reader :=
  lines.foldl read reader

@[simp] theorem readAll_nil (reader : Reader) : reader.readAll [] = reader := rfl

@[simp] theorem readAll_cons (reader : Reader) (line : Line) (lines : List Line) :
    reader.readAll (line :: lines) = (reader.read line).readAll lines := rfl

/-- Reading may stop between any two lines and go on from the state reached. -/
theorem readAll_append (reader : Reader) (first second : List Line) :
    reader.readAll (first ++ second) = (reader.readAll first).readAll second :=
  List.foldl_append ..

end Reader

def Scenario.ofLines (lines : List Line) : List Scenario :=
  (Reader.readAll {} lines).scenarios

def Scenario.ofText (text : String) : List Scenario :=
  Scenario.ofLines (Document.classified ⟨"<feature>", text⟩)

end Gherkin

import Gherkin.Report.Time
import Gherkin.Text.Digits

/-!
Contract: the results of steps and scenarios.

Owns: the three outcomes, the result of a scenario while it grows and when it is
finished, the names of its steps' results, and its one-line form.
Does not own: the counts over many results (`Gherkin.Report.Summary`).
-/

set_option autoImplicit false

namespace Gherkin

inductive Status where
  | passed
  | failed
  | skipped
deriving DecidableEq, Repr

namespace Status

def word : Status → String
  | .passed => "passed"
  | .failed => "failed"
  | .skipped => "skipped"

def all : List Status :=
  [.passed, .failed, .skipped]

end Status

/-- The result of a step; `keyword` is the word of its kind. Times are in
milliseconds. -/
structure StepResult where
  id : String
  text : String
  keyword : String
  status : Status
  duration : UInt64
  error : Option String := none
deriving DecidableEq, Repr

structure ScenarioResult where
  id : String
  timestamp : Time
  feature : String
  scenario : String
  steps : List StepResult
  status : Status
  duration : UInt64
  error : Option String := none
deriving DecidableEq

namespace ScenarioResult

/-- The result of a scenario of which no step has run. -/
def start (timestamp : Time) (feature scenario : String) : ScenarioResult where
  id := feature ++ "-" ++ scenario
  timestamp
  feature
  scenario
  steps := []
  status := .skipped
  duration := 0

/-- The name for the result of the next step: steps count from one. -/
def nextId (result : ScenarioResult) : String :=
  result.id ++ "-" ++ Text.numeral (result.steps.length + 1)

/-- Adds the result of a step. The error of a failed step becomes the error of the
scenario, unless that has one. -/
def push (result : ScenarioResult) (step : StepResult) : ScenarioResult :=
  { result with
    error := if step.status = .failed then result.error.or step.error else result.error
    steps := result.steps ++ [step] }

/-- A scenario failed if one of its steps did, and was skipped if all of them were,
which is so when there are none. -/
def statusOf (steps : List StepResult) : Status :=
  if steps.any (·.status = .failed) then .failed
  else if steps.all (·.status = .skipped) then .skipped
  else .passed

def finish (result : ScenarioResult) (duration : UInt64) : ScenarioResult :=
  { result with duration, status := statusOf result.steps }

def passed (result : ScenarioResult) : Bool :=
  result.status = .passed

/-- The result on one line: a mark, the names, and the error of a failure. -/
def render (result : ScenarioResult) : String :=
  let names := result.feature ++ " › " ++ result.scenario
  match result.status with
  | .passed => "  ✓ " ++ names
  | .skipped => "  - " ++ names
  | .failed => "  ✗ " ++ names ++ " — " ++ result.error.getD "unknown error"

end ScenarioResult

end Gherkin

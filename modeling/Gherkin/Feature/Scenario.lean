import Gherkin.Feature.Keyword
import Gherkin.Feature.Table

/-!
Contract: steps and scenarios.

Owns: the records that a feature text is read into.
Does not own: the reading (`Gherkin.Feature.Reader`) and their JSON form
(`Gherkin.Feature.Json`).
-/

set_option autoImplicit false

namespace Gherkin

/-- One step: its resolved kind, the keyword and text as written, the number of
its line, and what follows it, if anything does. -/
structure Step where
  kind : StepKind
  keyword : Keyword
  text : String
  line : UInt32
  docString : Option String := none
  dataTable : Option DataTable := none
deriving DecidableEq, Repr

/-- A named sequence of steps, with the number of the line of its header. -/
structure Scenario where
  name : String
  line : UInt32
  steps : List Step
deriving DecidableEq, Repr

def Scenario.lastKind? (scenario : Scenario) : Option StepKind :=
  scenario.steps.getLast?.map Step.kind

end Gherkin

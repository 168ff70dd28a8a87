import Gherkin.Json.Texts
import Gherkin.Report.Json
import Gherkin.Run.HttpSteps
import Gherkin.Run.Session

/-!
Contract: a whole run from text to text.

Owns: `runBatch`, which takes features and variables as text and gives the results
as JSON, and the listing of the built-in sentences.
-/

set_option autoImplicit false

namespace Gherkin

open Json

def version : String :=
  "0.1.1"

/-- An object that says why there is no other output. -/
def errorJson (message : String) : Value :=
  .ofMembers [("error", .string message)]

/-- The text of some results: a list of records. -/
def resultsText (results : List ScenarioResult) : String :=
  String.ofList (listText (results.map ScenarioResult.chars))

/-- Runs the features that a JSON object holds under their names, in order of the
names, with the built-in sentences. The world that is left comes with the output. -/
def runBatch (transport : Http.Transport) (clock : Clock) (features environment : String) :
    String × World :=
  let world := World.start (.ofText environment) transport
  match readTexts features with
  | .error fault =>
      ((errorJson ("invalid features JSON: " ++ fault.message features)).render, world)
  | .ok texts =>
      match HttpSteps.library.run clock texts.toList world with
      | (.error e, world) => ((errorJson e.runMessage).render, world)
      | (.ok results, world) => (resultsText results, world)

/-- The kinds and patterns of the built-in sentences. -/
def sentencesJson : Value :=
  .array (HttpSteps.entries.map fun entry =>
    .ofMembers [("kind", .string entry.kind.word), ("pattern", .string entry.pattern)])

end Gherkin

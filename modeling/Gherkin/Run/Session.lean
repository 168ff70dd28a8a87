import Gherkin.Feature.Reader
import Gherkin.Report.Result
import Gherkin.Run.Library

/-!
Contract: running scenarios.

Owns: what one step comes to, the results of scenarios, the session that goes on from
scenario to scenario and from feature to feature, and the run of features as a whole.
Main statement: `Step.runAll_of_failed`, nothing runs behind a step that fails.

Steps run in order and share one world. The first failing step ends its scenario; it
never ends the session.
-/

set_option autoImplicit false

namespace Gherkin

variable {W : Type}

/-- The arguments of a step: those captured from its text, then its doc string
without blank space at the ends, then its table. -/
def Step.arguments (step : Step) (captured : List Argument) : Arguments :=
  captured ++ (step.docString.map fun s => Argument.docString (Text.trimmed s)).toList ++
    (step.dataTable.map Argument.table).toList

/-- Runs a step: its error, if it failed, and the world that it leaves. -/
def Step.run (registry : Registry (Action W)) (step : Step) (world : W) :
    Option StepError × W :=
  match registry.find? step.kind step.text with
  | none => (some (.noMatch step.kind step.text), world)
  | some found =>
      let (outcome, world) := found.definition.action world (step.arguments found.arguments)
      (outcome.error?, world)

/-- The result with the record of one more step. -/
def ScenarioResult.record (watch : Watch) (result : ScenarioResult) (step : Step)
    (error : Option StepError) : ScenarioResult :=
  result.push {
    id := result.nextId
    text := step.text
    keyword := step.kind.word
    status := if error.isSome then .failed else .passed
    duration := watch.step result.steps.length
    error := error.map StepError.message }

/-- Runs steps in order, up to the first that fails, and records each one run. -/
def Step.runAll (registry : Registry (Action W)) (watch : Watch) :
    List Step → ScenarioResult → W → ScenarioResult × W
  | [], result, world => (result, world)
  | step :: steps, result, world =>
      match step.run registry world with
      | (none, world) => runAll registry watch steps (result.record watch step none) world
      | (some error, world) => (result.record watch step (some error), world)

/-- A failing step ends its scenario: what stands behind it has no effect. -/
theorem Step.runAll_of_failed
    (registry : Registry (Action W)) (watch : Watch)
    {step : Step} {world left : W} {error : StepError}
    (failed : step.run registry world = (some error, left))
    (steps : List Step) (result : ScenarioResult) :
    runAll registry watch (step :: steps) result world =
      (result.record watch step (some error), left) := by
  simp [runAll, failed]

def Scenario.run (registry : Registry (Action W)) (watch : Watch) (feature : String)
    (scenario : Scenario) (world : W) : ScenarioResult × W :=
  let (result, world) :=
    Step.runAll registry watch scenario.steps
      (.start watch.started feature scenario.name) world
  (result.finish watch.whole, world)

/-- Runs scenarios of a feature in order, each in the world that the one before left. -/
def Scenario.runAll (registry : Registry (Action W)) (clock : Clock) (feature : String) :
    List Scenario → W → List ScenarioResult × W
  | [], world => ([], world)
  | scenario :: scenarios, world =>
      let (result, world) := scenario.run registry (clock.watch 0) feature world
      let (results, world) := runAll registry (clock.behind 1) feature scenarios world
      (result :: results, world)

theorem Scenario.runAll_cons
    (registry : Registry (Action W)) (clock : Clock) (feature : String)
    (scenario : Scenario) (scenarios : List Scenario) (world : W) :
    runAll registry clock feature (scenario :: scenarios) world =
      let (result, between) := scenario.run registry (clock.watch 0) feature world
      let (results, left) := runAll registry (clock.behind 1) feature scenarios between
      (result :: results, left) := rfl

/-- The state between two features: the world, the definitions, and the results
collected. The clock gives the times that are written into the results to come. -/
structure Session (W : Type) where
  world : W
  registry : Registry (Action W)
  clock : Clock := .epoch
  results : List ScenarioResult := []

namespace Session

/-- A session with the definitions of a library, in a world. Steps that fail are part
of a session; only a library that fails prevents it. -/
def start (library : StepLibrary (Action W)) (clock : Clock) (world : W) :
    Except SetupError (Session W) :=
  (library {}).map fun registry => { world, registry, clock }

/-- Runs the scenarios of a feature text and collects their results. -/
def runFeature (session : Session W) (feature text : String) : Session W :=
  let (results, world) :=
    Scenario.runAll session.registry session.clock feature (Scenario.ofText text) session.world
  { session with
    world
    clock := session.clock.behind results.length
    results := session.results ++ results }

/-- Runs features in order; each is a name and a text. -/
def runFeatures (session : Session W) (features : List (String × String)) : Session W :=
  features.foldl (fun session feature => session.runFeature feature.1 feature.2) session

/-- Runs one scenario. Its result is given back and not collected. -/
def runSingle (session : Session W) (feature : String) (scenario : Scenario) :
    ScenarioResult × Session W :=
  let (result, world) :=
    scenario.run session.registry (session.clock.watch 0) feature session.world
  (result, { session with world, clock := session.clock.behind 1 })

theorem runFeatures_append (session : Session W) (first second : List (String × String)) :
    session.runFeatures (first ++ second) = (session.runFeatures first).runFeatures second :=
  List.foldl_append ..

end Session

/-- A whole run: features in order, with the definitions of a library and one world. The
world that is left comes with the results. -/
def StepLibrary.run (library : StepLibrary (Action W)) (clock : Clock)
    (features : List (String × String)) (world : W) :
    Except SetupError (List ScenarioResult) × W :=
  match Session.start library clock world with
  | .error e => (.error e, world)
  | .ok session =>
      let session := session.runFeatures features
      (.ok session.results, session.world)

end Gherkin

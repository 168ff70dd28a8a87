import Gherkin.Proofs.Feature.Joining
import Gherkin.Proofs.Run.Course
import Gherkin.Report.Summary

/-!
Contract: a whole run is one chain of scenarios.

Owns: the scenarios of features in the order of their running, chains of scenarios that
hand on the world, what the counts of a run say, and how a run falls apart where its
features do.
Does not own: what becomes of one scenario (`Gherkin.Proofs.Run.Course`) and where a text
may be cut (`Gherkin.Proofs.Feature.Joining`).
Main statement: `run_of_chain`.

`W` is all that steps can read and change, the requests that were sent included.
-/

set_option autoImplicit false

namespace Gherkin

variable {W : Type}

/-! ## Chains -/

/-- All scenarios of some features with the names of these, in source order. -/
def scenariosOf (features : List (String × String)) : List (String × Scenario) :=
  features.flatMap fun feature => (Scenario.ofText feature.2).map (feature.1, ·)

/-- A scenario of a feature, the world in which it starts, and what is read off the clock
while it runs. -/
structure Started (W : Type) where
  feature : String
  scenario : Scenario
  world : W
  watch : Watch

namespace Started

def named (started : Started W) : String × Scenario :=
  (started.feature, started.scenario)

def result (registry : Registry (Action W)) (started : Started W) : ScenarioResult :=
  (started.scenario.run registry started.watch started.feature started.world).1

def Fails (registry : Registry (Action W)) (started : Started W) : Prop :=
  ∃ count error left,
    Course registry started.world started.scenario.steps count (some error) left

end Started

/-- Scenarios in a row, each in the world that the run of the one before left. -/
inductive Chain (registry : Registry (Action W)) :
    Clock → W → List (Started W) → W → Prop where
  | nil {clock : Clock} {world : W} : Chain registry clock world [] world
  | cons {clock : Clock} {feature : String} {scenario : Scenario} {chain : List (Started W)}
      {world left : W}
      (later : Chain registry (clock.behind 1)
        (scenario.run registry (clock.watch 0) feature world).2 chain left) :
      Chain registry clock world (⟨feature, scenario, world, clock.watch 0⟩ :: chain) left

theorem Chain.append
    {registry : Registry (Action W)} {clock : Clock} {first second : List (Started W)}
    {world between left : W}
    (holds : Chain registry clock world first between)
    (later : Chain registry (clock.behind first.length) between second left) :
    Chain registry clock world (first ++ second) left := by
  induction holds with
  | nil =>
      rw [List.length_nil, Clock.behind_zero] at later
      exact later
  | cons _ inductionHypothesis =>
      rw [List.length_cons, Nat.add_comm, ← Clock.behind_behind] at later
      exact .cons (inductionHypothesis later)

theorem exists_chain_runAll
    (registry : Registry (Action W)) (clock : Clock) (feature : String)
    (scenarios : List Scenario) (world : W) :
    ∃ chain left, Chain registry clock world chain left ∧
      chain.map Started.named = scenarios.map (feature, ·) ∧
      Scenario.runAll registry clock feature scenarios world =
        (chain.map (Started.result registry), left) := by
  induction scenarios generalizing clock world with
  | nil => exact ⟨[], world, .nil, rfl, rfl⟩
  | cons scenario scenarios inductionHypothesis =>
      obtain ⟨chain, left, holds, names, ran⟩ :=
        inductionHypothesis (clock.behind 1)
          (scenario.run registry (clock.watch 0) feature world).2
      refine ⟨⟨feature, scenario, world, clock.watch 0⟩ :: chain, left, .cons holds, ?_, ?_⟩
      · rw [List.map_cons, names]
        rfl
      · rw [Scenario.runAll_cons]
        simp only [ran]
        rfl

/-- Features run as one chain, whose results come behind those collected before. -/
theorem exists_chain_runFeatures (session : Session W) (features : List (String × String)) :
    ∃ chain left, Chain session.registry session.clock session.world chain left ∧
      chain.map Started.named = scenariosOf features ∧
      session.runFeatures features =
        { session with
          world := left
          clock := session.clock.behind chain.length
          results := session.results ++ chain.map (Started.result session.registry) } := by
  induction features generalizing session with
  | nil => exact ⟨[], session.world, .nil, rfl, by simp [Session.runFeatures]⟩
  | cons feature features inductionHypothesis =>
      obtain ⟨chain, between, holds, names, ran⟩ :=
        exists_chain_runAll session.registry session.clock feature.1
          (Scenario.ofText feature.2) session.world
      have first : session.runFeature feature.1 feature.2 =
          { session with
            world := between
            clock := session.clock.behind chain.length
            results := session.results ++ chain.map (Started.result session.registry) } := by
        unfold Session.runFeature
        rw [ran]
        simp only [List.length_map]
      obtain ⟨later, left, laterHolds, laterNames, laterRan⟩ :=
        inductionHypothesis (session.runFeature feature.1 feature.2)
      rw [first] at laterHolds laterRan
      refine ⟨chain ++ later, left, holds.append laterHolds, ?_, ?_⟩
      · rw [List.map_append, names, laterNames]
        rfl
      · show (session.runFeature feature.1 feature.2).runFeatures features = _
        rw [first, laterRan, List.map_append, List.append_assoc, Clock.behind_behind,
          List.length_append]

/-! ## What the counts say -/

/-- A step as a run sees it: the keyword shows in the kind only, and the number of the line
does not show at all. -/
def Step.seen (step : Step) : Step :=
  { step with keyword := .names step.kind, line := 0 }

def Scenario.seen (scenario : Scenario) : Scenario :=
  { scenario with line := 0, steps := scenario.steps.map Step.seen }

theorem Step.run_seen (registry : Registry (Action W)) (step : Step) (world : W) :
    step.seen.run registry world = step.run registry world := rfl

theorem Step.runAll_seen
    (registry : Registry (Action W)) (watch : Watch) (steps : List Step)
    (result : ScenarioResult) (world : W) :
    Step.runAll registry watch (steps.map Step.seen) result world =
      Step.runAll registry watch steps result world := by
  induction steps generalizing result world with
  | nil => rfl
  | cons step steps inductionHypothesis =>
      rw [List.map_cons, Step.runAll, Step.runAll, Step.run_seen]
      rcases step.run registry world with ⟨_ | error, left⟩
      · exact inductionHypothesis (result.record watch step none) left
      · rfl

theorem Scenario.run_seen
    (registry : Registry (Action W)) (watch : Watch) (feature : String)
    (scenario : Scenario) (world : W) :
    scenario.seen.run registry watch feature world =
      scenario.run registry watch feature world := by
  unfold Scenario.run Scenario.seen
  rw [Step.runAll_seen]

theorem Scenario.runAll_seen
    (registry : Registry (Action W)) (clock : Clock) (feature : String)
    (scenarios : List Scenario) (world : W) :
    Scenario.runAll registry clock feature (scenarios.map Scenario.seen) world =
      Scenario.runAll registry clock feature scenarios world := by
  induction scenarios generalizing clock world with
  | nil => rfl
  | cons scenario scenarios inductionHypothesis =>
      rw [List.map_cons, Scenario.runAll_cons, Scenario.runAll_cons, Scenario.run_seen]
      simp only [inductionHypothesis]

/-- Scenarios in which a run sees the same run the same. -/
theorem Scenario.runAll_of_seen
    {scenarios others : List Scenario}
    (same : scenarios.map Scenario.seen = others.map Scenario.seen)
    (registry : Registry (Action W)) (clock : Clock) (feature : String) (world : W) :
    Scenario.runAll registry clock feature scenarios world =
      Scenario.runAll registry clock feature others world := by
  rw [← Scenario.runAll_seen, same, Scenario.runAll_seen]

theorem Session.runFeature_of_seen
    {text other : String}
    (same : (Scenario.ofText text).map Scenario.seen = (Scenario.ofText other).map Scenario.seen)
    (session : Session W) (name : String) :
    session.runFeature name text = session.runFeature name other := by
  unfold runFeature
  rw [Scenario.runAll_of_seen same]

theorem Scenario.seen_renumber (number : UInt32 → UInt32) (scenario : Scenario) :
    (scenario.renumber number).seen = scenario.seen := by
  unfold seen renumber
  rw [List.map_map]
  rfl

theorem Scenario.map_seen_renumber (number : UInt32 → UInt32) (scenarios : List Scenario) :
    (scenarios.map (renumber number)).map seen = scenarios.map seen := by
  rw [List.map_map]
  exact List.map_congr_left fun scenario _ => seen_renumber number scenario

/-- Texts with the same scenarios, line numbers aside, run the same. -/
theorem Session.runFeature_of_renumber
    {number : UInt32 → UInt32} {text other : String}
    (same : (Scenario.ofText text).map (Scenario.renumber number) =
      (Scenario.ofText other).map (Scenario.renumber number))
    (session : Session W) (name : String) :
    session.runFeature name text = session.runFeature name other := by
  apply runFeature_of_seen
  rw [← Scenario.map_seen_renumber number, same, Scenario.map_seen_renumber]

/-! ## Cutting features -/

def StepResult.timeless (step : StepResult) : StepResult :=
  { step with duration := 0 }

/-- The result without what was read off the clock. -/
def ScenarioResult.timeless (result : ScenarioResult) : ScenarioResult :=
  { result with
    timestamp := .epoch
    duration := 0
    steps := result.steps.map StepResult.timeless }

theorem Scenario.timeless_resultOf
    (scenario : Scenario) (watch other : Watch) (feature : String) (count : Nat)
    (failure : Option StepError) :
    (scenario.resultOf watch feature count failure).timeless =
      (scenario.resultOf other feature count failure).timeless := by
  have records (id : String) (steps : List Step) :
      (recordsOf watch id steps failure).map StepResult.timeless =
        (recordsOf other id steps failure).map StepResult.timeless := by
    apply List.ext_getElem
    · simp [recordsOf]
    · intro index first second
      simp [recordsOf, Step.recordAt, StepResult.timeless]
  simp only [resultOf, ScenarioResult.timeless, records]

/-- The clock shows in the times of a result only. -/
theorem Scenario.run_timeless
    (registry : Registry (Action W)) (watch other : Watch) (feature : String)
    (scenario : Scenario) (world : W) :
    (scenario.run registry watch feature world).1.timeless =
        (scenario.run registry other feature world).1.timeless ∧
      (scenario.run registry watch feature world).2 =
        (scenario.run registry other feature world).2 := by
  obtain ⟨count, failure, left, course⟩ := exists_course registry scenario.steps world
  rw [course.run_eq, course.run_eq]
  exact ⟨scenario.timeless_resultOf watch other feature count failure, rfl⟩

namespace Session

/-- Sessions that differ in their clocks and in times read off them before. -/
structure SameButTimes (session other : Session W) : Prop where
  world : session.world = other.world
  registry : session.registry = other.registry
  results : session.results.map ScenarioResult.timeless =
    other.results.map ScenarioResult.timeless

end Session

theorem Scenario.runAll_timeless
    (registry : Registry (Action W)) (clock other : Clock) (feature : String)
    (scenarios : List Scenario) (world : W) :
    (runAll registry clock feature scenarios world).1.map ScenarioResult.timeless =
        (runAll registry other feature scenarios world).1.map ScenarioResult.timeless ∧
      (runAll registry clock feature scenarios world).2 =
        (runAll registry other feature scenarios world).2 := by
  induction scenarios generalizing clock other world with
  | nil => exact ⟨rfl, rfl⟩
  | cons scenario scenarios inductionHypothesis =>
      obtain ⟨result, between⟩ :=
        run_timeless registry (clock.watch 0) (other.watch 0) feature scenario world
      obtain ⟨results, left⟩ := inductionHypothesis (clock.behind 1) (other.behind 1)
        (scenario.run registry (clock.watch 0) feature world).2
      simp only [runAll_cons, List.map_cons, ← between]
      exact ⟨congrArg₂ List.cons result results, left⟩

theorem Session.SameButTimes.runFeatures
    {session other : Session W} (same : session.SameButTimes other)
    (features : List (String × String)) :
    (session.runFeatures features).SameButTimes (other.runFeatures features) := by
  induction features generalizing session other with
  | nil => exact same
  | cons feature features inductionHypothesis =>
      obtain ⟨results, left⟩ := Scenario.runAll_timeless session.registry session.clock
        other.clock feature.1 (Scenario.ofText feature.2) session.world
      have first : (session.runFeature feature.1 feature.2).SameButTimes
          (other.runFeature feature.1 feature.2) := by
        unfold Session.runFeature
        rw [← same.world, ← same.registry]
        refine ⟨left, rfl, ?_⟩
        simp only [List.map_append, same.results, results]
      exact inductionHypothesis first

/-! ## Whole runs -/

namespace Session

/-- The same session with further results that were collected before. -/
def behind (done : List ScenarioResult) (session : Session W) : Session W :=
  { session with results := done ++ session.results }

end Session

namespace StepLibrary

theorem run_of_ok
    {library : StepLibrary (Action W)} {registry : Registry (Action W)}
    (registered : library {} = .ok registry)
    (clock : Clock) (features : List (String × String)) (world : W) :
    library.run clock features world =
      let session := Session.runFeatures { world, registry, clock } features
      (.ok session.results, session.world) := by
  unfold run Session.start
  rw [registered]
  rfl

theorem run_of_error
    {library : StepLibrary (Action W)} {error : SetupError}
    (refused : library {} = .error error)
    (clock : Clock) (features : List (String × String)) (world : W) :
    library.run clock features world = (.error error, world) := by
  unfold run Session.start
  rw [refused]
  rfl

/-- The results of a run are those of one chain of all its scenarios. -/
theorem exists_chain_run
    {library : StepLibrary (Action W)} {registry : Registry (Action W)}
    (registered : library {} = .ok registry)
    (clock : Clock) (features : List (String × String)) (world : W) :
    ∃ chain left, Chain registry clock world chain left ∧
      chain.map Started.named = scenariosOf features ∧
      library.run clock features world =
        (.ok (chain.map (Started.result registry)), left) := by
  let start : Session W := { world, registry, clock }
  obtain ⟨chain, left, holds, names, ran⟩ := exists_chain_runFeatures start features
  refine ⟨chain, left, holds, names, ?_⟩
  rw [run_of_ok registered]
  show (Except.ok (start.runFeatures features).results,
    (start.runFeatures features).world) = _
  rw [ran]
  simp [start]

/-- A run on another clock leaves the same world, and its results have the same to say but
for the times in them. -/
theorem run_timeless
    (library : StepLibrary (Action W)) (clock other : Clock)
    (features : List (String × String)) (world : W) :
    (library.run clock features world).1.map (List.map ScenarioResult.timeless) =
        (library.run other features world).1.map (List.map ScenarioResult.timeless) ∧
      (library.run clock features world).2 = (library.run other features world).2 := by
  cases registered : library {} with
  | error error =>
      rw [run_of_error registered, run_of_error registered]
      exact ⟨rfl, rfl⟩
  | ok registry =>
      have start : Session.SameButTimes (W := W) { world, registry, clock }
          { world, registry, clock := other } := ⟨rfl, rfl, rfl⟩
      have same := start.runFeatures features
      rw [run_of_ok registered, run_of_ok registered]
      exact ⟨congrArg Except.ok same.results, same.world⟩

/-- Features that every session runs in the same way run the same as a whole. -/
theorem run_of_same_features
    {features others : List (String × String)}
    (same : ∀ session : Session W, session.runFeatures features = session.runFeatures others)
    (library : StepLibrary (Action W)) (clock : Clock) (world : W) :
    library.run clock features world = library.run clock others world := by
  unfold run
  cases Session.start library clock world with
  | error e => rfl
  | ok session => simp only [same]

/-- All that a run depends on of a feature text is what it sees of its scenarios. -/
theorem run_of_seen
    {text other : String}
    (same : (Scenario.ofText text).map Scenario.seen = (Scenario.ofText other).map Scenario.seen)
    (library : StepLibrary (Action W)) (clock : Clock)
    (before after : List (String × String)) (name : String) (world : W) :
    library.run clock (before ++ (name, text) :: after) world =
      library.run clock (before ++ (name, other) :: after) world := by
  apply run_of_same_features
  intro session
  rw [Session.runFeatures_append, Session.runFeatures_append]
  show ((session.runFeatures before).runFeature name text).runFeatures after = _
  rw [Session.runFeature_of_seen same]
  rfl

end StepLibrary

end Gherkin

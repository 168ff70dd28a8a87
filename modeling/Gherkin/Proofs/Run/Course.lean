import Mathlib.Data.List.Induction
import Gherkin.Run.Session

/-!
Contract: how far the steps of a scenario run, and what the result says of that.

Owns: when a step passes and with which error it fails, the course of some steps up to
the first that fails, and the result that belongs to a course.
Does not own: the running itself (`Gherkin.Run.Session`).
Main statement: `run_of_course`.

`W` is all that steps can read and change. For the built-in sentences that is a `World`,
which knows the transport and keeps the requests that were sent.
-/

set_option autoImplicit false

namespace Gherkin

variable {W : Type}

/-! ## What steps come to -/

/-- The definition that is found for a step comes to an outcome and leaves a world. -/
def Step.Calls
    (registry : Registry (Action W)) (step : Step) (world : W)
    (outcome : Outcome) (left : W) : Prop :=
  ∃ found, registry.find? step.kind step.text = some found ∧
    found.definition.action world (step.arguments found.arguments) = (outcome, left)

/-- A step fails for one of three reasons. -/
inductive Step.Fails
    (registry : Registry (Action W)) (step : Step) (world : W) :
    StepError → W → Prop where
  | noMatch (missing : registry.find? step.kind step.text = none) :
      Fails registry step world (.noMatch step.kind step.text) world
  | error {error : StepError} {left : W}
      (calls : step.Calls registry world (.failed error) left) :
      Fails registry step world error left
  | panic {payload : Option String} {left : W}
      (calls : step.Calls registry world (.panicked payload) left) :
      Fails registry step world (.panicked payload) left

/-- Steps that all pass, each in the world that the one before left. -/
inductive AllPass (registry : Registry (Action W)) : W → List Step → W → Prop where
  | nil {world : W} : AllPass registry world [] world
  | cons {step : Step} {steps : List Step} {world between left : W}
      (calls : step.Calls registry world .passed between)
      (later : AllPass registry between steps left) :
      AllPass registry world (step :: steps) left

/-- How many steps run, the error of the last of them if it fails, and the world that is
left: all steps run if all pass, and otherwise those up to the first that fails. -/
inductive Course (registry : Registry (Action W)) (world : W) :
    List Step → Nat → Option StepError → W → Prop where
  | passed {steps : List Step} {left : W} (pass : AllPass registry world steps left) :
      Course registry world steps steps.length none left
  | failed {before after : List Step} {step : Step} {between left : W} {error : StepError}
      (pass : AllPass registry world before between)
      (fails : step.Fails registry between error left) :
      Course registry world (before ++ step :: after) (before.length + 1) (some error) left

/-! ## What a result says -/

def Step.recordAt
    (step : Step) (watch : Watch) (id : String) (index : Nat) (error : Option StepError) :
    StepResult where
  id := id ++ "-" ++ Text.numeral (index + 1)
  text := step.text
  keyword := step.kind.word
  status := if error.isSome then .failed else .passed
  duration := watch.step index
  error := error.map StepError.message

/-- The records of steps that ran; only the last one may have failed. -/
def recordsOf
    (watch : Watch) (id : String) (steps : List Step) (failure : Option StepError) :
    List StepResult :=
  steps.mapIdx fun index step =>
    step.recordAt watch id index (if index + 1 = steps.length then failure else none)

def Scenario.resultOf
    (scenario : Scenario) (watch : Watch) (feature : String)
    (count : Nat) (failure : Option StepError) : ScenarioResult where
  id := feature ++ "-" ++ scenario.name
  timestamp := watch.started
  feature
  scenario := scenario.name
  steps := recordsOf watch (feature ++ "-" ++ scenario.name) (scenario.steps.take count) failure
  status :=
    if scenario.steps = [] then .skipped
    else if failure.isSome then .failed
    else .passed
  duration := watch.whole
  error := failure.map StepError.message

theorem recordsOf_length
    (watch : Watch) (id : String) (steps : List Step) (failure : Option StepError) :
    (recordsOf watch id steps failure).length = steps.length := by
  simp [recordsOf]

theorem recordsOf_concat
    (watch : Watch) (id : String) (before : List Step) (step : Step)
    (failure : Option StepError) :
    recordsOf watch id (before ++ [step]) failure =
      recordsOf watch id before none ++ [step.recordAt watch id before.length failure] := by
  unfold recordsOf
  rw [List.mapIdx_append]
  congr 1
  · apply List.ext_getElem
    · simp
    · intro index inside _
      have notLast : index ≠ before.length := by
        rw [List.length_mapIdx] at inside
        omega
      simp [notLast]
  · simp

theorem passed_of_mem_recordsOf
    {watch : Watch} {id : String} {steps : List Step} {record : StepResult}
    (member : record ∈ recordsOf watch id steps none) : record.status = .passed := by
  obtain ⟨index, inside, rfl⟩ := List.mem_mapIdx.mp member
  simp [Step.recordAt]

/-- The status shows whether the last step failed, and whether there is a step. -/
theorem statusOf_recordsOf
    (watch : Watch) (id : String) (steps : List Step) (failure : Option StepError) :
    ScenarioResult.statusOf (recordsOf watch id steps failure) =
      if steps = [] then .skipped else if failure.isSome then .failed else .passed := by
  -- Only the last record depends on the failure.
  rcases List.eq_nil_or_concat steps with rfl | ⟨before, last, rfl⟩
  · rfl
  · have earlier : ∀ record ∈ recordsOf watch id before none, record.status ≠ .failed := by
      intro record member
      rw [passed_of_mem_recordsOf member]
      decide
    rw [List.concat_eq_append, recordsOf_concat]
    cases failure with
    | none => simpa [ScenarioResult.statusOf, Step.recordAt] using earlier
    | some error => simp [ScenarioResult.statusOf, Step.recordAt]

/-! ## What running does -/

namespace Step

theorem run_of_calls
    {registry : Registry (Action W)} {step : Step} {world left : W} {outcome : Outcome}
    (calls : step.Calls registry world outcome left) :
    step.run registry world = (outcome.error?, left) := by
  obtain ⟨found, finds, acts⟩ := calls
  simp [run, finds, acts]

theorem run_of_fails
    {registry : Registry (Action W)} {step : Step} {world left : W} {error : StepError}
    (fails : step.Fails registry world error left) :
    step.run registry world = (some error, left) := by
  cases fails with
  | noMatch missing => simp [run, missing]
  | error calls => rw [run_of_calls calls]; rfl
  | panic calls => rw [run_of_calls calls]; rfl

theorem passes_or_fails (registry : Registry (Action W)) (step : Step) (world : W) :
    (∃ left, step.Calls registry world .passed left) ∨
      ∃ error left, step.Fails registry world error left := by
  cases finds : registry.find? step.kind step.text with
  | none => exact .inr ⟨_, _, .noMatch finds⟩
  | some found =>
      cases acts : found.definition.action world (step.arguments found.arguments) with
      | mk outcome left =>
          have calls : step.Calls registry world outcome left := ⟨found, finds, acts⟩
          cases outcome with
          | passed => exact .inl ⟨left, calls⟩
          | failed error => exact .inr ⟨error, left, .error calls⟩
          | panicked payload => exact .inr ⟨_, left, .panic calls⟩

end Step

/-- Steps that pass are recorded one after the other, and the rest goes on behind them. -/
theorem AllPass.runAll
    {registry : Registry (Action W)} {world between : W} {before : List Step}
    (pass : AllPass registry world before between)
    (watch : Watch) (after : List Step) (result : ScenarioResult) :
    Step.runAll registry watch (before ++ after) result world =
      Step.runAll registry watch after
        (before.foldl (fun result step => result.record watch step none) result) between := by
  induction pass generalizing result with
  | nil => rfl
  | cons calls later inductionHypothesis =>
      have passes := Step.run_of_calls calls
      rw [List.cons_append, Step.runAll, passes]
      exact inductionHypothesis (result.record watch _ none)

theorem foldl_record (steps : List Step) (watch : Watch) (feature name : String) :
    steps.foldl (fun result step => result.record watch step none)
        (.start watch.started feature name) =
      { ScenarioResult.start watch.started feature name with
        steps := recordsOf watch (feature ++ "-" ++ name) steps none } := by
  induction steps using List.reverseRecOn with
  | nil => rfl
  | append_singleton before step inductionHypothesis =>
      rw [List.foldl_append, inductionHypothesis, recordsOf_concat,
        ← recordsOf_length watch _ before]
      rfl

/-! ## Every scenario has a course -/

theorem exists_course (registry : Registry (Action W)) (steps : List Step) (world : W) :
    ∃ count failure left, Course registry world steps count failure left := by
  induction steps generalizing world with
  | nil => exact ⟨_, _, world, .passed .nil⟩
  | cons step steps inductionHypothesis =>
      rcases step.passes_or_fails registry world with ⟨between, calls⟩ | ⟨error, left, fails⟩
      · obtain ⟨count, failure, left, course⟩ := inductionHypothesis between
        cases course with
        | passed pass => exact ⟨_, _, _, .passed (.cons calls pass)⟩
        | failed pass fails => exact ⟨_, _, _, .failed (.cons calls pass) fails⟩
      · exact ⟨_, _, _, .failed .nil fails⟩

/-- Running the steps of a course collects their records and keeps the error. -/
theorem Course.runAll
    {registry : Registry (Action W)} {steps : List Step} {world left : W}
    {count : Nat} {failure : Option StepError}
    (course : Course registry world steps count failure left)
    (watch : Watch) (feature name : String) :
    Step.runAll registry watch steps (.start watch.started feature name) world =
      ({ ScenarioResult.start watch.started feature name with
          steps := recordsOf watch (feature ++ "-" ++ name) (steps.take count) failure
          error := failure.map StepError.message }, left) := by
  cases course with
  | passed pass =>
      have ran := pass.runAll watch [] (.start watch.started feature name)
      rw [List.append_nil, foldl_record] at ran
      rw [ran, List.take_length]
      rfl
  | @failed before after step between left error pass fails =>
      have ran := pass.runAll watch (step :: after) (.start watch.started feature name)
      rw [foldl_record, Step.runAll_of_failed registry watch (Step.run_of_fails fails)] at ran
      have taken : (before ++ step :: after).take (before.length + 1) = before ++ [step] :=
        List.take_length_add_append 1
      rw [ran, taken, recordsOf_concat]
      rw [← recordsOf_length watch (feature ++ "-" ++ name) before none]
      rfl

theorem Course.count_le
    {registry : Registry (Action W)} {steps : List Step} {world left : W}
    {count : Nat} {failure : Option StepError}
    (course : Course registry world steps count failure left) :
    count ≤ steps.length := by
  cases course with
  | passed pass => exact Nat.le_refl _
  | failed pass fails =>
      rw [List.length_append, List.length_cons]
      omega

theorem Course.take_eq_nil_iff
    {registry : Registry (Action W)} {steps : List Step} {world left : W}
    {count : Nat} {failure : Option StepError}
    (course : Course registry world steps count failure left) :
    steps.take count = [] ↔ steps = [] := by
  cases course with
  | passed pass => rw [List.take_length]
  | failed pass fails => simp

/-- Running a scenario comes to the result and the world of its course. -/
theorem Course.run_eq
    {registry : Registry (Action W)} {scenario : Scenario} {world left : W}
    {count : Nat} {failure : Option StepError}
    (course : Course registry world scenario.steps count failure left)
    (watch : Watch) (feature : String) :
    scenario.run registry watch feature world =
      (scenario.resultOf watch feature count failure, left) := by
  unfold Scenario.run
  rw [course.runAll]
  simp only [ScenarioResult.finish, statusOf_recordsOf, course.take_eq_nil_iff]
  rfl

/-- A course that ends in a failure stays the same when other steps stand behind it. -/
theorem Course.replace_later
    {registry : Registry (Action W)} {steps : List Step} {world left : W}
    {count : Nat} {error : StepError}
    (course : Course registry world steps count (some error) left) (later : List Step) :
    Course registry world (steps.take count ++ later) count (some error) left := by
  cases course with
  | @failed before after step between left error pass fails =>
      have taken : (before ++ step :: after).take (before.length + 1) = before ++ [step] :=
        List.take_length_add_append 1
      rw [taken, List.append_assoc]
      exact .failed pass fails

/-- A scenario runs up to the first step that fails, its result says just that, and what
stands behind such a step has no effect. -/
theorem Scenario.run_of_course
    (registry : Registry (Action W)) (watch : Watch) (feature : String)
    (scenario : Scenario) (world : W) :
    (∃ count failure left, Course registry world scenario.steps count failure left) ∧
      ∀ count failure left, Course registry world scenario.steps count failure left →
        scenario.run registry watch feature world =
            (scenario.resultOf watch feature count failure, left) ∧
          (failure.isSome → ∀ later : List Step,
            ({ scenario with steps := scenario.steps.take count ++ later } : Scenario).run
                registry watch feature world =
              scenario.run registry watch feature world) := by
  refine ⟨exists_course registry scenario.steps world, ?_⟩
  intro count failure left course
  refine ⟨course.run_eq watch feature, ?_⟩
  intro fails later
  obtain ⟨error, rfl⟩ := Option.isSome_iff_exists.mp fails
  let other : Scenario := { scenario with steps := scenario.steps.take count ++ later }
  have otherCourse : Course registry world other.steps count (some error) left :=
    course.replace_later later
  have sameSteps : other.steps.take count = scenario.steps.take count := by
    show (scenario.steps.take count ++ later).take count = scenario.steps.take count
    have full : (scenario.steps.take count).length = count := by
      rw [List.length_take, Nat.min_eq_left course.count_le]
    exact List.take_left' full
  have sameStart : other.steps = [] ↔ scenario.steps = [] := by
    rw [← otherCourse.take_eq_nil_iff, ← course.take_eq_nil_iff, sameSteps]
  rw [otherCourse.run_eq, course.run_eq]
  simp only [Scenario.resultOf, sameSteps, sameStart]
  rfl

end Gherkin

import Mathlib.Data.List.Nodup
import Gherkin.Report.Result

/-!
Contract: what a result says of the steps that were pushed onto it.

Owns: the error that a row of pushes leaves, the status it is finished with, and the ids
that are offered on the way.
Does not own: which steps a run pushes (`Gherkin.Proofs.Run.Course`).
Main statement: `finish_of_pushed`.

The error is kept as soon as one arrives and the status is only found at the end; both are
given by the steps alone.
-/

set_option autoImplicit false

namespace Gherkin

theorem Text.numeral_injective : Function.Injective Text.numeral := by
  intro first second same
  have sameDigits : Nat.toDigits 10 first = Nat.toDigits 10 second := by
    simpa [numeral] using congrArg String.toList same
  have sameNumber := congrArg (Nat.ofDigitChars 10 · 0) sameDigits
  simpa using sameNumber

/-! ## Failures -/

/-- The step failed and carries an error. -/
def StepResult.FailsWith (step : StepResult) (error : String) : Prop :=
  step.status = .failed ∧ step.error = some error

/-- The error of a step, if it failed. -/
def StepResult.failure? (step : StepResult) : Option String :=
  if step.status = .failed then step.error else none

/-- The error of the first failed step that carries one. -/
def IsFirstError (steps : List StepResult) (error : String) : Prop :=
  ∃ before step after, steps = before ++ step :: after ∧ step.FailsWith error ∧
    ∀ earlier ∈ before, ∀ other, ¬ earlier.FailsWith other

/-- Steps with one status, which have the same error if that is a failure. -/
structure SameFailure (step other : StepResult) : Prop where
  status : other.status = step.status
  error : step.status = .failed → other.error = step.error

namespace StepResult

theorem failure?_eq_some_iff {step : StepResult} {error : String} :
    step.failure? = some error ↔ step.FailsWith error := by
  rw [failure?, FailsWith]
  split <;> simp [*]

theorem failure?_eq_none_iff {step : StepResult} :
    step.failure? = none ↔ ∀ error, ¬ step.FailsWith error := by
  simp only [Option.eq_none_iff_forall_ne_some, ne_eq, failure?_eq_some_iff]

end StepResult

theorem SameFailure.failure?_eq {step other : StepResult} (same : SameFailure step other) :
    step.failure? = other.failure? := by
  rw [StepResult.failure?, StepResult.failure?, same.status]
  split
  · next failed => exact (same.error failed).symm
  · rfl

theorem findSome?_failure?_eq_some_iff {steps : List StepResult} {error : String} :
    steps.findSome? StepResult.failure? = some error ↔ IsFirstError steps error := by
  rw [List.findSome?_eq_some_iff]
  simp only [StepResult.failure?_eq_some_iff, StepResult.failure?_eq_none_iff]
  rfl

theorem findSome?_failure?_of_same
    {steps others : List StepResult} (same : List.Forall₂ SameFailure steps others) :
    steps.findSome? StepResult.failure? = others.findSome? StepResult.failure? := by
  induction same with
  | nil => rfl
  | cons first _ inductionHypothesis =>
      rw [List.findSome?_cons, List.findSome?_cons, first.failure?_eq, inductionHypothesis]

namespace ScenarioResult

/-! ## The status at the end -/

theorem statusOf_eq_failed_iff {steps : List StepResult} :
    statusOf steps = .failed ↔ ∃ step ∈ steps, step.status = .failed := by
  unfold statusOf
  split
  · next failed => simpa using failed
  · next noneFailed =>
      refine iff_of_false ?_ (by simpa using noneFailed)
      split <;> decide

theorem statusOf_eq_skipped_iff {steps : List StepResult} :
    statusOf steps = .skipped ↔ ∀ step ∈ steps, step.status = .skipped := by
  unfold statusOf
  split
  · next failed =>
      obtain ⟨step, member, isFailed⟩ : ∃ step ∈ steps, step.status = .failed := by
        simpa using failed
      refine iff_of_false (by decide) fun allSkipped => ?_
      cases isFailed.symm.trans (allSkipped step member)
  · split
    · next allSkipped => simpa using allSkipped
    · next notAll => exact iff_of_false (by decide) (by simpa using notAll)

theorem statusOf_eq_passed_iff {steps : List StepResult} :
    statusOf steps = .passed ↔
      ¬ (∃ step ∈ steps, step.status = .failed) ∧ ¬ ∀ step ∈ steps, step.status = .skipped := by
  rw [← statusOf_eq_failed_iff, ← statusOf_eq_skipped_iff]
  cases statusOf steps <;> decide

/-! ## Pushes -/

def pushAll (result : ScenarioResult) (steps : List StepResult) : ScenarioResult :=
  steps.foldl push result

/-- The ids that are offered for the next step, one before each push. -/
def offeredIds : ScenarioResult → List StepResult → List String
  | _, [] => []
  | result, step :: steps => result.nextId :: offeredIds (result.push step) steps

/-- A push keeps an error that is there, and takes that of a failed step otherwise. -/
theorem push_eq (result : ScenarioResult) (step : StepResult) :
    result.push step =
      { result with
        error := result.error.or step.failure?
        steps := result.steps ++ [step] } := by
  unfold push StepResult.failure?
  split
  · rfl
  · rw [Option.or_none]

theorem pushAll_eq (result : ScenarioResult) (steps : List StepResult) :
    result.pushAll steps =
      { result with
        error := result.error.or (steps.findSome? StepResult.failure?)
        steps := result.steps ++ steps } := by
  induction steps generalizing result with
  | nil => simp [pushAll]
  | cons step steps inductionHypothesis =>
      show (result.push step).pushAll steps = _
      rw [inductionHypothesis, push_eq, List.findSome?_cons]
      cases step.failure? <;> simp

/-- The finished result, as the steps alone give it. -/
theorem finish_pushAll
    (clock : Time) (feature scenario : String) (steps : List StepResult) (duration : UInt64) :
    ((start clock feature scenario).pushAll steps).finish duration =
      { start clock feature scenario with
        error := steps.findSome? StepResult.failure?
        steps
        status := statusOf steps
        duration } := by
  rw [pushAll_eq]
  rfl

/-- Before each push the id offered counts one further than the steps that are there. -/
theorem offeredIds_eq (result : ScenarioResult) (steps : List StepResult) :
    result.offeredIds steps =
      (List.range steps.length).map fun index =>
        result.id ++ "-" ++ Text.numeral (result.steps.length + index + 1) := by
  induction steps generalizing result with
  | nil => rfl
  | cons step steps inductionHypothesis =>
      rw [offeredIds, inductionHypothesis, List.length_cons, List.range_succ_eq_map,
        List.map_cons, List.map_map]
      congr 1
      apply List.map_congr_left
      intro index _
      have counted : (result.push step).steps.length = result.steps.length + 1 := by
        simp [push]
      have shifted : result.steps.length + 1 + index = result.steps.length + (index + 1) := by
        omega
      rw [counted, shifted]
      rfl

theorem nodup_offeredIds (result : ScenarioResult) (steps : List StepResult) :
    (result.offeredIds steps).Nodup := by
  rw [offeredIds_eq]
  apply List.nodup_range.map
  intro first second same
  have sameNumeral := (String.append_right_inj _).mp same
  have sameCount := Text.numeral_injective sameNumeral
  omega

/-- The finished result of any steps that were pushed: its status and its error are those of
the steps, which it keeps in order. Errors of steps that did not fail play no part. The ids
offered on the way count from one and are distinct. -/
theorem finish_of_pushed
    (clock : Time) (feature scenario : String) (steps : List StepResult) (duration : UInt64) :
    let opened := start clock feature scenario
    let result := (opened.pushAll steps).finish duration
    ((result.status = .failed ↔ ∃ step ∈ steps, step.status = .failed) ∧
      (result.status = .skipped ↔ ∀ step ∈ steps, step.status = .skipped) ∧
      (result.status = .passed ↔
        ¬ (∃ step ∈ steps, step.status = .failed) ∧
          ¬ ∀ step ∈ steps, step.status = .skipped)) ∧
    ((∀ error, result.error = some error ↔ IsFirstError steps error) ∧
      (result.error = none ↔ ∀ step ∈ steps, ∀ error, ¬ step.FailsWith error) ∧
      ∀ others, List.Forall₂ SameFailure steps others →
        ((opened.pushAll others).finish duration).error = result.error) ∧
    result.steps = steps ∧
    opened.offeredIds steps =
      (List.range steps.length).map
        (fun index => result.id ++ "-" ++ Text.numeral (index + 1)) ∧
    (opened.offeredIds steps).Nodup := by
  intro opened result
  have pushed := finish_pushAll clock feature scenario steps duration
  have status : result.status = statusOf steps := congrArg ScenarioResult.status pushed
  have firstError : result.error = steps.findSome? StepResult.failure? :=
    congrArg ScenarioResult.error pushed
  have kept : result.steps = steps := congrArg ScenarioResult.steps pushed
  have sameId : result.id = opened.id := (congrArg ScenarioResult.id pushed).trans rfl
  rw [status, firstError, sameId]
  refine ⟨⟨statusOf_eq_failed_iff, statusOf_eq_skipped_iff, statusOf_eq_passed_iff⟩,
    ⟨fun _ => findSome?_failure?_eq_some_iff, ?_, ?_⟩, kept, ?_, nodup_offeredIds opened steps⟩
  · rw [List.findSome?_eq_none_iff]
    simp only [StepResult.failure?_eq_none_iff]
  · intro others same
    rw [finish_pushAll clock feature scenario others duration]
    exact (findSome?_failure?_of_same same).symm
  · rw [offeredIds_eq]
    simp [opened, start]

end ScenarioResult

end Gherkin

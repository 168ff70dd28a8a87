import Gherkin.Proofs.Feature.Keywords

/-!
Contract: a step that goes on with a kind runs as the step that names this kind.

Owns: that the keyword of a step shows in a run through its kind only.
Does not own: which kind a keyword comes to (`Gherkin.Proofs.Feature.Keywords`) and what a
run sees of a step (`Gherkin.Proofs.Run.Chain`).
Main statement: `run_of_named_kinds`.
-/

set_option autoImplicit false

namespace Gherkin

open Document

/-- The stream in which a step names its kind, whatever keyword it was written with. -/
def namedAt (above : List Line) (line : Line) (keyword : Keyword) (below : List Line) :
    List Line :=
  above ++ line.withKeyword (.names (kindBelow above keyword)) :: below

theorem seen_namedAt
    {above : List Line} {line : Line} {keyword : Keyword} {text : String}
    (isStep : line.kind = .step keyword text) (below : List Line) :
    (Scenario.ofLines (namedAt above line keyword below)).map Scenario.seen =
      (Scenario.ofLines (above ++ line :: below)).map Scenario.seen := by
  unfold namedAt
  by_cases shows : (Zone.preamble.belowAll above).shows line.kind = true
  · obtain ⟨done, top, step, later, after, -, -, -, scenarios, named⟩ :=
      ofLines_named isStep shows below
    rw [scenarios, named, List.map_append, List.map_append]
    simp [Scenario.seen, Scenario.adding, Step.seen, Step.withKeyword]
  · rw [ofLines_hidden isStep (Bool.eq_false_iff.mpr shows)]

/-- Outside doc strings it shows in the text, but not in a run, that a step names its kind. -/
theorem seen_ofText_named
    {above below : List Line} {line : Line} {keyword : Keyword} {body : String}
    (isStep : line.kind = .step keyword body)
    (outside : Zone.preamble.belowAll above ≠ .docString) {raw text other : String}
    (isText : kinds (ofFeature text) = above ++ line :: below)
    (isOther : kinds (ofFeature other) =
      namedAt above { line with raw } keyword below) :
    (Scenario.ofText other).map Scenario.seen = (Scenario.ofText text).map Scenario.seen := by
  have sameRaw : Scenario.ofLines (above ++ { line with raw } :: below) =
      Scenario.ofLines (above ++ line :: below) := by
    apply ofLines_of_same_kind outside
    · rfl
    · rfl
  have isStepToo : ({ line with raw } : Line).kind = .step keyword body := isStep
  rw [ofText_eq_ofLines, ofText_eq_ofLines, isText, isOther, seen_namedAt isStepToo, sameRaw]

/-- A step is of the kind that its scenario names last, up to the step itself. So a step may
name its kind instead of going on with it: in what is read, only the keyword of that step
becomes another one, and in a run nothing does. -/
theorem run_of_named_kinds :
    (∀ (lines : List Line), ∀ scenario ∈ Scenario.ofLines lines,
      ∀ (index : Nat) (step : Step), scenario.steps[index]? = some step →
        step.kind = latestKind (scenario.steps.take (index + 1))) ∧
    ∀ (above below : List Line) (line : Line) (keyword : Keyword) (body : String),
      line.kind = .step keyword body →
      let lines := above ++ line :: below
      let named := namedAt above line keyword below
      let zone := Zone.preamble.belowAll above
      (if zone.shows line.kind then
        ∃ done top step later after,
          Scenario.ofLines above = done ++ [top] ∧
          step.mark = line.mark ∧ step.kind = kindBelow above keyword ∧
          Scenario.ofLines lines = done ++ top.adding (step :: later) :: after ∧
          Scenario.ofLines named =
            done ++ top.adding (step.withKeyword (.names step.kind) :: later) :: after
      else Scenario.ofLines named = Scenario.ofLines lines) ∧
      ∀ (W : Type),
        (∀ (registry : Registry (Action W)) (clock : Clock) (feature : String) (world : W),
          Scenario.runAll registry clock feature (Scenario.ofLines named) world =
            Scenario.runAll registry clock feature (Scenario.ofLines lines) world) ∧
        ∀ (text other raw : String), zone ≠ .docString → kinds (ofFeature text) = lines →
          kinds (ofFeature other) = namedAt above { line with raw } keyword below →
            ∀ (library : StepLibrary (Action W)) (clock : Clock)
              (before after : List (String × String)) (name : String) (world : W),
                library.run clock (before ++ (name, other) :: after) world =
                  library.run clock (before ++ (name, text) :: after) world := by
  refine ⟨fun lines scenario member index step => kind_eq_latestKind member, ?_⟩
  intro above below line keyword body isStep lines named zone
  refine ⟨?_, ?_⟩
  · by_cases shows : zone.shows line.kind = true
    · rw [if_pos shows]
      exact ofLines_named isStep shows below
    · rw [if_neg shows]
      exact ofLines_hidden isStep (Bool.eq_false_iff.mpr shows) _ below
  · intro W
    refine ⟨Scenario.runAll_of_seen (seen_namedAt isStep below), ?_⟩
    intro text other raw outside isText isOther
    exact StepLibrary.run_of_seen (seen_ofText_named isStep outside isText isOther)

/-- A doc string and a table stand between a step and the one that goes on with its kind;
the next scenario starts anew. -/
example :
    (Scenario.ofText
      "Scenario: a\nThen x\n\"\"\"\nWhen y\n\"\"\"\n| 1 |\nAnd z\nScenario: b\nBut w").map
        (fun scenario => scenario.steps.map Step.kind) =
      [[.outcome, .outcome], [.context]] := by
  decide +kernel

end Gherkin

import Gherkin.Proofs.Feature.Layout
import Gherkin.Proofs.Feature.Zone

/-!
Contract: the kind of a step comes from the latest keyword that names one.

Owns: the kinds that keywords name, the kind that a step gets below some lines, and what
of the scenarios depends on the keyword of a single step.
Does not own: which steps show (`Gherkin.Proofs.Feature.Zone`) and what a run sees of
them (`Gherkin.Proofs.Run.Keywords`).
Main statements: `kind_eq_latestKind` and `ofLines_named`.
-/

set_option autoImplicit false

namespace Gherkin

open Grammar

/-! ## Named kinds -/

def Keyword.named? : Keyword → Option StepKind
  | .names kind => some kind
  | .and | .but => none

theorem Keyword.resolve_eq (keyword : Keyword) (previous : Option StepKind) :
    keyword.resolve previous = (keyword.named?.or previous).getD .context := by
  cases keyword <;> rfl

/-- The kinds that the keywords of some steps name, in order. -/
def namedKinds (steps : List Step) : List StepKind :=
  steps.filterMap fun step => step.keyword.named?

/-- The kind that is named last; where no keyword names one, the steps are contexts. -/
def latestKind (steps : List Step) : StepKind :=
  (namedKinds steps).getLast?.getD .context

theorem namedKinds_cons (step : Step) (steps : List Step) :
    namedKinds (step :: steps) = step.keyword.named?.toList ++ namedKinds steps := by
  unfold namedKinds
  cases named : step.keyword.named? <;> simp [named]

/-- Steps whose kinds follow each other go on with the kind named last. -/
theorem KindsFollow.kind_eq
    {previous : Option StepKind} {steps : List Step} (follow : KindsFollow previous steps)
    {index : Nat} {step : Step} (isStep : steps[index]? = some step) :
    step.kind =
      ((namedKinds (steps.take (index + 1))).getLast?.or previous).getD .context := by
  induction steps generalizing previous index with
  | nil => simp at isStep
  | cons first steps inductionHypothesis =>
      obtain ⟨ofFirst, later⟩ := follow
      rw [Keyword.resolve_eq] at ofFirst
      rw [List.take_succ_cons, namedKinds_cons, List.getLast?_append]
      cases index with
      | zero =>
          obtain rfl := Option.some.inj isStep
          rw [ofFirst]
          cases first.keyword.named? <;> rfl
      | succ index =>
          have further := inductionHypothesis later isStep
          rw [further, ofFirst]
          cases (namedKinds (steps.take (index + 1))).getLast? with
          | some kind => rfl
          | none => cases first.keyword.named? <;> cases previous <;> rfl

theorem kindsFollow_of_mem_ofLines {lines : List Line} {scenario : Scenario}
    (member : scenario ∈ Scenario.ofLines lines) : KindsFollow none scenario.steps := by
  obtain ⟨blocks, reads⟩ := exists_reads lines
  rw [reads.ofLines_eq] at member
  obtain ⟨block, -, rfl⟩ := List.mem_map.mp member
  exact kindsFollow_stepsAfter none block.steps

/-- A step is of the kind that is named last in its scenario, up to the step itself. -/
theorem kind_eq_latestKind
    {lines : List Line} {scenario : Scenario} (member : scenario ∈ Scenario.ofLines lines)
    {index : Nat} {step : Step} (isStep : scenario.steps[index]? = some step) :
    step.kind = latestKind (scenario.steps.take (index + 1)) := by
  rw [(kindsFollow_of_mem_ofLines member).kind_eq isStep, Option.or_none]
  rfl

/-! ## Steps with another keyword -/

def LineKind.withKeyword (keyword : Keyword) : LineKind → LineKind
  | .step _ text => .step keyword text
  | kind => kind

def Line.withKeyword (line : Line) (keyword : Keyword) : Line :=
  { line with kind := line.kind.withKeyword keyword }

def Step.withKeyword (step : Step) (keyword : Keyword) : Step :=
  { step with keyword }

/-- The kind that a step with this keyword is of, if it stands below some lines. -/
def kindBelow (above : List Line) (keyword : Keyword) : StepKind :=
  keyword.resolve ((Scenario.ofLines above).getLast?.bind Scenario.lastKind?)

/-- Where a step shows, the reader is outside doc strings and in a scenario. -/
theorem exists_scenario_above
    {above : List Line} {keyword : Keyword} {text : String}
    (shows : (Zone.preamble.belowAll above).shows (.step keyword text) = true) :
    ∃ (place : Reader.Place) (mode : Reader.Mode), mode ≠ .docString ∧
      Reader.readAll {} above =
        Reader.within place.doneRev ⟨place.name, place.line, place.stepsRev⟩ mode := by
  have stands := Reader.standsIn_start.readAll above
  have idle : (Reader.readAll {} above).Idle := Reader.idle_readAll (fun _ => rfl) above
  generalize Zone.preamble.belowAll above = zone at shows stands
  generalize Reader.readAll {} above = reader at idle stands
  cases stands with
  | preamble | docString => exact absurd shows Bool.false_ne_true
  | @scenario doneRev name line mode docLinesRev outside =>
      obtain rfl : docLinesRev = [] := idle outside
      exact ⟨⟨doneRev, name, line, []⟩, mode, outside, rfl⟩
  | @step doneRev name line newest stepsRev mode docLinesRev outside =>
      obtain rfl : docLinesRev = [] := idle outside
      exact ⟨⟨doneRev, name, line, newest :: stepsRev⟩, mode, outside, rfl⟩

/-- The scenarios depend on the keyword of a step only in that they keep it, and in the
kind that it gives. -/
theorem ofLines_step
    {above : List Line} {keyword : Keyword} {text : String}
    (shows : (Zone.preamble.belowAll above).shows (.step keyword text) = true)
    (kind : StepKind) (below : List Line) :
    ∃ done top docString dataTable later after,
      Scenario.ofLines above = done ++ [top] ∧
      ∀ (line : Line) (keyword : Keyword), line.kind = .step keyword text →
        kindBelow above keyword = kind →
          Scenario.ofLines (above ++ line :: below) =
            done ++ top.adding
              ({ kind, keyword, text, line := line.number, docString, dataTable } :: later) ::
                after := by
  obtain ⟨place, mode, outside, reached⟩ := exists_scenario_above shows
  obtain ⟨items, rest, later, after, holds, scenarios⟩ := place.exists_scenarios kind below
  have isAbove : Scenario.ofLines above = place.doneRev.reverse ++ [place.above] := by
    rw [Scenario.ofLines, reached]
    simp [Reader.scenarios, Reader.within, Reader.Draft.scenario, Reader.Place.above]
  refine ⟨_, _, (items.filterMap Item.docString?).getLast?,
    (items.filterMap Item.table?).getLast?, later, after, isAbove, ?_⟩
  intro line keyword isStep sameKind
  let added : Step := { kind, keyword, text, line := line.number }
  have resolved : keyword.resolve (place.stepsRev.head?.map Step.kind) = kind := by
    rw [← sameKind, kindBelow, isAbove]
    simp [Scenario.lastKind?, Reader.Place.above]
  have adds : (Reader.readAll {} above).read line = place.at added .neutral := by
    rw [reached]
    cases mode with
    | docString => exact absurd rfl outside
    | neutral | dataTable =>
        simp [Reader.within, Reader.read, Reader.readPlain, isStep, LineKind.isRow,
          Reader.addStep, Reader.Place.at, added, resolved]
  rw [Scenario.ofLines, Reader.readAll_append, Reader.readAll_cons, adds, scenarios added rfl,
    foldl_fill]
  simp [added]

/-- Where a step names the kind that it goes on with, nothing else of the scenarios
changes. -/
theorem ofLines_named
    {above : List Line} {line : Line} {keyword : Keyword} {text : String}
    (isStep : line.kind = .step keyword text)
    (shows : (Zone.preamble.belowAll above).shows line.kind = true) (below : List Line) :
    ∃ done top step later after,
      Scenario.ofLines above = done ++ [top] ∧
      step.mark = line.mark ∧ step.kind = kindBelow above keyword ∧
      Scenario.ofLines (above ++ line :: below) = done ++ top.adding (step :: later) :: after ∧
      Scenario.ofLines (above ++ line.withKeyword (.names (kindBelow above keyword)) :: below) =
        done ++ top.adding (step.withKeyword (.names step.kind) :: later) :: after := by
  rw [isStep] at shows
  obtain ⟨done, top, docString, dataTable, later, after, isAbove, scenarios⟩ :=
    ofLines_step shows (kindBelow above keyword) below
  let kind := kindBelow above keyword
  have isNamed : (line.withKeyword (.names kind)).kind = .step (.names kind) text := by
    show line.kind.withKeyword _ = _
    rw [isStep]
    rfl
  refine ⟨done, top, _, later, after, isAbove, ?_, ?_, scenarios line keyword isStep rfl,
    scenarios _ _ isNamed rfl⟩
  · rw [Line.mark, isStep]
    rfl
  · rfl

/-- Where a step does not show, its keyword does not show either: it is dropped above the
first header, and content as it was written in a doc string. -/
theorem ofLines_hidden
    {above : List Line} {line : Line} {keyword : Keyword} {text : String}
    (isStep : line.kind = .step keyword text)
    (hidden : (Zone.preamble.belowAll above).shows line.kind = false)
    (other : Keyword) (below : List Line) :
    Scenario.ofLines (above ++ line.withKeyword other :: below) =
      Scenario.ofLines (above ++ line :: below) := by
  obtain ⟨_, raw, number⟩ := line
  subst isStep
  have stands := Reader.standsIn_start.readAll above
  rw [Scenario.ofLines, Scenario.ofLines, Reader.readAll_append, Reader.readAll_append,
    Reader.readAll_cons, Reader.readAll_cons]
  generalize Zone.preamble.belowAll above = zone at hidden stands
  generalize Reader.readAll {} above = reader at stands ⊢
  have sameState : reader.read (Line.withKeyword ⟨.step keyword text, raw, number⟩ other) =
      reader.read ⟨.step keyword text, raw, number⟩ := by
    cases stands with
    | scenario | step => exact absurd hidden.symm Bool.false_ne_true
    | docString => rfl
    | @preamble doneRev mode docLinesRev outside => cases mode <;> rfl
  rw [sameState]

/-- Outside doc strings nothing shows of a line but its kind and its number. -/
theorem ofLines_of_same_kind
    {above : List Line} (outside : Zone.preamble.belowAll above ≠ .docString)
    {line other : Line} (kind : line.kind = other.kind) (number : line.number = other.number)
    (below : List Line) :
    Scenario.ofLines (above ++ line :: below) = Scenario.ofLines (above ++ other :: below) := by
  have stands := Reader.standsIn_start.readAll above
  have noDocString := mt stands.mode_eq_docString_iff.mp outside
  unfold Scenario.ofLines
  rw [Reader.readAll_append, Reader.readAll_append, Reader.readAll_cons, Reader.readAll_cons,
    Reader.read_of_same_kind kind number (.inl noDocString)]

end Gherkin

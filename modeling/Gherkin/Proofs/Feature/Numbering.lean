import Gherkin.Feature.Reader

/-!
Contract: the numbers of lines play no part in reading.

Owns: other numbers for lines, steps, scenarios and the state of the reader, and that
each operation of the reader passes the numbers on as they are.
Does not own: where the numbers come from (`Gherkin.Feature.Document`).
Main statements: `ofLines_renumber` and `numbers_of_mem_ofLines`.
-/

set_option autoImplicit false

namespace Gherkin

/-! ## Other numbers -/

def Line.renumber (number : UInt32 → UInt32) (line : Line) : Line :=
  { line with number := number line.number }

def Step.renumber (number : UInt32 → UInt32) (step : Step) : Step :=
  { step with line := number step.line }

def Scenario.renumber (number : UInt32 → UInt32) (scenario : Scenario) : Scenario :=
  { scenario with
    line := number scenario.line
    steps := scenario.steps.map (Step.renumber number) }

theorem Scenario.renumber_id : Scenario.renumber id = id := by
  funext scenario
  obtain ⟨name, line, steps⟩ := scenario
  show Scenario.mk name line (steps.map id) = Scenario.mk name line steps
  rw [List.map_id]

def Reader.Draft.renumber (number : UInt32 → UInt32) (draft : Reader.Draft) : Reader.Draft :=
  { draft with
    line := number draft.line
    stepsRev := draft.stepsRev.map (Step.renumber number) }

def Reader.renumber (number : UInt32 → UInt32) (reader : Reader) : Reader :=
  { reader with
    doneRev := reader.doneRev.map (Scenario.renumber number)
    draft := reader.draft.map (Reader.Draft.renumber number) }

/-! ## Operations of the reader -/

namespace Reader

variable (number : UInt32 → UInt32)

theorem Draft.scenario_renumber (draft : Draft) :
    (draft.renumber number).scenario = draft.scenario.renumber number := by
  unfold Draft.scenario Scenario.renumber
  rw [List.map_reverse]
  rfl

theorem map_scenario_renumber (draft : Option Draft) :
    ((draft.map (Draft.renumber number)).map Draft.scenario).toList =
      (draft.map Draft.scenario).toList.map (Scenario.renumber number) := by
  cases draft with
  | none => rfl
  | some draft =>
      show [(draft.renumber number).scenario] = [draft.scenario.renumber number]
      rw [Draft.scenario_renumber]

theorem openScenario_renumber (reader : Reader) (name : String) (line : UInt32) :
    (reader.renumber number).openScenario name (number line) =
      (reader.openScenario name line).renumber number := by
  unfold openScenario renumber
  simp only [map_scenario_renumber, List.map_append]
  rfl

theorem addStep_renumber
    (reader : Reader) (keyword : Keyword) (text : String) (line : UInt32) :
    (reader.renumber number).addStep keyword text (number line) =
      (reader.addStep keyword text line).renumber number := by
  obtain ⟨doneRev, draft, mode, docLinesRev⟩ := reader
  cases draft with
  | none => rfl
  | some draft =>
      obtain ⟨name, line, stepsRev⟩ := draft
      cases stepsRev with
      | nil => rfl
      | cons step stepsRev => rfl

theorem openDocString_renumber (reader : Reader) :
    (reader.renumber number).openDocString = reader.openDocString.renumber number := by
  obtain ⟨doneRev, draft, mode, docLinesRev⟩ := reader
  rcases draft with _ | ⟨name, line, _ | ⟨step, stepsRev⟩⟩ <;> rfl

theorem closeDocString_renumber (reader : Reader) :
    (reader.renumber number).closeDocString = reader.closeDocString.renumber number := by
  obtain ⟨doneRev, draft, mode, docLinesRev⟩ := reader
  rcases draft with _ | ⟨name, line, _ | ⟨step, stepsRev⟩⟩ <;> rfl

theorem addRow_renumber (reader : Reader) (cells : List String) :
    (reader.renumber number).addRow cells = (reader.addRow cells).renumber number := by
  obtain ⟨doneRev, draft, mode, docLinesRev⟩ := reader
  rcases draft with _ | ⟨name, line, _ | ⟨step, stepsRev⟩⟩ <;> rfl

/-! ## Reading -/

/-- The state in which a line of this kind is read outside doc strings. -/
def settled (reader : Reader) (kind : LineKind) : Reader :=
  if reader.mode = .dataTable ∧ kind.isRow = false then { reader with mode := .neutral }
  else reader

theorem settled_renumber (reader : Reader) (kind : LineKind) :
    (reader.renumber number).settled kind = (reader.settled kind).renumber number := by
  show (if reader.mode = .dataTable ∧ kind.isRow = false then _ else _) =
    renumber number (if reader.mode = .dataTable ∧ kind.isRow = false then _ else _)
  split <;> rfl

theorem readPlain_renumber (reader : Reader) (line : Line) :
    (reader.renumber number).readPlain (line.renumber number) =
      (reader.readPlain line).renumber number := by
  obtain ⟨kind, raw, position⟩ := line
  have settles := settled_renumber number reader kind
  cases kind with
  | header name =>
      show ((reader.renumber number).settled (.header name)).openScenario name
        (number position) = _
      rw [settles]
      exact openScenario_renumber number _ name position
  | step keyword text =>
      show ((reader.renumber number).settled (.step keyword text)).addStep keyword text
        (number position) = _
      rw [settles]
      exact addStep_renumber number _ keyword text position
  | fence =>
      show ((reader.renumber number).settled .fence).openDocString = _
      rw [settles]
      exact openDocString_renumber number _
  | row cells =>
      show ((reader.renumber number).settled (.row cells)).addRow cells = _
      rw [settles]
      exact addRow_renumber number _ cells
  | other => exact settles

theorem read_renumber (reader : Reader) (line : Line) :
    (reader.renumber number).read (line.renumber number) =
      (reader.read line).renumber number := by
  show (if reader.mode = .docString then _ else _) = _
  unfold read
  by_cases inside : reader.mode = .docString
  · rw [if_pos inside, if_pos inside]
    by_cases fence : line.kind = .fence
    · rw [if_pos fence]
      show (if line.kind = .fence then _ else _) = _
      rw [if_pos fence]
      exact closeDocString_renumber number reader
    · rw [if_neg fence]
      show (if line.kind = .fence then _ else _) = _
      rw [if_neg fence]
      rfl
  · rw [if_neg inside, if_neg inside]
    exact readPlain_renumber number reader line

theorem readAll_renumber (reader : Reader) (lines : List Line) :
    (reader.renumber number).readAll (lines.map (Line.renumber number)) =
      (reader.readAll lines).renumber number := by
  induction lines generalizing reader with
  | nil => rfl
  | cons line lines inductionHypothesis =>
      rw [List.map_cons, readAll_cons, readAll_cons, read_renumber]
      exact inductionHypothesis (reader.read line)

theorem scenarios_renumber (reader : Reader) :
    (reader.renumber number).scenarios = reader.scenarios.map (Scenario.renumber number) := by
  unfold scenarios
  rw [List.map_reverse, List.map_append, ← map_scenario_renumber]
  rfl

end Reader

/-- Lines with other numbers give the same scenarios with other numbers. -/
theorem Scenario.ofLines_renumber (number : UInt32 → UInt32) (lines : List Line) :
    Scenario.ofLines (lines.map (Line.renumber number)) =
      (Scenario.ofLines lines).map (Scenario.renumber number) := by
  have fromStart := Reader.readAll_renumber number {} lines
  unfold Scenario.ofLines
  rw [← Reader.scenarios_renumber, ← fromStart]
  rfl

/-! ## Numbers of what is read -/

theorem eq_self_of_map_eq_self {α : Type} {f : α → α} {items : List α}
    (same : items.map f = items) : ∀ item ∈ items, f item = item := by
  apply List.map_inj_left.mp
  rw [same, List.map_id']

/-- A scenario and its steps have numbers of lines that were read. -/
theorem Scenario.numbers_of_mem_ofLines
    {lines : List Line} {scenario : Scenario} (member : scenario ∈ ofLines lines) :
    scenario.line ∈ lines.map Line.number ∧
      ∀ step ∈ scenario.steps, step.line ∈ lines.map Line.number := by
  -- Changing all other numbers changes no line, and so nothing of what is read.
  let number : UInt32 → UInt32 := fun n => if n ∈ lines.map Line.number then n else n + 1
  have stays : ∀ n, number n = n → n ∈ lines.map Line.number := by
    intro n same
    by_cases isNumber : n ∈ lines.map Line.number
    · exact isNumber
    · have moved : number n = n + 1 := if_neg isNumber
      rw [same] at moved
      simp at moved
  have sameLines : lines.map (Line.renumber number) = lines := by
    have each : ∀ line ∈ lines, line.renumber number = line := by
      intro line isLine
      have kept : number line.number = line.number := if_pos (List.mem_map_of_mem isLine)
      unfold Line.renumber
      rw [kept]
    rw [List.map_congr_left each, List.map_id']
  have same := ofLines_renumber number lines
  rw [sameLines] at same
  have sameScenario := eq_self_of_map_eq_self same.symm scenario member
  refine ⟨stays _ (congrArg Scenario.line sameScenario), ?_⟩
  intro step isStep
  have sameStep := eq_self_of_map_eq_self (congrArg Scenario.steps sameScenario) step isStep
  exact stays _ (congrArg Step.line sameStep)

end Gherkin

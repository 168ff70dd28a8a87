import Gherkin.Feature.Reader

/-!
Contract: the blocks that a stream of lines consists of, and that reading finds them.

Owns: the grammar of scenario blocks, step blocks and what these hold, the scenario that
a block stands for, and the agreement of `Scenario.ofLines` with both.
Does not own: the state between two lines (`Gherkin.Feature.Reader`).
Main statement: `ofLines_of_reads`.

The grammar never looks at a mode. A fence opens a doc string where it stands in a step
block; anywhere else it is a line among those that are dropped.
-/

set_option autoImplicit false

namespace Gherkin

def LineKind.isHeader : LineKind → Bool
  | .header _ => true
  | _ => false

def LineKind.isStep : LineKind → Bool
  | .step _ _ => true
  | _ => false

namespace Grammar

/-! ## Blocks -/

/-- What stands in a step block behind the step. -/
inductive Item where
  /-- Rows directly behind each other. -/
  | table (rows : List (List String))
  /-- The lines between two fences, as they were written. -/
  | docString (content : List String)
  /-- All lines behind a fence that no other fence follows. -/
  | openDocString
  | other
deriving DecidableEq, Repr

structure StepBlock where
  keyword : Keyword
  text : String
  line : UInt32
  items : List Item
deriving DecidableEq, Repr

structure ScenarioBlock where
  name : String
  line : UInt32
  steps : List StepBlock
deriving DecidableEq, Repr

/-- Items up to the rest of the stream, which starts with a step or a header. Rows are
gathered as far as they follow each other; what stands between two fences is content,
whatever its kind. -/
inductive Items : List Line → List Item → List Line → Prop where
  | done {rest : List Line}
      (ends : ∀ line ∈ rest.head?, line.kind.isStep = true ∨ line.kind.isHeader = true) :
      Items rest [] rest
  | table {rowLines lines rest : List Line} {rows : List (List String)} {items : List Item}
      (kinds : rowLines.map Line.kind = rows.map .row) (nonempty : rows ≠ [])
      (maximal : ∀ line ∈ lines.head?, line.kind.isRow = false)
      (later : Items lines items rest) :
      Items (rowLines ++ lines) (.table rows :: items) rest
  | docString {opening closing : Line} {content lines rest : List Line} {items : List Item}
      (opens : opening.kind = .fence) (inside : ∀ line ∈ content, line.kind ≠ .fence)
      (closes : closing.kind = .fence) (later : Items lines items rest) :
      Items (opening :: (content ++ closing :: lines))
        (.docString (content.map Line.raw) :: items) rest
  | openDocString {opening : Line} {content : List Line}
      (opens : opening.kind = .fence) (inside : ∀ line ∈ content, line.kind ≠ .fence) :
      Items (opening :: content) [.openDocString] []
  | other {line : Line} {lines rest : List Line} {items : List Item}
      (kind : line.kind = .other) (later : Items lines items rest) :
      Items (line :: lines) (.other :: items) rest

/-- Step blocks up to the rest of the stream, which starts with a header. -/
inductive StepBlocks : List Line → List StepBlock → List Line → Prop where
  | done {rest : List Line} (ends : ∀ line ∈ rest.head?, line.kind.isHeader = true) :
      StepBlocks rest [] rest
  | step {line : Line} {keyword : Keyword} {text : String} {lines between rest : List Line}
      {items : List Item} {steps : List StepBlock}
      (kind : line.kind = .step keyword text) (holds : Items lines items between)
      (later : StepBlocks between steps rest) :
      StepBlocks (line :: lines) (⟨keyword, text, line.number, items⟩ :: steps) rest

/-- Scenario blocks up to the end of the stream. What stands between a header and the
first step is dropped. -/
inductive ScenarioBlocks : List Line → List ScenarioBlock → Prop where
  | done : ScenarioBlocks [] []
  | header {line : Line} {name : String} {dropped lines rest : List Line}
      {steps : List StepBlock} {blocks : List ScenarioBlock}
      (kind : line.kind = .header name)
      (stepless : ∀ other ∈ dropped, other.kind.isHeader = false ∧ other.kind.isStep = false)
      (holds : StepBlocks lines steps rest) (later : ScenarioBlocks rest blocks) :
      ScenarioBlocks (line :: (dropped ++ lines)) (⟨name, line.number, steps⟩ :: blocks)

/-- The blocks of a whole stream. What stands before the first header is dropped. -/
inductive Reads : List Line → List ScenarioBlock → Prop where
  | intro {dropped lines : List Line} {blocks : List ScenarioBlock}
      (headerless : ∀ line ∈ dropped, line.kind.isHeader = false)
      (holds : ScenarioBlocks lines blocks) : Reads (dropped ++ lines) blocks

/-! ## What a block stands for -/

def Item.docString? : Item → Option String
  | .docString content => some (Text.join "\n" content)
  | .openDocString => some ""
  | _ => none

def Item.table? : Item → Option DataTable
  | .table rows => some ⟨rows⟩
  | _ => none

/-- The last doc string and the last table of a block count. -/
def StepBlock.step (block : StepBlock) (kind : StepKind) : Step where
  kind
  keyword := block.keyword
  text := block.text
  line := block.line
  docString := (block.items.filterMap Item.docString?).getLast?
  dataTable := (block.items.filterMap Item.table?).getLast?

/-- The steps of some blocks behind a step of the kind `previous`. -/
def stepsAfter (previous : Option StepKind) : List StepBlock → List Step
  | [] => []
  | block :: blocks =>
      let kind := block.keyword.resolve previous
      block.step kind :: stepsAfter (some kind) blocks

def ScenarioBlock.scenario (block : ScenarioBlock) : Scenario :=
  ⟨block.name, block.line, stepsAfter none block.steps⟩

end Grammar

/-! ## How the reader moves -/

namespace Reader

/-- The state inside a scenario between two lines, with no doc string collected. -/
def within (doneRev : List Scenario) (draft : Draft) (mode : Mode) : Reader :=
  { doneRev, draft := some draft, mode }

/-- A table ends at the first line that is no row, whether the reader takes note before
that line or at it. -/
theorem scenarios_of_settled
    (reader : Reader) {lines : List Line}
    (noRow : ∀ line ∈ lines.head?, line.kind.isRow = false) :
    (({ reader with mode := .dataTable } : Reader).readAll lines).scenarios =
      (({ reader with mode := .neutral } : Reader).readAll lines).scenarios := by
  cases lines with
  | nil => rfl
  | cons line lines =>
      have notRow : line.kind.isRow = false := noRow line rfl
      have settles : ({ reader with mode := .dataTable } : Reader).read line =
          ({ reader with mode := .neutral } : Reader).read line := by
        simp [read, readPlain, notRow]
      rw [readAll_cons, readAll_cons, settles]

theorem scenarios_of_dataTable
    (doneRev : List Scenario) (draft : Draft) {lines : List Line}
    (noRow : ∀ line ∈ lines.head?, line.kind.isRow = false) :
    ((within doneRev draft .dataTable).readAll lines).scenarios =
      ((within doneRev draft .neutral).readAll lines).scenarios :=
  scenarios_of_settled (within doneRev draft .neutral) noRow

theorem readAll_content
    (reader : Reader) (inside : reader.mode = .docString) {content : List Line}
    (noFence : ∀ line ∈ content, line.kind ≠ .fence) :
    reader.readAll content =
      { reader with docLinesRev := (content.map Line.raw).reverse ++ reader.docLinesRev } := by
  induction content generalizing reader with
  | nil => rfl
  | cons line content inductionHypothesis =>
      have notFence : line.kind ≠ .fence := noFence line List.mem_cons_self
      have collects : reader.read line =
          { reader with docLinesRev := line.raw :: reader.docLinesRev } := by
        simp [read, inside, notFence]
      rw [readAll_cons, collects]
      rw [inductionHypothesis { reader with docLinesRev := line.raw :: reader.docLinesRev } inside
        fun other member => noFence other (List.mem_cons_of_mem line member)]
      simp

/-- What surrounds the newest step: the scenarios that are finished, the header, and the
steps before it. -/
structure Place where
  doneRev : List Scenario
  name : String
  line : UInt32
  stepsRev : List Step

/-- The state with a newest step in its place. -/
def Place.at (place : Place) (step : Step) (mode : Mode) : Reader :=
  within place.doneRev ⟨place.name, place.line, step :: place.stepsRev⟩ mode

namespace Place

theorem read_row
    (place : Place) (step : Step) {line : Line} {row : List String}
    (kind : line.kind = .row row) :
    (place.at step .neutral).read line =
      place.at { step with dataTable := some ⟨[row]⟩ } .dataTable := by
  simp [Place.at, within, Reader.read, readPlain, kind, LineKind.isRow, addRow, currentStep?,
    replaceStep, DataTable.push, DataTable.empty]

theorem read_further_row
    (place : Place) (step : Step) {line : Line} {row : List String}
    (kind : line.kind = .row row) (above : List (List String)) :
    (place.at { step with dataTable := some ⟨above⟩ } .dataTable).read line =
      place.at { step with dataTable := some ⟨above ++ [row]⟩ } .dataTable := by
  simp [Place.at, within, Reader.read, readPlain, kind, LineKind.isRow, addRow, currentStep?,
    replaceStep, DataTable.push]

theorem read_opening
    (place : Place) (step : Step) {line : Line} (kind : line.kind = .fence) :
    (place.at step .neutral).read line =
      place.at { step with docString := some "" } .docString := by
  simp [Place.at, within, Reader.read, readPlain, kind, LineKind.isRow, openDocString,
    currentStep?, replaceStep]

theorem read_closing
    (place : Place) (step : Step) {line : Line} (kind : line.kind = .fence)
    (docLinesRev : List String) :
    ({ place.at { step with docString := some "" } .docString with docLinesRev } : Reader).read
        line =
      place.at { step with docString := some (Text.join "\n" docLinesRev.reverse) } .neutral := by
  simp [Place.at, within, Reader.read, kind, closeDocString, currentStep?, replaceStep]

theorem read_other
    (place : Place) (step : Step) {line : Line} (kind : line.kind = .other) :
    (place.at step .neutral).read line = place.at step .neutral := by
  simp [Place.at, within, Reader.read, readPlain, kind, LineKind.isRow]

theorem readAll_further_rows
    (place : Place) (step : Step) {rowLines : List Line} {rows : List (List String)}
    (kinds : rowLines.map Line.kind = rows.map .row) (above : List (List String)) :
    (place.at { step with dataTable := some ⟨above⟩ } .dataTable).readAll rowLines =
      place.at { step with dataTable := some ⟨above ++ rows⟩ } .dataTable := by
  induction rows generalizing rowLines above with
  | nil =>
      have noLines : rowLines = [] := List.map_eq_nil_iff.mp kinds
      simp [noLines]
  | cons row rows inductionHypothesis =>
      obtain ⟨line, others, rfl, kind, laterKinds⟩ := List.map_eq_cons_iff.mp kinds
      rw [readAll_cons, read_further_row place step kind above,
        inductionHypothesis laterKinds (above ++ [row])]
      simp

/-- Rows that follow each other make up a table of their own. -/
theorem readAll_table
    (place : Place) (step : Step) {rowLines : List Line} {rows : List (List String)}
    (kinds : rowLines.map Line.kind = rows.map .row) (nonempty : rows ≠ []) :
    (place.at step .neutral).readAll rowLines =
      place.at { step with dataTable := some ⟨rows⟩ } .dataTable := by
  obtain ⟨row, later, rfl⟩ := List.exists_cons_of_ne_nil nonempty
  obtain ⟨line, others, rfl, kind, laterKinds⟩ := List.map_eq_cons_iff.mp kinds
  rw [readAll_cons, read_row place step kind,
    readAll_further_rows place step laterKinds [row]]
  rfl

theorem readAll_docString
    (place : Place) (step : Step) {opening closing : Line} {content : List Line}
    (opens : opening.kind = .fence) (inside : ∀ line ∈ content, line.kind ≠ .fence)
    (closes : closing.kind = .fence) (lines : List Line) :
    (place.at step .neutral).readAll (opening :: (content ++ closing :: lines)) =
      (place.at { step with docString := some (Text.join "\n" (content.map Line.raw)) }
        .neutral).readAll lines := by
  rw [readAll_cons, read_opening place step opens, readAll_append,
    readAll_content _ rfl inside, readAll_cons, read_closing place step closes]
  simp [Place.at, within]

end Place

end Reader

namespace Grammar

def Item.fill (step : Step) (item : Item) : Step :=
  { step with
    docString := item.docString?.or step.docString
    dataTable := item.table?.or step.dataTable }

/-- Of several doc strings the last one stays, and so with tables. -/
theorem foldl_fill (items : List Item) (step : Step) :
    items.foldl Item.fill step =
      { step with
        docString := (items.filterMap Item.docString?).getLast?.or step.docString
        dataTable := (items.filterMap Item.table?).getLast?.or step.dataTable } := by
  induction items generalizing step with
  | nil => rfl
  | cons item items inductionHypothesis =>
      rw [List.foldl_cons, inductionHypothesis]
      cases item <;> simp [Item.fill, Item.docString?, Item.table?, List.getLast?_cons]

/-- Reading the items of a step block fills the newest step and changes nothing else. -/
theorem Items.readAll_scenarios
    {lines rest : List Line} {items : List Item} (holds : Items lines items rest)
    (place : Reader.Place) (step : Step) :
    ((place.at step .neutral).readAll lines).scenarios =
      ((place.at (items.foldl Item.fill step) .neutral).readAll rest).scenarios := by
  induction holds generalizing step with
  | done ends => rfl
  | table kinds nonempty maximal later inductionHypothesis =>
      -- The reader is left in the mode of tables, which the line behind the rows ends.
      rw [Reader.readAll_append, place.readAll_table step kinds nonempty]
      rw [Reader.Place.at, Reader.scenarios_of_dataTable _ _ maximal]
      exact inductionHypothesis _
  | docString opens inside closes later inductionHypothesis =>
      rw [place.readAll_docString step opens inside closes]
      exact inductionHypothesis _
  | openDocString opens inside =>
      rw [Reader.readAll_cons, place.read_opening step opens, Reader.readAll_content _ rfl inside]
      rfl
  | other kind later inductionHypothesis =>
      rw [Reader.readAll_cons, place.read_other step kind]
      exact inductionHypothesis _

theorem StepBlocks.readAll_scenarios
    {lines rest : List Line} {steps : List StepBlock} (holds : StepBlocks lines steps rest)
    (doneRev : List Scenario) (name : String) (number : UInt32) (stepsRev : List Step) :
    ((Reader.within doneRev ⟨name, number, stepsRev⟩ .neutral).readAll lines).scenarios =
      ((Reader.within doneRev ⟨name, number,
        (stepsAfter (stepsRev.head?.map Step.kind) steps).reverse ++ stepsRev⟩ .neutral).readAll
          rest).scenarios := by
  induction holds generalizing stepsRev with
  | done ends => rfl
  | @step line keyword text lines between rest items steps kind holds later
      inductionHypothesis =>
      let block : StepBlock := ⟨keyword, text, line.number, items⟩
      let resolved := keyword.resolve (stepsRev.head?.map Step.kind)
      let place : Reader.Place := ⟨doneRev, name, number, stepsRev⟩
      let added : Step := { kind := resolved, keyword, text, line := line.number }
      have adds : (Reader.within doneRev ⟨name, number, stepsRev⟩ .neutral).read line =
          place.at added .neutral := by
        simp [Reader.read, Reader.readPlain, Reader.within, kind, LineKind.isRow, Reader.addStep,
          Reader.Place.at, place, added, resolved]
      have filled : items.foldl Item.fill added = block.step resolved := by
        simp [foldl_fill, StepBlock.step, block, added]
      have behind := inductionHypothesis (block.step resolved :: stepsRev)
      rw [Reader.readAll_cons, adds, holds.readAll_scenarios place added, filled]
      rw [Reader.Place.at, behind]
      simp [stepsAfter, block, resolved, StepBlock.step]

/-- A line that has no place where it stands changes nothing. -/
theorem read_dropped
    {reader : Reader} {line : Line} (neutral : reader.mode = .neutral)
    (noStep : reader.currentStep? = none) (notHeader : line.kind.isHeader = false)
    (notStep : reader.draft = none ∨ line.kind.isStep = false) :
    reader.read line = reader := by
  rw [Reader.read, if_neg (by simp [neutral])]
  cases kind : line.kind with
  | header name => simp [kind, LineKind.isHeader] at notHeader
  | step keyword text =>
      have noDraft : reader.draft = none := by
        simpa [kind, LineKind.isStep] using notStep
      simp [Reader.readPlain, kind, neutral, Reader.addStep, noDraft]
  | fence => simp [Reader.readPlain, kind, neutral, Reader.openDocString, noStep]
  | row cells => simp [Reader.readPlain, kind, neutral, Reader.addRow, noStep]
  | other => simp [Reader.readPlain, kind, neutral]

theorem readAll_dropped
    {reader : Reader} {lines : List Line} (neutral : reader.mode = .neutral)
    (noStep : reader.currentStep? = none)
    (noPlace : ∀ line ∈ lines, line.kind.isHeader = false ∧
      (reader.draft = none ∨ line.kind.isStep = false)) :
    reader.readAll lines = reader := by
  induction lines with
  | nil => rfl
  | cons line lines inductionHypothesis =>
      have ⟨notHeader, notStep⟩ := noPlace line List.mem_cons_self
      rw [Reader.readAll_cons, read_dropped neutral noStep notHeader notStep]
      exact inductionHypothesis fun other member =>
        noPlace other (List.mem_cons_of_mem line member)

theorem ScenarioBlocks.readAll_scenarios
    {lines : List Line} {blocks : List ScenarioBlock} (holds : ScenarioBlocks lines blocks)
    (doneRev : List Scenario) (draft : Option Reader.Draft) :
    (Reader.readAll { doneRev, draft } lines).scenarios =
      Reader.scenarios { doneRev, draft } ++ blocks.map ScenarioBlock.scenario := by
  induction holds generalizing doneRev draft with
  | done => simp
  | @header line name dropped lines rest steps blocks kind stepless holds later
      inductionHypothesis =>
      -- The header finishes the scenario that was open, whatever it is.
      let before := (draft.map Reader.Draft.scenario).toList ++ doneRev
      let opened := Reader.within before ⟨name, line.number, []⟩ .neutral
      have opens : Reader.read { doneRev, draft } line = opened := by
        simp [Reader.read, Reader.readPlain, kind, Reader.openScenario, opened, before,
          Reader.within]
      have drops : opened.readAll dropped = opened := by
        apply readAll_dropped rfl rfl
        intro other member
        have ⟨notHeader, notStep⟩ := stepless other member
        exact ⟨notHeader, .inr notStep⟩
      rw [Reader.readAll_cons, opens, Reader.readAll_append, drops]
      rw [holds.readAll_scenarios before name line.number [], Reader.within, inductionHypothesis]
      simp [Reader.scenarios, before, Reader.Draft.scenario, ScenarioBlock.scenario]

/-- The reader reads off the scenarios of the blocks. -/
theorem Reads.ofLines_eq
    {lines : List Line} {blocks : List ScenarioBlock} (reads : Reads lines blocks) :
    Scenario.ofLines lines = blocks.map ScenarioBlock.scenario := by
  cases reads with
  | @intro dropped lines blocks headerless holds =>
      have drops : Reader.readAll {} dropped = {} :=
        readAll_dropped rfl rfl fun line member => ⟨headerless line member, .inl rfl⟩
      rw [Scenario.ofLines, Reader.readAll_append, drops, holds.readAll_scenarios]
      rfl

/-! ## Every stream has blocks -/

/-- The longest run of lines of one sort in front. -/
theorem exists_run (sort : LineKind → Bool) (lines : List Line) :
    ∃ front back, lines = front ++ back ∧ (∀ line ∈ front, sort line.kind = true) ∧
      ∀ line ∈ back.head?, sort line.kind = false := by
  induction lines with
  | nil => exact ⟨[], [], rfl, by simp, by simp⟩
  | cons line lines inductionHypothesis =>
      by_cases sorted : sort line.kind = true
      · obtain ⟨front, back, split, inside, ends⟩ := inductionHypothesis
        refine ⟨line :: front, back, by rw [split]; rfl, ?_, ends⟩
        intro other member
        rcases List.mem_cons.mp member with rfl | later
        · exact sorted
        · exact inside other later
      · exact ⟨[], line :: lines, rfl, by simp, by simpa using sorted⟩

theorem exists_rows
    {rowLines : List Line} (areRows : ∀ line ∈ rowLines, line.kind.isRow = true) :
    ∃ rows : List (List String), rowLines.map Line.kind = rows.map .row := by
  induction rowLines with
  | nil => exact ⟨[], rfl⟩
  | cons line rowLines inductionHypothesis =>
      have isRow : line.kind.isRow = true := areRows line List.mem_cons_self
      obtain ⟨rows, kinds⟩ := inductionHypothesis fun other member =>
        areRows other (List.mem_cons_of_mem line member)
      cases kind : line.kind with
      | row cells => exact ⟨cells :: rows, by simp [kind, kinds]⟩
      | header | step | fence | other => simp [kind, LineKind.isRow] at isRow

theorem exists_items (lines : List Line) :
    ∃ items rest, Items lines items rest ∧ rest.length ≤ lines.length := by
  -- A table or a doc string takes several lines at once, hence the induction on the length.
  induction size : lines.length using Nat.strongRecOn generalizing lines with
  | ind bound inductionHypothesis =>
      subst size
      cases lines with
      | nil => exact ⟨[], [], .done (by simp), Nat.le_refl _⟩
      | cons line lines =>
          cases kind : line.kind with
          | header | step =>
              exact ⟨[], line :: lines, .done (by simp [kind, LineKind.isStep,
                LineKind.isHeader]), Nat.le_refl _⟩
          | other =>
              obtain ⟨items, rest, holds, shorter⟩ :=
                inductionHypothesis lines.length (by simp) lines rfl
              exact ⟨.other :: items, rest, .other kind holds, Nat.le_succ_of_le shorter⟩
          | row cells =>
              obtain ⟨rowLines, behind, split, inside, ends⟩ := exists_run LineKind.isRow lines
              obtain ⟨rows, kinds⟩ := exists_rows inside
              have total : (line :: lines).length = rowLines.length + behind.length + 1 := by
                rw [List.length_cons, split, List.length_append]
              obtain ⟨items, rest, holds, shorter⟩ :=
                inductionHypothesis behind.length (by omega) behind rfl
              refine ⟨.table (cells :: rows) :: items, rest, ?_, by omega⟩
              rw [split]
              show Items ((line :: rowLines) ++ behind) (.table (cells :: rows) :: items) rest
              exact .table (by simp [kind, kinds]) (by simp) ends holds
          | fence =>
              obtain ⟨content, behind, split, inside, ends⟩ :=
                exists_run (fun kind => kind != .fence) lines
              have noFence : ∀ line ∈ content, line.kind ≠ .fence := by simpa using inside
              cases behind with
              | nil =>
                  rw [List.append_nil] at split
                  exact ⟨[.openDocString], [], split ▸ .openDocString kind noFence, by simp⟩
              | cons closing behind =>
                  have closes : closing.kind = .fence := by simpa using ends
                  have total : (line :: lines).length =
                      content.length + (behind.length + 1) + 1 := by
                    rw [List.length_cons, split, List.length_append, List.length_cons]
                  obtain ⟨items, rest, holds, shorter⟩ :=
                    inductionHypothesis behind.length (by omega) behind rfl
                  refine ⟨.docString (content.map Line.raw) :: items, rest, ?_, by omega⟩
                  rw [split]
                  exact .docString kind noFence closes holds

theorem Items.ends
    {lines rest : List Line} {items : List Item} (holds : Items lines items rest) :
    ∀ line ∈ rest.head?, line.kind.isStep = true ∨ line.kind.isHeader = true := by
  induction holds with
  | done ends => exact ends
  | openDocString opens inside => simp
  | table _ _ _ _ inductionHypothesis => exact inductionHypothesis
  | docString _ _ _ _ inductionHypothesis => exact inductionHypothesis
  | other _ _ inductionHypothesis => exact inductionHypothesis

theorem exists_stepBlocks
    (lines : List Line)
    (starts : ∀ line ∈ lines.head?, line.kind.isStep = true ∨ line.kind.isHeader = true) :
    ∃ steps rest, StepBlocks lines steps rest ∧ rest.length ≤ lines.length := by
  induction size : lines.length using Nat.strongRecOn generalizing lines with
  | ind bound inductionHypothesis =>
      subst size
      cases lines with
      | nil => exact ⟨[], [], .done (by simp), Nat.le_refl _⟩
      | cons line lines =>
          cases kind : line.kind with
          | header =>
              exact ⟨[], line :: lines, .done (by simp [kind, LineKind.isHeader]), Nat.le_refl _⟩
          | step keyword text =>
              obtain ⟨items, between, holds, shorter⟩ := exists_items lines
              have total : (line :: lines).length = lines.length + 1 := List.length_cons
              obtain ⟨steps, rest, later, shorterStill⟩ :=
                inductionHypothesis between.length (by omega) between holds.ends rfl
              exact ⟨_, rest, .step kind holds later, by omega⟩
          | fence | row | other => simp [kind, LineKind.isStep, LineKind.isHeader] at starts

theorem StepBlocks.ends
    {lines rest : List Line} {steps : List StepBlock} (holds : StepBlocks lines steps rest) :
    ∀ line ∈ rest.head?, line.kind.isHeader = true := by
  induction holds with
  | done ends => exact ends
  | step _ _ _ inductionHypothesis => exact inductionHypothesis

theorem exists_scenarioBlocks
    (lines : List Line) (starts : ∀ line ∈ lines.head?, line.kind.isHeader = true) :
    ∃ blocks, ScenarioBlocks lines blocks := by
  induction size : lines.length using Nat.strongRecOn generalizing lines with
  | ind bound inductionHypothesis =>
      subst size
      cases lines with
      | nil => exact ⟨[], .done⟩
      | cons line lines =>
          cases kind : line.kind with
          | header name =>
              obtain ⟨dropped, behind, split, inside, ends⟩ :=
                exists_run (fun kind => !(kind.isStep || kind.isHeader)) lines
              have stepless : ∀ other ∈ dropped,
                  other.kind.isHeader = false ∧ other.kind.isStep = false := by
                simpa [and_comm] using inside
              have starts : ∀ other ∈ behind.head?,
                  other.kind.isStep = true ∨ other.kind.isHeader = true := by
                simpa only [Bool.not_eq_false', Bool.or_eq_true] using ends
              obtain ⟨steps, rest, holds, shorter⟩ := exists_stepBlocks behind starts
              have total : (line :: lines).length = dropped.length + behind.length + 1 := by
                rw [List.length_cons, split, List.length_append]
              obtain ⟨blocks, later⟩ :=
                inductionHypothesis rest.length (by omega) rest holds.ends rfl
              rw [split]
              exact ⟨_, .header kind stepless holds later⟩
          | step | fence | row | other => simp [kind, LineKind.isHeader] at starts

theorem exists_reads (lines : List Line) : ∃ blocks, Reads lines blocks := by
  obtain ⟨dropped, behind, split, inside, ends⟩ := exists_run (fun kind => !kind.isHeader) lines
  obtain ⟨blocks, holds⟩ := exists_scenarioBlocks behind (by simpa using ends)
  exact ⟨blocks, split ▸ .intro (by simpa using inside) holds⟩

/-- Every stream has blocks, and what the reader returns are their scenarios. -/
theorem ofLines_of_reads (lines : List Line) :
    (∃ blocks, Reads lines blocks) ∧
      ∀ blocks, Reads lines blocks →
        Scenario.ofLines lines = blocks.map ScenarioBlock.scenario :=
  ⟨exists_reads lines, fun _ reads => reads.ofLines_eq⟩

end Grammar

end Gherkin

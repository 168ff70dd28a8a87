import Gherkin.Proofs.Feature.Joining
import Gherkin.Proofs.Feature.Lines
import Gherkin.Proofs.Feature.Writing

/-!
Contract: scenarios printed as a feature text.

Owns: which scenarios can be printed, their text, and that reading a text gives scenarios
that can be printed and finds those that were.
Does not own: single lines (`Gherkin.Proofs.Feature.Writing`) and the blocks that lines
make up (`Gherkin.Proofs.Feature.Grammar`).
Main statement: `ofText_of_printed`.

Both directions meet at the grammar of blocks: the printed lines make up the blocks of
the scenarios, and the blocks of lines that were read stand for scenarios that can be
printed.
-/

set_option autoImplicit false

namespace Gherkin

open Grammar

/-! ## What can be printed -/

/-- A line that a doc string keeps as it is, and that does not close it. -/
structure IsContent (line : String) : Prop where
  noReturn : line.toList.getLast? ≠ some '\r'
  noFence : Text.trimmed line ≠ LineKind.fenceText

structure DataTable.Printable (table : DataTable) : Prop where
  nonempty : table.rows ≠ []
  cells : ∀ row ∈ table.rows, ∀ cell ∈ row, IsCell cell

structure Step.Printable (step : Step) : Prop where
  text : IsPhrase step.text
  nonempty : step.text ≠ ""
  docString : ∀ doc ∈ step.docString, ∀ line ∈ Text.split '\n' doc, IsContent line
  dataTable : ∀ table ∈ step.dataTable, table.Printable

/-- Each step has the kind that its keyword gets behind the step before. -/
def KindsFollow (previous : Option StepKind) : List Step → Prop
  | [] => True
  | step :: steps =>
      step.kind = step.keyword.resolve previous ∧ KindsFollow (some step.kind) steps

structure Scenario.Printable (scenario : Scenario) : Prop where
  name : IsPhrase scenario.name
  kinds : KindsFollow none scenario.steps
  steps : ∀ step ∈ scenario.steps, step.Printable

/-! ## Printing -/

def docStringLines (doc : String) : List String :=
  LineKind.fenceText :: (Text.split '\n' doc ++ [LineKind.fenceText])

def DataTable.lines (table : DataTable) : List String :=
  table.rows.map fun row => (LineKind.row row).written

/-- The lines below a step: first its doc string, then its table. -/
def Step.payload (step : Step) : List String :=
  step.docString.elim [] docStringLines ++ step.dataTable.elim [] DataTable.lines

def Step.lines (step : Step) : List String :=
  (LineKind.step step.keyword step.text).written :: step.payload

def Scenario.lines (scenario : Scenario) : List String :=
  (LineKind.header scenario.name).written :: scenario.steps.flatMap Step.lines

/-- The feature text of some scenarios. -/
def Scenario.print (scenarios : List Scenario) : String :=
  Text.join "\n" (scenarios.flatMap Scenario.lines)

/-- The same scenario without line numbers. -/
def Scenario.unnumbered : Scenario → Scenario :=
  renumber fun _ => 0

/-! ## Lines without numbers -/

def Line.ofRaw (raw : String) : Line :=
  ⟨.ofText raw, raw, 0⟩

theorem Line.kind_ofRaw (raw : String) : (Line.ofRaw raw).kind = .ofText raw :=
  rfl

theorem kinds_unnumbered (text : String) :
    (Document.kinds (Document.ofFeature text)).map (Line.renumber fun _ => 0) =
      ((Document.ofFeature text).pieces.take (Document.ofFeature text).readCount).map
        fun piece => Line.ofRaw (String.ofList (Document.withoutReturns piece)) := by
  rw [Document.kinds, Document.lines_eq_mapIdx]
  apply List.ext_getElem
  · simp
  · intro index first second
    simp [Line.renumber, Line.ofRaw]

/-- Line numbers aside, a text is read as those of its lines that have a number. -/
theorem ofText_unnumbered (text : String) :
    (Scenario.ofText text).map Scenario.unnumbered =
      Scenario.ofLines
        (((Document.ofFeature text).pieces.take (Document.ofFeature text).readCount).map
          fun piece => Line.ofRaw (String.ofList (Document.withoutReturns piece))) := by
  rw [Document.ofText_eq_ofLines, ← kinds_unnumbered, Scenario.ofLines_renumber]
  rfl

/-! ## What is printed is read -/

/-- A line that is one line of the text it is printed into. -/
structure IsLine (line : String) : Prop where
  oneLine : '\n' ∉ line.toList
  noReturn : line.toList.getLast? ≠ some '\r'

/-- Lines that are joined are read one by one. -/
theorem ofText_join_lines
    {lines : List String} (nonempty : lines ≠ []) (areLines : ∀ line ∈ lines, IsLine line)
    (few : (Document.ofFeature (Text.join "\n" lines)).lineCount < UInt32.size) :
    (Scenario.ofText (Text.join "\n" lines)).map Scenario.unnumbered =
      Scenario.ofLines (lines.map Line.ofRaw) := by
  have oneLine : ∀ line ∈ lines, '\n' ∉ line.toList :=
    fun line member => (areLines line member).oneLine
  have same : (lines.map String.toList).map (fun piece =>
      Line.ofRaw (String.ofList (Document.withoutReturns piece))) = lines.map Line.ofRaw := by
    rw [List.map_map]
    apply List.map_congr_left
    intro line member
    have kept := Document.withoutReturns_eq_self (areLines line member).noReturn
    rw [Function.comp_apply, kept, String.ofList_toList]
  have pieces : (Document.ofFeature (Text.join "\n" lines)).pieces = lines.map String.toList :=
    Text.splitOn_join nonempty oneLine
  rw [ofText_unnumbered, Document.take_pieces_of_few few, pieces, same]

theorem IsPhrase.isLine_append
    {front s : String} (phrase : IsPhrase s) (isLine : IsLine front) : IsLine (front ++ s) where
  oneLine := by
    rw [String.toList_append]
    exact fun feed => (List.mem_append.mp feed).elim isLine.oneLine phrase.oneLine
  noReturn := by
    rw [String.toList_append]
    by_cases empty : s.toList = []
    · rw [empty, List.append_nil]
      exact isLine.noReturn
    · rw [List.getLast?_append_of_ne_nil _ empty]
      intro last
      have notBlank := (Text.trim_eq_self_iff.mp phrase.trim_toList).2 '\r' last
      contradiction

theorem isLine_row {row : List String} (cells : ∀ cell ∈ row, IsCell cell) :
    IsLine (LineKind.row row).written := by
  cases row with
  | nil => exact ⟨by decide, by decide⟩
  | cons cell row =>
      refine ⟨?_, ?_⟩
      · have noFeed : '\n' ∉ ['|'].intercalate ((cell :: row).map LineKind.padded) := by
          apply Text.not_mem_intercalate (by decide)
          intro piece member
          obtain ⟨other, isCell, rfl⟩ := List.mem_map.mp member
          simpa [LineKind.padded] using (cells other isCell).oneLine
        rw [LineKind.written_row]
        simpa using noFeed
      · rw [LineKind.written_row, ← List.cons_append, List.getLast?_concat]
        decide

theorem Step.Printable.isLine {step : Step} (printable : step.Printable) :
    ∀ line ∈ step.lines, IsLine line := by
  have fence : IsLine LineKind.fenceText := ⟨by decide, by decide⟩
  have keyword : IsLine (step.keyword.word ++ " ") := by
    rcases step.keyword with kind | _ | _
    · cases kind <;> exact ⟨by decide, by decide⟩
    · exact ⟨by decide, by decide⟩
    · exact ⟨by decide, by decide⟩
  have docString : ∀ line ∈ step.docString.elim [] docStringLines, IsLine line := by
    intro line member
    cases doc : step.docString with
    | none => rw [doc] at member; exact absurd member List.not_mem_nil
    | some text =>
        rw [doc] at member
        rcases List.mem_cons.mp member with rfl | behind
        · exact fence
        · rcases List.mem_append.mp behind with content | closing
          · have isContent := printable.docString text doc line content
            exact ⟨Text.not_mem_of_mem_split content, isContent.noReturn⟩
          · rw [List.mem_singleton.mp closing]
            exact fence
  have dataTable : ∀ line ∈ step.dataTable.elim [] DataTable.lines, IsLine line := by
    intro line member
    cases isTable : step.dataTable with
    | none => rw [isTable] at member; exact absurd member List.not_mem_nil
    | some table =>
        rw [isTable] at member
        obtain ⟨row, isRow, rfl⟩ := List.mem_map.mp member
        exact isLine_row ((printable.dataTable table isTable).cells row isRow)
  intro line member
  rcases List.mem_cons.mp member with rfl | below
  · exact printable.text.isLine_append keyword
  · exact (List.mem_append.mp below).elim (docString line) (dataTable line)

theorem Scenario.Printable.isLine {scenario : Scenario} (printable : scenario.Printable) :
    ∀ line ∈ scenario.lines, IsLine line := by
  have header : IsLine (LineKind.headerWord ++ " ") := ⟨by decide, by decide⟩
  intro line member
  rcases List.mem_cons.mp member with rfl | below
  · exact printable.name.isLine_append header
  · obtain ⟨step, isStep, inStep⟩ := List.mem_flatMap.mp below
    exact (printable.steps step isStep).isLine line inStep

/-! ## The blocks of printed lines -/

def Step.items (step : Step) : List Item :=
  (step.docString.map fun doc => Item.docString (Text.split '\n' doc)).toList ++
    (step.dataTable.map fun table => Item.table table.rows).toList

def Step.block (step : Step) : StepBlock :=
  ⟨step.keyword, step.text, 0, step.items⟩

def Scenario.block (scenario : Scenario) : ScenarioBlock :=
  ⟨scenario.name, 0, scenario.steps.map Step.block⟩

theorem Step.Printable.items {step : Step} (printable : step.Printable) {rest : List Line}
    (ends : ∀ line ∈ rest.head?, line.kind.isStep = true ∨ line.kind.isHeader = true) :
    Items (step.payload.map Line.ofRaw ++ rest) step.items rest := by
  have table : Items ((step.dataTable.elim [] DataTable.lines).map Line.ofRaw ++ rest)
      (step.dataTable.map fun table => Item.table table.rows).toList rest := by
    cases isTable : step.dataTable with
    | none => exact .done ends
    | some table =>
        obtain ⟨nonempty, cells⟩ := printable.dataTable table isTable
        refine .table ?_ nonempty ?_ (.done ends)
        · show (table.lines.map Line.ofRaw).map Line.kind = _
          rw [DataTable.lines, List.map_map, List.map_map]
          apply List.map_congr_left
          intro row isRow
          have entries : ∀ cell ∈ row, IsEntry cell :=
            fun cell member => (cells row isRow cell member).isEntry
          exact (Line.kind_ofRaw _).trans (LineKind.ofText_row entries)
        · intro line first
          rcases ends line first with isStep | isHeader
          · cases kind : line.kind <;> simp_all [LineKind.isStep, LineKind.isRow]
          · cases kind : line.kind <;> simp_all [LineKind.isHeader, LineKind.isRow]
  unfold Step.payload Step.items
  cases doc : step.docString with
  | none => exact table
  | some text =>
      have content : ∀ line ∈ (Text.split '\n' text).map Line.ofRaw, line.kind ≠ .fence := by
        intro line member isFence
        obtain ⟨raw, isLine, rfl⟩ := List.mem_map.mp member
        have noFence := (printable.docString text doc raw isLine).noFence
        exact noFence (LineKind.ofText_eq_fence_iff.mp isFence)
      have raws : ((Text.split '\n' text).map Line.ofRaw).map Line.raw = Text.split '\n' text := by
        rw [List.map_map]
        exact List.map_id _
      have fence : (Line.ofRaw LineKind.fenceText).kind = .fence := rfl
      have whole := Items.docString fence content fence table
      rw [raws] at whole
      simpa [docStringLines] using whole

theorem stepBlocks_lines
    {steps : List Step} (printable : ∀ step ∈ steps, step.Printable) {rest : List Line}
    (ends : ∀ line ∈ rest.head?, line.kind.isHeader = true) :
    StepBlocks ((steps.flatMap Step.lines).map Line.ofRaw ++ rest) (steps.map Step.block) rest := by
  induction steps with
  | nil => exact .done ends
  | cons step steps inductionHypothesis =>
      have first := printable step List.mem_cons_self
      have later := inductionHypothesis fun other member =>
        printable other (List.mem_cons_of_mem step member)
      let behind := (steps.flatMap Step.lines).map Line.ofRaw ++ rest
      have starts : ∀ line ∈ behind.head?,
          line.kind.isStep = true ∨ line.kind.isHeader = true := by
        intro line isFirst
        cases steps with
        | nil => exact .inr (ends line isFirst)
        | cons next steps =>
            have printableNext := printable next (List.mem_cons_of_mem step List.mem_cons_self)
            have kind := LineKind.ofText_step printableNext.text.trimmed printableNext.nonempty
              next.keyword
            have isLine : Line.ofRaw (LineKind.step next.keyword next.text).written = line :=
              Option.some.inj isFirst
            rw [← isLine, Line.kind_ofRaw, kind]
            exact .inl rfl
      have kind := (Line.kind_ofRaw _).trans
        (LineKind.ofText_step first.text.trimmed first.nonempty step.keyword)
      have split : ((step :: steps).flatMap Step.lines).map Line.ofRaw ++ rest =
          Line.ofRaw (LineKind.step step.keyword step.text).written ::
            (step.payload.map Line.ofRaw ++ behind) := by
        simp [Step.lines, behind]
      rw [split]
      exact .step kind (first.items starts) later

theorem scenarioBlocks_lines
    {scenarios : List Scenario} (printable : ∀ scenario ∈ scenarios, scenario.Printable) :
    ScenarioBlocks ((scenarios.flatMap Scenario.lines).map Line.ofRaw)
      (scenarios.map Scenario.block) := by
  induction scenarios with
  | nil => exact .done
  | cons scenario scenarios inductionHypothesis =>
      have first := printable scenario List.mem_cons_self
      have later := inductionHypothesis fun other member =>
        printable other (List.mem_cons_of_mem scenario member)
      let behind := (scenarios.flatMap Scenario.lines).map Line.ofRaw
      have starts : ∀ line ∈ behind.head?, line.kind.isHeader = true := by
        intro line isFirst
        cases scenarios with
        | nil => exact absurd isFirst nofun
        | cons next scenarios =>
            have printableNext := printable next (List.mem_cons_of_mem scenario List.mem_cons_self)
            have kind := LineKind.ofText_header printableNext.name.trimmed
            have isLine : Line.ofRaw (LineKind.header next.name).written = line :=
              Option.some.inj isFirst
            rw [← isLine, Line.kind_ofRaw, kind]
            rfl
      have kind := (Line.kind_ofRaw _).trans (LineKind.ofText_header first.name.trimmed)
      have split : ((scenario :: scenarios).flatMap Scenario.lines).map Line.ofRaw =
          Line.ofRaw (LineKind.header scenario.name).written ::
            ([] ++ ((scenario.steps.flatMap Step.lines).map Line.ofRaw ++ behind)) := by
        simp [Scenario.lines, behind]
      rw [split]
      exact .header kind nofun (stepBlocks_lines first.steps starts) later

theorem step_block (step : Step) :
    step.block.step step.kind = step.renumber fun _ => 0 := by
  have content (doc : String) : Text.join "\n" (Text.split '\n' doc) = doc :=
    Text.join_split '\n' doc
  obtain ⟨kind, keyword, text, line, docString, dataTable⟩ := step
  cases docString <;> cases dataTable <;>
    simp [Step.block, StepBlock.step, Step.items, Step.renumber, Item.docString?, Item.table?,
      List.filterMap_cons, content]

theorem stepsAfter_block
    {previous : Option StepKind} {steps : List Step} (follow : KindsFollow previous steps) :
    stepsAfter previous (steps.map Step.block) = steps.map (Step.renumber fun _ => 0) := by
  induction steps generalizing previous with
  | nil => rfl
  | cons step steps inductionHypothesis =>
      obtain ⟨kind, later⟩ := follow
      have resolved : step.block.keyword.resolve previous = step.kind := kind.symm
      rw [List.map_cons, List.map_cons, stepsAfter, resolved, step_block, inductionHypothesis later]

/-- The blocks of printed lines stand for the scenarios that were printed. -/
theorem scenario_block {scenario : Scenario} (printable : scenario.Printable) :
    scenario.block.scenario = scenario.unnumbered := by
  show Scenario.mk scenario.name 0 (stepsAfter none (scenario.steps.map Step.block)) = _
  rw [stepsAfter_block printable.kinds]
  rfl

/-- Reading the text of scenarios finds them again. -/
theorem ofText_print
    {scenarios : List Scenario} (printable : ∀ scenario ∈ scenarios, scenario.Printable)
    (few : (Document.ofFeature (Scenario.print scenarios)).lineCount < UInt32.size) :
    (Scenario.ofText (Scenario.print scenarios)).map Scenario.unnumbered =
      scenarios.map Scenario.unnumbered := by
  by_cases empty : scenarios = []
  · subst empty
    rfl
  · have nonempty : scenarios.flatMap Scenario.lines ≠ [] := by
      obtain ⟨first, later, rfl⟩ := List.exists_cons_of_ne_nil empty
      simp [Scenario.lines]
    have areLines : ∀ line ∈ scenarios.flatMap Scenario.lines, IsLine line := by
      intro line member
      obtain ⟨scenario, isScenario, inScenario⟩ := List.mem_flatMap.mp member
      exact (printable scenario isScenario).isLine line inScenario
    have reads : Reads ((scenarios.flatMap Scenario.lines).map Line.ofRaw)
        (scenarios.map Scenario.block) := by
      rw [← List.nil_append (List.map Line.ofRaw _)]
      exact .intro nofun (scenarioBlocks_lines printable)
    rw [Scenario.print, ofText_join_lines nonempty areLines few, reads.ofLines_eq, List.map_map]
    apply List.map_congr_left
    intro scenario member
    exact scenario_block (printable scenario member)

/-! ## What is read can be printed -/

/-- A line that was read off a text. -/
structure Line.IsRead (line : Line) : Prop where
  kind : line.kind = .ofText line.raw
  isLine : IsLine line.raw

theorem isLine_withoutReturns {piece : List Char} (oneLine : '\n' ∉ piece) :
    IsLine (String.ofList (Document.withoutReturns piece)) where
  oneLine := by
    rw [String.toList_ofList]
    exact fun feed => oneLine ((Text.dropEndWhile_prefix _ piece).subset feed)
  noReturn := by
    obtain ⟨count, -, noReturn⟩ := Document.eq_withoutReturns_iff.mp (Eq.refl
      (String.ofList (Document.withoutReturns piece)))
    exact noReturn

theorem isLine_of_mem_lines {document : Document} {numbered : UInt32 × String}
    (member : numbered ∈ document.lines) : IsLine numbered.2 := by
  rw [Document.lines_eq_mapIdx] at member
  obtain ⟨index, inside, same⟩ := List.mem_mapIdx.mp member
  have isPiece := List.mem_of_mem_take (List.getElem_mem inside)
  have isLine := isLine_withoutReturns (Text.not_mem_of_mem_splitOn isPiece)
  rw [← same]
  exact isLine

theorem isRead_of_mem_classified
    {document : Document} {line : Line} (member : line ∈ document.classified) : line.IsRead := by
  unfold Document.classified at member
  split at member
  · exact absurd member List.not_mem_nil
  · obtain ⟨numbered, isNumbered, same⟩ := List.mem_map.mp member
    have isLine := isLine_of_mem_lines isNumbered
    rw [← same]
    exact ⟨rfl, isLine⟩

theorem Line.IsRead.wellFormed {line : Line} (read : line.IsRead) : line.kind.WellFormed := by
  rw [read.kind]
  exact LineKind.ofText_wellFormed read.isLine.oneLine

namespace Grammar

def Item.WellFormed : Item → Prop
  | .table rows => (DataTable.mk rows).Printable
  | .docString content => ∀ line ∈ content, '\n' ∉ line.toList ∧ IsContent line
  | .openDocString | .other => True

structure StepBlock.WellFormed (block : StepBlock) : Prop where
  text : IsPhrase block.text
  nonempty : block.text ≠ ""
  items : ∀ item ∈ block.items, item.WellFormed

structure ScenarioBlock.WellFormed (block : ScenarioBlock) : Prop where
  name : IsPhrase block.name
  steps : ∀ step ∈ block.steps, step.WellFormed

theorem Items.rest_suffix
    {lines rest : List Line} {items : List Item} (holds : Items lines items rest) :
    rest <:+ lines := by
  induction holds with
  | done ends => exact List.suffix_refl _
  | table _ _ _ _ inductionHypothesis =>
      exact inductionHypothesis.trans (List.suffix_append _ _)
  | @docString opening closing content lines rest items _ _ _ _ inductionHypothesis =>
      have behindClosing : lines <:+ closing :: lines := List.suffix_cons closing lines
      have behindContent := behindClosing.trans (List.suffix_append content _)
      exact (inductionHypothesis.trans behindContent).trans (List.suffix_cons opening _)
  | openDocString opens inside => exact List.nil_suffix
  | other _ _ inductionHypothesis =>
      exact inductionHypothesis.trans (List.suffix_cons _ _)

theorem Items.wellFormed
    {lines rest : List Line} {items : List Item} (holds : Items lines items rest)
    (read : ∀ line ∈ lines, line.IsRead) : ∀ item ∈ items, item.WellFormed := by
  induction holds with
  | done ends => exact nofun
  | @table rowLines lines rest rows items kinds nonempty maximal later inductionHypothesis =>
      have table : (DataTable.mk rows).Printable := by
        refine ⟨nonempty, ?_⟩
        intro row isRow
        have isKind : LineKind.row row ∈ rowLines.map Line.kind := by
          rw [kinds]
          exact List.mem_map_of_mem isRow
        obtain ⟨line, isLine, kind⟩ := List.mem_map.mp isKind
        have wellFormed := (read line (List.mem_append_left _ isLine)).wellFormed
        rw [kind] at wellFormed
        exact wellFormed
      have behind := inductionHypothesis fun line member =>
        read line (List.mem_append_right _ member)
      exact List.forall_mem_cons.mpr ⟨table, behind⟩
  | @docString opening closing content lines rest items opens inside closes later
      inductionHypothesis =>
      have docString : (Item.docString (content.map Line.raw)).WellFormed := by
        intro raw isRaw
        obtain ⟨line, isLine, rfl⟩ := List.mem_map.mp isRaw
        have isRead := read line (List.mem_cons_of_mem opening (List.mem_append_left _ isLine))
        have noFence : Text.trimmed line.raw ≠ LineKind.fenceText := by
          intro same
          apply inside line isLine
          rw [isRead.kind]
          exact LineKind.ofText_eq_fence_iff.mpr same
        exact ⟨isRead.isLine.oneLine, isRead.isLine.noReturn, noFence⟩
      have behind := inductionHypothesis fun line member =>
        read line (List.mem_cons_of_mem opening
          (List.mem_append_right content (List.mem_cons_of_mem closing member)))
      exact List.forall_mem_cons.mpr ⟨docString, behind⟩
  | openDocString opens inside => exact List.forall_mem_cons.mpr ⟨trivial, nofun⟩
  | other kind later inductionHypothesis =>
      have behind := inductionHypothesis fun line member =>
        read line (List.mem_cons_of_mem _ member)
      exact List.forall_mem_cons.mpr ⟨trivial, behind⟩

theorem StepBlocks.rest_suffix
    {lines rest : List Line} {steps : List StepBlock} (holds : StepBlocks lines steps rest) :
    rest <:+ lines := by
  induction holds with
  | done ends => exact List.suffix_refl _
  | step kind holds later inductionHypothesis =>
      exact (inductionHypothesis.trans holds.rest_suffix).trans (List.suffix_cons _ _)

theorem StepBlocks.wellFormed
    {lines rest : List Line} {steps : List StepBlock} (holds : StepBlocks lines steps rest)
    (read : ∀ line ∈ lines, line.IsRead) : ∀ step ∈ steps, step.WellFormed := by
  induction holds with
  | done ends => exact nofun
  | @step line keyword text lines between rest items steps kind holds later
      inductionHypothesis =>
      have below : ∀ other ∈ lines, other.IsRead :=
        fun other member => read other (List.mem_cons_of_mem line member)
      have stepLine := (read line List.mem_cons_self).wellFormed
      rw [kind] at stepLine
      have first : StepBlock.WellFormed ⟨keyword, text, line.number, items⟩ :=
        ⟨stepLine.1, stepLine.2, holds.wellFormed below⟩
      have behind := inductionHypothesis fun other member =>
        below other (holds.rest_suffix.subset member)
      exact List.forall_mem_cons.mpr ⟨first, behind⟩

theorem ScenarioBlocks.wellFormed
    {lines : List Line} {blocks : List ScenarioBlock} (holds : ScenarioBlocks lines blocks)
    (read : ∀ line ∈ lines, line.IsRead) : ∀ block ∈ blocks, block.WellFormed := by
  induction holds with
  | done => exact nofun
  | @header line name dropped lines rest steps blocks kind stepless holds later
      inductionHypothesis =>
      have below : ∀ other ∈ lines, other.IsRead := fun other member =>
        read other (List.mem_cons_of_mem line (List.mem_append_right dropped member))
      have headerLine := (read line List.mem_cons_self).wellFormed
      rw [kind] at headerLine
      have first : ScenarioBlock.WellFormed ⟨name, line.number, steps⟩ :=
        ⟨headerLine, holds.wellFormed below⟩
      have behind := inductionHypothesis fun other member =>
        below other (holds.rest_suffix.subset member)
      exact List.forall_mem_cons.mpr ⟨first, behind⟩

/-- The lines of a doc string are its content, or one empty line. -/
theorem isContent_of_mem_split
    {content : List String} (proper : ∀ line ∈ content, '\n' ∉ line.toList ∧ IsContent line) :
    ∀ line ∈ Text.split '\n' (Text.join "\n" content), IsContent line := by
  intro line member
  by_cases empty : content = []
  · subst empty
    have isEmpty : line = "" := List.mem_singleton.mp member
    subst isEmpty
    exact ⟨by decide, by decide⟩
  · rw [Text.split_join empty fun part isPart => (proper part isPart).1] at member
    exact (proper line member).2

theorem StepBlock.WellFormed.printable
    {block : StepBlock} (wellFormed : block.WellFormed) (kind : StepKind) :
    (block.step kind).Printable where
  text := wellFormed.text
  nonempty := wellFormed.nonempty
  docString := by
    intro doc isLast
    obtain ⟨item, isItem, isDoc⟩ := List.mem_filterMap.mp (List.mem_of_getLast? isLast)
    have proper := wellFormed.items item isItem
    cases item with
    | docString content =>
        rw [← Option.some.inj isDoc]
        exact isContent_of_mem_split proper
    | openDocString =>
        have isEmpty : Text.join "\n" [] = doc := Option.some.inj isDoc
        rw [← isEmpty]
        have noLines : ∀ line ∈ ([] : List String), '\n' ∉ line.toList ∧ IsContent line := nofun
        exact isContent_of_mem_split noLines
    | table | other => contradiction
  dataTable := by
    intro table isLast
    obtain ⟨item, isItem, isTable⟩ := List.mem_filterMap.mp (List.mem_of_getLast? isLast)
    have proper := wellFormed.items item isItem
    cases item with
    | table rows =>
        rw [← Option.some.inj isTable]
        exact proper
    | docString | openDocString | other => contradiction

theorem kindsFollow_stepsAfter (previous : Option StepKind) (blocks : List StepBlock) :
    KindsFollow previous (stepsAfter previous blocks) := by
  induction blocks generalizing previous with
  | nil => trivial
  | cons block blocks inductionHypothesis => exact ⟨rfl, inductionHypothesis _⟩

theorem printable_of_mem_stepsAfter
    {blocks : List StepBlock} (wellFormed : ∀ block ∈ blocks, block.WellFormed)
    (previous : Option StepKind) :
    ∀ step ∈ stepsAfter previous blocks, step.Printable := by
  induction blocks generalizing previous with
  | nil => exact nofun
  | cons block blocks inductionHypothesis =>
      have first := (wellFormed block List.mem_cons_self).printable
        (block.keyword.resolve previous)
      have later := inductionHypothesis
        (fun other member => wellFormed other (List.mem_cons_of_mem block member))
        (some (block.keyword.resolve previous))
      exact List.forall_mem_cons.mpr ⟨first, later⟩

theorem ScenarioBlock.WellFormed.printable
    {block : ScenarioBlock} (wellFormed : block.WellFormed) : block.scenario.Printable where
  name := wellFormed.name
  kinds := kindsFollow_stepsAfter none block.steps
  steps := printable_of_mem_stepsAfter wellFormed.steps none

end Grammar

/-- What is read off a text can be printed. -/
theorem printable_of_mem_ofText {text : String} {scenario : Scenario}
    (member : scenario ∈ Scenario.ofText text) : scenario.Printable := by
  obtain ⟨blocks, reads⟩ := exists_reads (Document.classified ⟨"<feature>", text⟩)
  have scenarios : Scenario.ofText text = blocks.map ScenarioBlock.scenario := reads.ofLines_eq
  rw [scenarios] at member
  obtain ⟨block, isBlock, rfl⟩ := List.mem_map.mp member
  have read : ∀ line ∈ Document.classified ⟨"<feature>", text⟩, line.IsRead :=
    fun line isLine => isRead_of_mem_classified isLine
  generalize Document.classified ⟨"<feature>", text⟩ = lines at reads read
  cases reads with
  | intro headerless holds =>
      have wellFormed := holds.wellFormed fun line isLine =>
        read line (List.mem_append_right _ isLine)
      exact (wellFormed block isBlock).printable

/-- Line numbers aside, reading a printed text undoes the printing, unless it has more lines
than there are numbers; and what is read off any text can be printed. -/
theorem ofText_of_printed :
    (∀ scenarios : List Scenario, (∀ scenario ∈ scenarios, scenario.Printable) →
      (Document.ofFeature (Scenario.print scenarios)).lineCount < UInt32.size →
      (Scenario.ofText (Scenario.print scenarios)).map Scenario.unnumbered =
        scenarios.map Scenario.unnumbered) ∧
      ∀ text : String, ∀ scenario ∈ Scenario.ofText text, scenario.Printable :=
  ⟨fun _ => ofText_print, fun _ _ member => printable_of_mem_ofText member⟩

end Gherkin

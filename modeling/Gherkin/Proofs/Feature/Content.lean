import Gherkin.Proofs.Feature.Printing

/-!
Contract: what stands between two fences is content, whatever it looks like.

Owns: a text with a doc string put together from its parts, the lines of such a text, and
what the scenarios that are read have to do with the content.
Does not own: the blocks that lines make up (`Gherkin.Proofs.Feature.Grammar`).
Main statement: `ofText_withContent`.

The lines below the closing fence fill the step with what they hold and put further steps
and scenarios behind it. What they put there does not depend on the step, so the content
shows in one place at most.
-/

set_option autoImplicit false

namespace Gherkin

open Grammar

/-! ## Lines below a step -/

/-- The scenario with further steps. -/
def Scenario.adding (scenario : Scenario) (steps : List Step) : Scenario :=
  { scenario with steps := scenario.steps ++ steps }

namespace Reader.Place

/-- The open scenario up to its newest step. -/
def above (place : Reader.Place) : Scenario :=
  ⟨place.name, place.line, place.stepsRev.reverse⟩

/-- What lines put behind the newest step does not depend on what that step holds. -/
theorem exists_scenarios (place : Reader.Place) (kind : StepKind) (lines : List Line) :
    ∃ items rest later after, Items lines items rest ∧
      ∀ step : Step, step.kind = kind →
        ((place.at step .neutral).readAll lines).scenarios =
          place.doneRev.reverse ++
            place.above.adding (items.foldl Item.fill step :: later) :: after := by
  obtain ⟨items, between, holds, _⟩ := exists_items lines
  obtain ⟨steps, rest, holdsSteps, _⟩ := exists_stepBlocks between holds.ends
  obtain ⟨blocks, holdsBlocks⟩ := exists_scenarioBlocks rest holdsSteps.ends
  refine ⟨items, between, stepsAfter (some kind) steps, blocks.map ScenarioBlock.scenario,
    holds, ?_⟩
  intro step isKind
  have sameKind : (items.foldl Item.fill step).kind = kind := by
    rw [foldl_fill]
    exact isKind
  rw [holds.readAll_scenarios, Reader.Place.at, holdsSteps.readAll_scenarios, Reader.within,
    holdsBlocks.readAll_scenarios]
  simp [Reader.scenarios, Reader.Draft.scenario, Scenario.adding, above, sameKind]

end Reader.Place

/-! ## Lines of a text -/

/-- The lines of a text without numbers. -/
def linesOf (text : String) : List Line :=
  (Document.kinds (Document.ofFeature text)).map (Line.renumber fun _ => 0)

/-- A line as it is read: without carriage returns at its end. -/
def Line.asRead (line : String) : Line :=
  Line.ofRaw (String.ofList (Document.withoutReturns line.toList))

theorem linesOf_eq
    {text : String} (few : (Document.ofFeature text).lineCount < UInt32.size) :
    linesOf text = (Text.split '\n' text).map Line.asRead := by
  rw [linesOf, kinds_unnumbered, Document.take_pieces_of_few few, Text.split, List.map_map]
  apply List.map_congr_left
  intro piece _
  simp [Line.asRead]

theorem lineCount_join_lines
    {lines : List String} (nonempty : lines ≠ [])
    (oneLine : ∀ line ∈ lines, '\n' ∉ line.toList) :
    (Document.ofFeature (Text.join "\n" lines)).lineCount = lines.length := by
  have pieces : (Document.ofFeature (Text.join "\n" lines)).pieces = lines.map String.toList :=
    Text.splitOn_join nonempty oneLine
  rw [← Document.length_pieces, pieces, List.length_map]

theorem linesOf_join
    {lines : List String} (nonempty : lines ≠ [])
    (oneLine : ∀ line ∈ lines, '\n' ∉ line.toList) (few : lines.length < UInt32.size) :
    linesOf (Text.join "\n" lines) = lines.map Line.asRead := by
  rw [← lineCount_join_lines nonempty oneLine] at few
  rw [linesOf_eq few, Text.split_join nonempty oneLine]

/-- Returns are blank, so they play no part in what kind a line is of. -/
theorem Line.kind_asRead (line : String) : (Line.asRead line).kind = LineKind.ofText line := by
  have onlyBlank : ∀ c : Char, (c == '\r') = true → Text.isBlank c = true := by
    intro c isReturn
    rw [beq_iff_eq.mp isReturn]
    decide
  rw [Line.asRead, Line.kind_ofRaw, LineKind.ofText, LineKind.ofText, String.toList_ofList,
    Document.withoutReturns, Text.trim_dropEndWhile onlyBlank]

/-- Line numbers aside, a text has the scenarios of its lines. -/
theorem ofText_linesOf (text : String) :
    (Scenario.ofText text).map Scenario.unnumbered = Scenario.ofLines (linesOf text) := by
  rw [ofText_unnumbered, linesOf, kinds_unnumbered]

theorem readAll_linesOf (text : String) :
    Reader.readAll {} (linesOf text) = (Reader.ofText text).renumber fun _ => 0 := by
  rw [Reader.ofText, ← Document.readAll_kinds, ← Reader.readAll_renumber]
  rfl

/-- A line that is a fence, blank space around it aside. -/
structure IsFence (line : String) : Prop where
  oneLine : '\n' ∉ line.toList
  isFence : Text.trimmed line = LineKind.fenceText

/-- A text with a doc string: what stands above, a fence, the lines of the content, a fence,
and what stands below. -/
def withContent
    (above opening : String) (content : List String) (closing below : String) : String :=
  above ++ "\n" ++ Text.join "\n" (opening :: (content ++ [closing])) ++ "\n" ++ below

theorem IsFence.kind {line : String} (fence : IsFence line) :
    (Line.asRead line).kind = .fence := by
  rw [Line.kind_asRead, LineKind.ofText_eq_fence_iff]
  exact fence.isFence

theorem IsContent.kind {line : String} (isContent : IsContent line) :
    (Line.ofRaw line).kind ≠ .fence := by
  rw [Line.kind_ofRaw, Ne, LineKind.ofText_eq_fence_iff]
  exact isContent.noFence

theorem IsContent.asRead {line : String} (isContent : IsContent line) :
    Line.asRead line = Line.ofRaw line := by
  rw [Line.asRead, Document.withoutReturns_eq_self isContent.noReturn, String.ofList_toList]

/-- The closing fence is one of the lines that are read. Line numbers have 32 bits, and of a
text with more lines than that only the first ones are. -/
def ReadsContent
    (above opening : String) (content : List String) (closing below : String) : Prop :=
  (Document.ofFeature above).lineCount + (content.length + 2) ≤
    (Document.ofFeature (withContent above opening content closing below)).readCount

section

variable {above opening closing below : String} {content : List String}

theorem oneLine_of_proper
    (opens : IsFence opening) (closes : IsFence closing)
    (proper : ∀ line ∈ content, '\n' ∉ line.toList ∧ IsContent line) :
    ∀ line ∈ opening :: (content ++ [closing]), '\n' ∉ line.toList := by
  intro line member
  rcases List.mem_cons.mp member with rfl | later
  · exact opens.oneLine
  · rcases List.mem_append.mp later with inside | isLast
    · exact (proper line inside).1
    · rw [List.mem_singleton.mp isLast]
      exact closes.oneLine

theorem lineCount_content
    (opens : IsFence opening) (closes : IsFence closing)
    (proper : ∀ line ∈ content, '\n' ∉ line.toList ∧ IsContent line) :
    (Document.ofFeature (Text.join "\n" (opening :: (content ++ [closing])))).lineCount =
      content.length + 2 := by
  rw [lineCount_join_lines (List.cons_ne_nil _ _) (oneLine_of_proper opens closes proper)]
  simp

theorem lineCount_withContent
    (above below : String) (opens : IsFence opening) (closes : IsFence closing)
    (proper : ∀ line ∈ content, '\n' ∉ line.toList ∧ IsContent line) :
    (Document.ofFeature (withContent above opening content closing below)).lineCount =
      (Document.ofFeature above).lineCount + (content.length + 2) +
        (Document.ofFeature below).lineCount := by
  have block := lineCount_content opens closes proper
  unfold Document.ofFeature at *
  rw [withContent, Document.lineCount_join, Document.lineCount_join, block]

/-- In a text with fewer lines than there are numbers, all lines are read. -/
theorem ReadsContent.of_few
    (opens : IsFence opening) (closes : IsFence closing)
    (proper : ∀ line ∈ content, '\n' ∉ line.toList ∧ IsContent line)
    (few : (Document.ofFeature (withContent above opening content closing below)).lineCount <
      UInt32.size) :
    ReadsContent above opening content closing below := by
  rw [ReadsContent, Document.readCount_of_few few,
    lineCount_withContent above below opens closes proper]
  exact Nat.le_add_right _ _

/-- Without its content the text is shorter, so its closing fence is read, too. -/
theorem ReadsContent.bare
    (opens : IsFence opening) (closes : IsFence closing)
    (proper : ∀ line ∈ content, '\n' ∉ line.toList ∧ IsContent line)
    (reads : ReadsContent above opening content closing below) :
    ReadsContent above opening [] closing below := by
  have noContent : ∀ line ∈ ([] : List String), '\n' ∉ line.toList ∧ IsContent line :=
    List.forall_mem_nil _
  have counts := lineCount_withContent above below opens closes proper
  have bareCounts :=
    lineCount_withContent above below opens closes noContent
  unfold ReadsContent Document.readCount at *
  rw [counts, UInt32.toNat_ofNat'] at reads
  rw [bareCounts, UInt32.toNat_ofNat', List.length_nil]
  omega

end

end Gherkin

import Gherkin.Proofs.Feature.Joining

/-!
Contract: what holds in every state of the reader, and what no further line changes.

Owns: the invariant that ties the mode to the newest step and to the lines collected
(`Reader.Sound`), and what stays of a state for good (`Reader.Keeps`).
Does not own: which scenarios are read (`Gherkin.Proofs.Feature.Grammar`).
Main statement: `readAll_sound`.

Each of the two modes that are not neutral is entered by a line that fills the newest step,
and left before another step can become the newest. This is why a closing fence and a
further row always find the step that they belong to.
-/

set_option autoImplicit false

namespace Gherkin

/-! ## The invariant -/

/-- The table of a step, if there is one, has a row. -/
def Step.TableHasRows (step : Step) : Prop :=
  ∀ table ∈ step.dataTable, table.rows ≠ []

namespace Reader

def TablesHaveRows (reader : Reader) : Prop :=
  ∀ scenario ∈ reader.scenarios, ∀ step ∈ scenario.steps, step.TableHasRows

/-- What the mode says about the rest of the state. -/
structure Sound (reader : Reader) : Prop where
  docString : reader.mode = .docString →
    ∃ step, reader.currentStep? = some step ∧ step.docString = some ""
  dataTable : reader.mode = .dataTable →
    ∃ step table, reader.currentStep? = some step ∧ step.dataTable = some table ∧
      table.rows ≠ []
  /-- No content is collected outside doc strings. -/
  idle : reader.Idle
  tables : reader.TablesHaveRows

/-! ## What stays for good -/

/-- A later form of an open scenario: the steps before its newest one are as they were, and
further ones may have come behind. -/
structure Draft.Extends (draft later : Draft) : Prop where
  name_eq : later.name = draft.name
  line_eq : later.line = draft.line
  earlier : draft.stepsRev.tail <:+ later.stepsRev.tail

/-- What stays of a state in a later one. -/
structure Keeps (reader later : Reader) : Prop where
  completed : reader.doneRev <:+ later.doneRev
  /-- The open scenario is still open, or stands completed right behind those that were
  completed before it. -/
  opened : ∀ draft ∈ reader.draft, ∃ next, draft.Extends next ∧
    (later.doneRev = reader.doneRev ∧ later.draft = some next ∨
      next.scenario :: reader.doneRev <:+ later.doneRev)

theorem Draft.Extends.refl (draft : Draft) : draft.Extends draft :=
  ⟨rfl, rfl, List.suffix_refl _⟩

theorem Draft.Extends.trans
    {draft later last : Draft} (first : draft.Extends later) (second : later.Extends last) :
    draft.Extends last where
  name_eq := second.name_eq.trans first.name_eq
  line_eq := second.line_eq.trans first.line_eq
  earlier := first.earlier.trans second.earlier

theorem Keeps.of_same
    {reader later : Reader} (sameDone : later.doneRev = reader.doneRev)
    (sameDraft : later.draft = reader.draft) : reader.Keeps later where
  completed := sameDone ▸ List.suffix_refl _
  opened := by
    intro draft isOpen
    exact ⟨draft, .refl draft, .inl ⟨sameDone, sameDraft.trans isOpen⟩⟩

theorem Keeps.trans
    {reader later last : Reader} (first : reader.Keeps later) (second : later.Keeps last) :
    reader.Keeps last where
  completed := first.completed.trans second.completed
  opened := by
    intro draft isOpen
    rcases first.opened draft isOpen with ⟨next, extended, ⟨sameDone, stillOpen⟩ | completed⟩
    · obtain ⟨after, further, place⟩ := second.opened next stillOpen
      rw [sameDone] at place
      exact ⟨after, extended.trans further, place⟩
    · exact ⟨next, extended, .inr (completed.trans second.completed)⟩

/-! ## The newest step -/

theorem mem_scenarios_iff {reader : Reader} {scenario : Scenario} :
    scenario ∈ reader.scenarios ↔
      scenario ∈ reader.doneRev ∨
        ∃ draft, reader.draft = some draft ∧ draft.scenario = scenario := by
  simp [scenarios]

theorem currentStep?_replaceStep
    {reader : Reader} {step : Step} (current : reader.currentStep? = some step) (filled : Step) :
    (reader.replaceStep filled).currentStep? = some filled := by
  obtain ⟨draft, isOpen, _⟩ := Option.bind_eq_some_iff.mp current
  simp [replaceStep, currentStep?, isOpen]

/-- Filling the newest step changes no other. -/
theorem keeps_replaceStep
    (reader : Reader) (filled : Step) (mode : Mode) (docLinesRev : List String) :
    reader.Keeps { reader.replaceStep filled with mode, docLinesRev } where
  completed := List.suffix_refl _
  opened := by
    intro draft isOpen
    have nowOpen : (reader.replaceStep filled).draft =
        some { draft with stepsRev := filled :: draft.stepsRev.tail } :=
      congrArg (Option.map _) isOpen
    exact ⟨{ draft with stepsRev := filled :: draft.stepsRev.tail },
      ⟨rfl, rfl, List.suffix_refl _⟩, .inl ⟨rfl, nowOpen⟩⟩

namespace TablesHaveRows

variable {reader : Reader}

theorem of_current
    (tables : reader.TablesHaveRows) {step : Step} (current : reader.currentStep? = some step) :
    step.TableHasRows := by
  obtain ⟨draft, isOpen, isFirst⟩ := Option.bind_eq_some_iff.mp current
  apply tables draft.scenario (mem_scenarios_iff.mpr (.inr ⟨draft, isOpen, rfl⟩))
  exact List.mem_reverse.mpr (List.mem_of_mem_head? isFirst)

theorem replaceStep (tables : reader.TablesHaveRows) {filled : Step}
    (hasRows : filled.TableHasRows) : (reader.replaceStep filled).TablesHaveRows := by
  intro scenario member step isStep
  rcases mem_scenarios_iff.mp member with done | ⟨draft, isOpen, rfl⟩
  · exact tables scenario (mem_scenarios_iff.mpr (.inl done)) step isStep
  · obtain ⟨before, wasOpen, rfl⟩ := Option.map_eq_some_iff.mp isOpen
    rcases List.mem_cons.mp (List.mem_reverse.mp isStep) with rfl | earlier
    · exact hasRows
    · apply tables before.scenario (mem_scenarios_iff.mpr (.inr ⟨before, wasOpen, rfl⟩))
      exact List.mem_reverse.mpr (List.mem_of_mem_tail earlier)

theorem openScenario (tables : reader.TablesHaveRows) (name : String) (number : UInt32) :
    (reader.openScenario name number).TablesHaveRows := by
  intro scenario member step isStep
  rcases mem_scenarios_iff.mp member with done | ⟨draft, isOpen, rfl⟩
  · apply tables scenario _ step isStep
    exact List.mem_reverse.mpr done
  · obtain rfl := Option.some.inj isOpen
    exact absurd isStep List.not_mem_nil

theorem addStep
    (tables : reader.TablesHaveRows) (keyword : Keyword) (text : String) (number : UInt32) :
    (reader.addStep keyword text number).TablesHaveRows := by
  obtain ⟨doneRev, draft, mode, docLinesRev⟩ := reader
  cases draft with
  | none => exact tables
  | some before =>
      intro scenario member step isStep
      rcases mem_scenarios_iff.mp member with done | ⟨draft, isOpen, rfl⟩
      · exact tables scenario (mem_scenarios_iff.mpr (.inl done)) step isStep
      · obtain rfl := Option.some.inj isOpen
        rcases List.mem_cons.mp (List.mem_reverse.mp isStep) with rfl | earlier
        · intro table isTable
          contradiction
        · apply tables before.scenario (mem_scenarios_iff.mpr (.inr ⟨before, rfl, rfl⟩))
          exact List.mem_reverse.mpr earlier

end TablesHaveRows

/-! ## One line -/

/-- What a line comes to in a sound state. -/
structure Proceeds (reader next : Reader) : Prop where
  sound : next.Sound
  keeps : reader.Keeps next

theorem sound_neutral
    {doneRev : List Scenario} {draft : Option Draft}
    (tables : TablesHaveRows ⟨doneRev, draft, .neutral, []⟩) :
    Sound ⟨doneRev, draft, .neutral, []⟩ where
  docString := by
    intro inside
    contradiction
  dataTable := by
    intro inside
    contradiction
  idle := fun _ => rfl
  tables := tables

namespace Sound

variable {reader : Reader}

theorem proceeds_refl (sound : reader.Sound) : reader.Proceeds reader :=
  ⟨sound, .of_same rfl rfl⟩

theorem settled (sound : reader.Sound) (outside : reader.mode ≠ .docString) (kind : LineKind) :
    reader.Proceeds (reader.settled kind) := by
  unfold Reader.settled
  split
  · obtain ⟨doneRev, draft, mode, docLinesRev⟩ := reader
    obtain rfl : docLinesRev = [] := sound.idle outside
    exact ⟨sound_neutral sound.tables, .of_same rfl rfl⟩
  · exact sound.proceeds_refl

theorem openScenario
    (sound : reader.Sound) (outside : reader.mode ≠ .docString)
    (name : String) (number : UInt32) :
    reader.Proceeds (reader.openScenario name number) := by
  have tables : (reader.openScenario name number).TablesHaveRows :=
    sound.tables.openScenario name number
  obtain ⟨doneRev, before, mode, docLinesRev⟩ := reader
  obtain rfl : docLinesRev = [] := sound.idle outside
  refine ⟨sound_neutral tables, List.suffix_append _ _, ?_⟩
  intro draft isOpen
  obtain rfl : before = some draft := isOpen
  exact ⟨draft, .refl draft, .inr (List.suffix_refl _)⟩

theorem addStep
    (sound : reader.Sound) (outside : reader.mode ≠ .docString)
    (keyword : Keyword) (text : String) (number : UInt32) :
    reader.Proceeds (reader.addStep keyword text number) := by
  have tables : (reader.addStep keyword text number).TablesHaveRows :=
    sound.tables.addStep keyword text number
  obtain ⟨doneRev, draft, mode, docLinesRev⟩ := reader
  obtain rfl : docLinesRev = [] := sound.idle outside
  cases draft with
  | none => exact sound.proceeds_refl
  | some draft =>
      refine ⟨sound_neutral tables, List.suffix_refl _, ?_⟩
      intro before isOpen
      obtain rfl := Option.some.inj isOpen
      -- The step that was the newest is now one of the earlier steps, as it is.
      exact ⟨⟨_, _, _ :: draft.stepsRev⟩, ⟨rfl, rfl, List.tail_suffix _⟩, .inl ⟨rfl, rfl⟩⟩

theorem openDocString (sound : reader.Sound) : reader.Proceeds reader.openDocString := by
  unfold Reader.openDocString
  split
  · exact sound.proceeds_refl
  · next step current =>
      refine ⟨⟨?_, ?_, ?_, ?_⟩, keeps_replaceStep reader _ _ _⟩
      · intro _
        exact ⟨_, currentStep?_replaceStep current _, rfl⟩
      · intro inside
        contradiction
      · intro _
        rfl
      · have hasRows := sound.tables.of_current current
        exact sound.tables.replaceStep hasRows

theorem closeDocString (sound : reader.Sound) : reader.Proceeds reader.closeDocString := by
  unfold Reader.closeDocString
  split
  · exact ⟨sound_neutral sound.tables, .of_same rfl rfl⟩
  · next step current =>
      have hasRows := sound.tables.of_current current
      exact ⟨sound_neutral (sound.tables.replaceStep hasRows), keeps_replaceStep reader _ _ _⟩

theorem addRow
    (sound : reader.Sound) (outside : reader.mode ≠ .docString) (cells : List String) :
    reader.Proceeds (reader.addRow cells) := by
  have pushed : ∀ table : DataTable, (table.push cells).rows ≠ [] := by
    intro table
    simp [DataTable.push]
  unfold Reader.addRow
  split
  · exact sound.proceeds_refl
  · next step current =>
      refine ⟨⟨?_, ?_, ?_, ?_⟩, keeps_replaceStep reader _ _ _⟩
      · intro inside
        contradiction
      · intro _
        exact ⟨_, _, currentStep?_replaceStep current _, rfl, pushed _⟩
      · intro _
        exact sound.idle outside
      · apply sound.tables.replaceStep
        intro table isTable
        obtain rfl := Option.some.inj isTable
        exact pushed _

theorem readPlain
    (sound : reader.Sound) (outside : reader.mode ≠ .docString) (line : Line) :
    reader.Proceeds (reader.readPlain line) := by
  obtain ⟨kind, raw, number⟩ := line
  have settles := sound.settled outside kind
  have stillOutside : (reader.settled kind).mode ≠ .docString := by
    unfold Reader.settled
    split
    · exact Mode.noConfusion
    · exact outside
  have proceeds : (reader.settled kind).Proceeds (reader.readPlain ⟨kind, raw, number⟩) := by
    cases kind with
    | header name => exact settles.sound.openScenario stillOutside name number
    | step keyword text => exact settles.sound.addStep stillOutside keyword text number
    | fence => exact settles.sound.openDocString
    | row cells => exact settles.sound.addRow stillOutside cells
    | other => exact settles.sound.proceeds_refl
  exact ⟨proceeds.sound, settles.keeps.trans proceeds.keeps⟩

theorem collect
    (sound : reader.Sound) (inside : reader.mode = .docString) (raw : String) :
    reader.Proceeds { reader with docLinesRev := raw :: reader.docLinesRev } where
  sound := {
    docString := sound.docString
    dataTable := sound.dataTable
    idle := fun outside => absurd inside outside
    tables := sound.tables }
  keeps := .of_same rfl rfl

/-- A line keeps a state sound, and keeps all of it that is there for good. -/
theorem read (sound : reader.Sound) (line : Line) : reader.Proceeds (reader.read line) := by
  unfold Reader.read
  split
  · next inside =>
      split
      · exact sound.closeDocString
      · exact sound.collect inside line.raw
  · next outside => exact sound.readPlain outside line

theorem readAll (sound : reader.Sound) (lines : List Line) :
    reader.Proceeds (reader.readAll lines) := by
  -- The invariant is what the next line needs; what is kept adds up from line to line.
  induction lines generalizing reader with
  | nil => exact sound.proceeds_refl
  | cons line lines inductionHypothesis =>
      have first := sound.read line
      have later := inductionHypothesis first.sound
      exact ⟨later.sound, first.keeps.trans later.keeps⟩

end Sound

theorem sound_start : Sound {} := by
  apply sound_neutral
  intro scenario member
  exact absurd member List.not_mem_nil

/-! ## What follows for fences and rows -/

/-- Inside a doc string, the next fence hands all that was collected to the newest step. -/
def HandsOver (reader : Reader) : Prop :=
  reader.mode = .docString →
    ∃ step, reader.currentStep? = some step ∧
      ∀ (content : List Line) (closing : Line),
        (∀ line ∈ content, line.kind ≠ .fence) → closing.kind = .fence →
          (reader.readAll (content ++ [closing])).currentStep? =
            some { step with
              docString := some
                (Text.join "\n" (reader.docLinesRev.reverse ++ content.map Line.raw)) }

/-- The table that the next row is put into: behind a row the one that the newest step has,
behind any other line a new one. -/
def tableFor? (reader : Reader) (newest : Step) : Option DataTable :=
  if reader.mode = .dataTable then newest.dataTable else some .empty

/-- Outside doc strings, the next row finds the table that it is put into. -/
def FindsTable (reader : Reader) : Prop :=
  reader.mode ≠ .docString → ∀ step, reader.currentStep? = some step →
    ∃ table, reader.tableFor? step = some table ∧
      ∀ (row : Line) (cells : List String), row.kind = .row cells →
        (reader.read row).currentStep? =
          some { step with dataTable := some (table.push cells) }

theorem currentStep?_closeDocString
    {reader : Reader} {step : Step} (current : reader.currentStep? = some step) :
    reader.closeDocString.currentStep? =
      some { step with docString := some (Text.join "\n" reader.docLinesRev.reverse) } := by
  rw [closeDocString, current]
  exact currentStep?_replaceStep current _

theorem currentStep?_addRow
    {reader : Reader} {step : Step} {table : DataTable}
    (current : reader.currentStep? = some step) (found : reader.tableFor? step = some table)
    (cells : List String) :
    (reader.addRow cells).currentStep? =
      some { step with dataTable := some (table.push cells) } := by
  have taken : (if reader.mode = .dataTable then step.dataTable.getD .empty else .empty) =
      table := by
    unfold tableFor? at found
    split at found
    · next behindRow => rw [if_pos behindRow, found, Option.getD_some]
    · next fresh => rw [if_neg fresh, Option.some.inj found]
  rw [addRow, current]
  show (reader.replaceStep { step with
    dataTable := some (DataTable.push (if _ then _ else _) cells) }).currentStep? = _
  rw [taken]
  exact currentStep?_replaceStep current _

theorem Sound.handsOver {reader : Reader} (sound : reader.Sound) : reader.HandsOver := by
  intro inside
  obtain ⟨step, current, _⟩ := sound.docString inside
  refine ⟨step, current, ?_⟩
  intro content closing noFence closes
  let collected : Reader :=
    { reader with docLinesRev := (content.map Line.raw).reverse ++ reader.docLinesRev }
  have stillCurrent : collected.currentStep? = some step := current
  have closed : collected.read closing = collected.closeDocString := by
    rw [Reader.read, if_pos inside, if_pos closes]
  rw [readAll_append, readAll_content reader inside noFence, readAll_cons, readAll_nil]
  show (collected.read closing).currentStep? = _
  rw [closed, currentStep?_closeDocString stillCurrent]
  simp [collected]

theorem Sound.findsTable {reader : Reader} (sound : reader.Sound) : reader.FindsTable := by
  intro outside step current
  have found : ∃ table, reader.tableFor? step = some table := by
    unfold tableFor?
    split
    · next behindRow =>
        obtain ⟨newest, table, isNewest, hasTable, _⟩ := sound.dataTable behindRow
        obtain rfl := Option.some.inj (current.symm.trans isNewest)
        exact ⟨table, hasTable⟩
    · exact ⟨.empty, rfl⟩
  obtain ⟨table, found⟩ := found
  refine ⟨table, found, ?_⟩
  intro row cells isRow
  have added : reader.read row = reader.addRow cells := by
    simp [Reader.read, outside, Reader.readPlain, isRow, LineKind.isRow]
  rw [added]
  exact currentStep?_addRow current found cells

/-- Every state that the reader reaches is sound. So a fence that closes a doc string and a
row that continues a table find what they go on with, and no later line changes a scenario
that is completed or a step that is not the newest. -/
theorem readAll_sound (lines : List Line) :
    (Reader.readAll {} lines).Sound ∧ (Reader.readAll {} lines).HandsOver ∧
      (Reader.readAll {} lines).FindsTable ∧
        ∀ more : List Line,
          (Reader.readAll {} lines).Keeps (Reader.readAll {} (lines ++ more)) := by
  have sound : (Reader.readAll {} lines).Sound := (sound_start.readAll lines).sound
  refine ⟨sound, sound.handsOver, sound.findsTable, ?_⟩
  intro more
  rw [readAll_append]
  exact (sound.readAll more).keeps

/-- A row is content inside a doc string, and a table behind it. -/
example :
    (Reader.readAll {} [⟨.header "s", "", 1⟩, ⟨.step .and "a", "", 2⟩, ⟨.fence, "", 3⟩,
      ⟨.row ["x"], "|x|", 4⟩, ⟨.fence, "", 5⟩, ⟨.row ["y"], "|y|", 6⟩]).currentStep? =
        some {
          kind := .context
          keyword := .and
          text := "a"
          line := 2
          docString := some "|x|"
          dataTable := some ⟨[["y"]]⟩ } := by
  decide

end Reader

end Gherkin

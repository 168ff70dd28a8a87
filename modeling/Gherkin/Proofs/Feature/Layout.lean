import Mathlib.Logic.Relation
import Gherkin.Proofs.Feature.Content
import Gherkin.Proofs.Run.Chain

/-!
Contract: the layout of a feature text plays no part in what it says.

Owns: changes to the blank space and the line breaks of a text and to its lines of no known
kind, and that the scenarios and their runs stay the same.
Does not own: that line numbers play no part in a run (`Gherkin.Proofs.Run.Chain`).
Main statement: `run_of_relaid`.

Reading looks at the layout in two places only. The content of a doc string is kept as it
was written, up to carriage returns at the ends of its lines; and a line of no known kind
ends a table, which shows if the next line is a row. Both hold as long as all lines of the
texts are read.
-/

set_option autoImplicit false

namespace Gherkin

/-! ## Changes -/

/-- The state of reading below some lines. -/
def Reader.below (above : List String) : Reader :=
  Reader.ofText (Text.join "\n" above)

/-- The line is a table row, if it stands outside doc strings. -/
def IsRow (line : String) : Prop :=
  (LineKind.ofText line).isRow = true

/-- One change to the layout of some lines. -/
inductive Change : List String → List String → Prop where
  /-- Blank space at the ends of a line that is no content of a doc string. A fence is none,
  whether it opens a doc string or closes one. -/
  | blanks {above below : List String} {line front back : String}
      (noContent : (Reader.below above).mode ≠ .docString ∨ LineKind.ofText line = .fence)
      (blankFront : ∀ c ∈ front.toList, Text.isBlank c = true)
      (blankBack : ∀ c ∈ back.toList, Text.isBlank c = true) :
      Change (above ++ line :: below) (above ++ (front ++ line ++ back) :: below)
  /-- Carriage returns at the ends of any lines. -/
  | returns {lines others : List String}
      (returned : List.Forall₂ (fun line other => other = line ∨ other = line ++ "\r")
        lines others) :
      Change lines others
  /-- A line of no known kind, outside doc strings and not directly between two rows. -/
  | other {above below : List String} {line : String} (kind : LineKind.ofText line = .other)
      (outside : (Reader.below above).mode ≠ .docString)
      (apart : ¬ ((∃ row ∈ above.getLast?, IsRow row) ∧ ∃ row ∈ below.head?, IsRow row)) :
      Change (above ++ below) (above ++ line :: below)

/-- The lines of one text are those of the other but for one change. Neither text has more
lines than can be numbered. -/
structure Edit (text other : String) : Prop where
  change : Change (Text.split '\n' text) (Text.split '\n' other)
  few : (Document.ofFeature text).lineCount < UInt32.size
  fewOther : (Document.ofFeature other).lineCount < UInt32.size

/-- One text becomes the other by changes to its layout, forwards and backwards. -/
def Relaid : String → String → Prop :=
  Relation.EqvGen Edit

/-! ## Lines as they are read -/

theorem LineKind.ofText_padded
    {front back : String} (blankFront : ∀ c ∈ front.toList, Text.isBlank c = true)
    (blankBack : ∀ c ∈ back.toList, Text.isBlank c = true) (line : String) :
    ofText (front ++ line ++ back) = ofText line := by
  rw [ofText, ofText, String.toList_append, String.toList_append,
    Text.trim_append_blank _ blankBack, Text.trim_blank_append blankFront]

theorem Line.asRead_return (line : String) : Line.asRead (line ++ "\r") = Line.asRead line := by
  have isReturn : "\r".toList = ['\r'] := rfl
  rw [Line.asRead, Line.asRead, String.toList_append, isReturn, Document.withoutReturns,
    Text.dropEndWhile_append_singleton]
  rfl

/-- Outside doc strings nothing shows of a line but its kind and its number. -/
theorem Reader.read_of_same_kind
    {reader : Reader} {line other : Line} (kind : line.kind = other.kind)
    (number : line.number = other.number)
    (noContent : reader.mode ≠ .docString ∨ line.kind = .fence) :
    reader.read line = reader.read other := by
  unfold Reader.read
  by_cases inside : reader.mode = .docString
  · have fence := noContent.resolve_left fun outside => outside inside
    rw [if_pos inside, if_pos inside, if_pos fence, if_pos (kind ▸ fence)]
  · rw [if_neg inside, if_neg inside]
    unfold Reader.readPlain
    rw [kind, number]

/-! ## Lines of no known kind -/

namespace Reader

theorem isRow_of_read_dataTable
    {reader : Reader} {line : Line} (table : (reader.read line).mode = .dataTable) :
    line.kind.isRow = true := by
  obtain ⟨doneRev, draft, mode, docLinesRev⟩ := reader
  obtain ⟨kind, raw, number⟩ := line
  cases mode with
  | docString =>
      cases kind with
      | row cells => rfl
      | fence | header | step | other => contradiction
  | neutral | dataTable =>
      cases kind with
      | row cells => rfl
      | header | other => contradiction
      | step | fence =>
          rcases draft with _ | ⟨name, number, _ | ⟨step, stepsRev⟩⟩ <;> contradiction

/-- The reader is in a table only directly below a row. -/
theorem exists_row_of_dataTable
    {lines : List Line} (table : (Reader.readAll {} lines).mode = .dataTable) :
    ∃ row ∈ lines.getLast?, row.kind.isRow = true := by
  rcases List.eq_nil_or_concat lines with rfl | ⟨above, last, rfl⟩
  · contradiction
  · rw [List.concat_eq_append, readAll_append] at table
    exact ⟨last, by simp, isRow_of_read_dataTable table⟩

/-- A line of no known kind may be left out where it ends no table. -/
theorem scenarios_readAll_other
    {reader : Reader} (outside : reader.mode ≠ .docString) {line : Line}
    (kind : line.kind = .other) {below : List Line}
    (apart : reader.mode = .dataTable → ∀ next ∈ below.head?, next.kind.isRow = false) :
    (reader.readAll (line :: below)).scenarios = (reader.readAll below).scenarios := by
  obtain ⟨doneRev, draft, mode, docLinesRev⟩ := reader
  obtain ⟨_, raw, number⟩ := line
  subst kind
  cases mode with
  | docString => exact absurd rfl outside
  | neutral => rfl
  | dataTable =>
      have settles := scenarios_of_settled ⟨doneRev, draft, .neutral, docLinesRev⟩ (apart rfl)
      exact settles.symm

end Reader

/-! ## Changes are not seen -/

theorem Reader.mode_below
    {above : List String} (oneLine : ∀ line ∈ above, '\n' ∉ line.toList)
    (few : above.length < UInt32.size) :
    (Reader.readAll {} (above.map Line.asRead)).mode = (Reader.below above).mode := by
  by_cases empty : above = []
  · subst empty
    rfl
  · rw [← linesOf_join empty oneLine few, readAll_linesOf]
    rfl

theorem map_asRead_of_returned
    {lines others : List String}
    (returned : List.Forall₂ (fun line other => other = line ∨ other = line ++ "\r")
      lines others) :
    lines.map Line.asRead = others.map Line.asRead := by
  induction returned with
  | nil => rfl
  | cons changed _ inductionHypothesis =>
      rw [List.map_cons, List.map_cons, inductionHypothesis]
      rcases changed with rfl | rfl
      · rfl
      · rw [Line.asRead_return]

/-- Where lines stand directly between no two rows, a table above has no row below. -/
theorem not_isRow_below_table
    {above below : List String}
    (apart : ¬ ((∃ row ∈ above.getLast?, IsRow row) ∧ ∃ row ∈ below.head?, IsRow row))
    (table : (Reader.readAll {} (above.map Line.asRead)).mode = .dataTable) :
    ∀ next ∈ (below.map Line.asRead).head?, next.kind.isRow = false := by
  intro next isNext
  obtain ⟨row, isLast, isRow⟩ := Reader.exists_row_of_dataTable table
  rw [List.getLast?_map] at isLast
  rw [List.head?_map] at isNext
  obtain ⟨last, isLastLine, rfl⟩ := Option.map_eq_some_iff.mp isLast
  obtain ⟨first, isFirstLine, rfl⟩ := Option.map_eq_some_iff.mp isNext
  rw [Line.kind_asRead] at isRow ⊢
  apply Bool.eq_false_iff.mpr
  intro nextRow
  exact apart ⟨⟨last, isLastLine, isRow⟩, first, isFirstLine, nextRow⟩

theorem Change.ofLines_eq
    {lines others : List String} (change : Change lines others)
    (oneLine : ∀ line ∈ lines, '\n' ∉ line.toList) (few : lines.length < UInt32.size) :
    Scenario.ofLines (lines.map Line.asRead) = Scenario.ofLines (others.map Line.asRead) := by
  cases change with
  | @blanks above below line front back noContent blankFront blankBack =>
      have oneLineAbove := (List.forall_mem_append.mp oneLine).1
      have fewAbove : above.length < UInt32.size := by
        rw [List.length_append] at few
        omega
      have sameKind : (Line.asRead line).kind = (Line.asRead (front ++ line ++ back)).kind := by
        rw [Line.kind_asRead, Line.kind_asRead, LineKind.ofText_padded blankFront blankBack]
      rw [← Reader.mode_below oneLineAbove fewAbove, ← Line.kind_asRead] at noContent
      unfold Scenario.ofLines
      rw [List.map_append, List.map_append, Reader.readAll_append, Reader.readAll_append,
        List.map_cons, List.map_cons, Reader.readAll_cons, Reader.readAll_cons,
        Reader.read_of_same_kind sameKind rfl noContent]
  | returns returned => rw [map_asRead_of_returned returned]
  | @other above below line kind outside apart =>
      have oneLineAbove := (List.forall_mem_append.mp oneLine).1
      have fewAbove : above.length < UInt32.size := by
        rw [List.length_append] at few
        omega
      rw [← Reader.mode_below oneLineAbove fewAbove] at outside
      rw [← Line.kind_asRead] at kind
      unfold Scenario.ofLines
      rw [List.map_append, List.map_append, Reader.readAll_append, Reader.readAll_append,
        List.map_cons, Reader.scenarios_readAll_other outside kind (not_isRow_below_table apart)]

/-- Line numbers aside, texts of different layout have the same scenarios. -/
theorem Relaid.ofText_eq {text other : String} (relaid : Relaid text other) :
    (Scenario.ofText text).map Scenario.unnumbered =
      (Scenario.ofText other).map Scenario.unnumbered := by
  induction relaid with
  | rel text other edit =>
      have few := edit.few
      rw [← Document.length_pieces] at few
      rw [ofText_linesOf, ofText_linesOf, linesOf_eq edit.few, linesOf_eq edit.fewOther]
      apply edit.change.ofLines_eq
      · exact fun line member => Text.not_mem_of_mem_split member
      · rw [Text.split, List.length_map]
        exact few
  | refl text => rfl
  | symm text other _ inductionHypothesis => exact inductionHypothesis.symm
  | trans text between other _ _ first second => exact first.trans second

/-- Changes to the layout of a text change neither its scenarios, line numbers aside, nor
what becomes of any run that the text is a feature of. -/
theorem run_of_relaid {text other : String} (relaid : Relaid text other) :
    (Scenario.ofText text).map Scenario.unnumbered =
        (Scenario.ofText other).map Scenario.unnumbered ∧
      ∀ {W : Type} (library : StepLibrary (Action W)) (clock : Clock)
        (before after : List (String × String)) (name : String) (world : W),
          library.run clock (before ++ (name, text) :: after) world =
            library.run clock (before ++ (name, other) :: after) world := by
  refine ⟨relaid.ofText_eq, ?_⟩
  intro W library clock before after name world
  apply StepLibrary.run_of_same_features
  intro session
  rw [Session.runFeatures_append, Session.runFeatures_append]
  show ((session.runFeatures before).runFeature name text).runFeatures after = _
  rw [Session.runFeature_of_renumber relaid.ofText_eq]
  rfl

/-- Changed lines make an edited text. -/
theorem Change.edit
    {lines others : List String} (change : Change lines others) (nonempty : lines ≠ [])
    (nonemptyOthers : others ≠ []) (oneLine : ∀ line ∈ lines ++ others, '\n' ∉ line.toList)
    (few : lines.length < UInt32.size) (fewOthers : others.length < UInt32.size) :
    Edit (Text.join "\n" lines) (Text.join "\n" others) := by
  have oneLineEach := List.forall_mem_append.mp oneLine
  refine ⟨?_, ?_, ?_⟩
  · rw [Text.split_join nonempty oneLineEach.1, Text.split_join nonemptyOthers oneLineEach.2]
    exact change
  · rw [lineCount_join_lines nonempty oneLineEach.1]
    exact few
  · rw [lineCount_join_lines nonemptyOthers oneLineEach.2]
    exact fewOthers

/-- Three changes: blank space around a fence, a carriage return in a doc string, and prose
below a row that no row follows. -/
theorem run_of_relaid_below_table :
    Relaid "Scenario: a\nGiven x\n| 1 |\n\"\"\"\ny\n\"\"\""
        "Scenario: a\nGiven x\n| 1 |\nnote\n\t\"\"\" \ny\r\n\"\"\"" ∧
      (Scenario.ofText "Scenario: a\nGiven x\n| 1 |\n\"\"\"\ny\n\"\"\"").map
          Scenario.unnumbered =
        (Scenario.ofText
          "Scenario: a\nGiven x\n| 1 |\nnote\n\t\"\"\" \ny\r\n\"\"\"").map
          Scenario.unnumbered := by
  let table := ["Scenario: a", "Given x", "| 1 |"]
  have spaced : Change (table ++ "\"\"\"" :: ["y", "\"\"\""])
      (table ++ ("\t" ++ "\"\"\"" ++ " ") :: ["y", "\"\"\""]) :=
    .blanks (.inr (by decide +kernel)) (by simp [Text.isBlank]) (by simp [Text.isBlank])
  have returned : Change (table ++ ["\t\"\"\" ", "y", "\"\"\""])
      (table ++ ["\t\"\"\" ", "y\r", "\"\"\""]) :=
    .returns (.cons (.inl rfl) (.cons (.inl rfl) (.cons (.inl rfl) (.cons (.inl rfl)
      (.cons (.inr rfl) (.cons (.inl rfl) .nil))))))
  have noted : Change (table ++ ["\t\"\"\" ", "y\r", "\"\"\""])
      (table ++ "note" :: ["\t\"\"\" ", "y\r", "\"\"\""]) := by
    refine .other (by decide +kernel) (by decide +kernel) ?_
    intro between
    obtain ⟨-, row, isNext, isRow⟩ := between
    obtain rfl := Option.some.inj isNext
    have noRow : (LineKind.ofText "\t\"\"\" ").isRow = false := by decide +kernel
    exact Bool.false_ne_true (noRow.symm.trans isRow)
  have first := spaced.edit (by simp) (by simp) (by decide) (by decide) (by decide)
  have second := returned.edit (by simp) (by simp) (by decide) (by decide) (by decide)
  have third := noted.edit (by simp) (by simp) (by decide) (by decide) (by decide)
  have relaid := ((Relation.EqvGen.rel _ _ first).trans _ _ _ (.rel _ _ second)).trans _ _ _
    (.rel _ _ third)
  exact ⟨relaid, (run_of_relaid relaid).1⟩

/-- Between two rows of a table a blank line takes the rows above away. -/
example :
    (Scenario.ofText "Scenario: a\nGiven x\n| 1 |\n| 2 |").flatMap Scenario.steps ≠
      (Scenario.ofText "Scenario: a\nGiven x\n| 1 |\n\n| 2 |").flatMap Scenario.steps := by
  decide +kernel

end Gherkin

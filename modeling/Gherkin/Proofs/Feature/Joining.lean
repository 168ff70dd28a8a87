import Gherkin.Proofs.Feature.Grammar
import Gherkin.Proofs.Feature.Numbering
import Gherkin.Proofs.Feature.Offsets
import Gherkin.Proofs.Text.Splitting

/-!
Contract: texts behind each other, where the second one starts with a header.

Owns: the lines of a text that continues another one, the part of the reader's state
that further lines do not look at, the places where a text may be cut in two, and what a
continuation adds.
Does not own: that reading passes line numbers on (`Gherkin.Proofs.Feature.Numbering`).
Main statements: `ofText_join`, two texts on consecutive lines have the scenarios of both;
`HeaderCut.ofText_eq`, a text has the scenarios of its two parts; `ofText_continued`.
-/

set_option autoImplicit false

namespace Gherkin

/-! ## Lines of a text -/

namespace Document

/-- The lines of a document by their kinds, also where it has no text. -/
def kinds (document : Document) : List Line :=
  document.lines.map fun (number, raw) => ⟨.ofText raw, raw, number⟩

theorem classified_of_ne {name text : String} (nonempty : text ≠ "") :
    classified ⟨name, text⟩ = kinds ⟨name, text⟩ := by
  unfold classified
  rw [if_neg (by simpa using nonempty)]
  rfl

theorem pieces_join (name first second : String) :
    pieces ⟨name, first ++ "\n" ++ second⟩ = pieces ⟨name, first⟩ ++ pieces ⟨name, second⟩ :=
  Text.splitOn_feed first second

theorem lineCount_join (name first second : String) :
    lineCount ⟨name, first ++ "\n" ++ second⟩ =
      lineCount ⟨name, first⟩ + lineCount ⟨name, second⟩ := by
  rw [← length_pieces, ← length_pieces, ← length_pieces, pieces_join, List.length_append]

/-- Where the lines listed of a text go beyond its first part, they hold all lines of the
first part, and of the second part those that are listed of it alone. -/
theorem readCount_join
    {name first second : String}
    (goesOn : lineCount ⟨name, first⟩ ≤ readCount ⟨name, first ++ "\n" ++ second⟩) :
    lineCount ⟨name, first⟩ < UInt32.size ∧
      readCount ⟨name, first ++ "\n" ++ second⟩ =
        lineCount ⟨name, first⟩ + readCount ⟨name, second⟩ := by
  have small := readCount_lt ⟨name, first ++ "\n" ++ second⟩
  unfold readCount at goesOn small ⊢
  rw [lineCount_join, UInt32.toNat_ofNat'] at goesOn small ⊢
  rw [UInt32.toNat_ofNat']
  omega

theorem lines_join
    {name first second : String}
    (goesOn : lineCount ⟨name, first⟩ ≤ readCount ⟨name, first ++ "\n" ++ second⟩) :
    lines ⟨name, first ++ "\n" ++ second⟩ =
      lines ⟨name, first⟩ ++ (lines ⟨name, second⟩).map fun (number, raw) =>
        (number + UInt32.ofNat (lineCount ⟨name, first⟩), raw) := by
  obtain ⟨few, counts⟩ := readCount_join goesOn
  have length := length_pieces ⟨name, first⟩
  rw [lines_eq_mapIdx, lines_eq_mapIdx, lines_eq_mapIdx, take_pieces_of_few few, pieces_join,
    counts, ← length, List.take_length_add_append, List.mapIdx_append, length]
  congr 1
  rw [List.mapIdx_eq_iff]
  intro index
  have number : UInt32.ofNat (index + lineCount ⟨name, first⟩ + 1) =
      UInt32.ofNat (index + 1) + UInt32.ofNat (lineCount ⟨name, first⟩) := by
    rw [← UInt32.ofNat_add, Nat.add_right_comm]
  rw [List.getElem?_map, List.getElem?_mapIdx, Option.map_map, number]
  rfl

theorem kinds_join
    {name first second : String}
    (goesOn : lineCount ⟨name, first⟩ ≤ readCount ⟨name, first ++ "\n" ++ second⟩) :
    kinds ⟨name, first ++ "\n" ++ second⟩ =
      kinds ⟨name, first⟩ ++ (kinds ⟨name, second⟩).map
        (Line.renumber (· + UInt32.ofNat (lineCount ⟨name, first⟩))) := by
  unfold kinds
  rw [lines_join goesOn, List.map_append, List.map_map, List.map_map]
  rfl

theorem length_kinds (document : Document) : document.kinds.length = document.readCount := by
  have inside := document.readCount_le
  rw [← length_pieces] at inside
  rw [kinds, List.length_map, lines_eq_mapIdx, List.length_mapIdx,
    List.length_take_of_le inside]

end Document

/-! ## What further lines do not look at -/

namespace Reader

/-- The same state with further scenarios that were finished before. -/
def behind (done : List Scenario) (reader : Reader) : Reader :=
  { reader with doneRev := reader.doneRev ++ done.reverse }

theorem scenarios_behind (done : List Scenario) (reader : Reader) :
    (reader.behind done).scenarios = done ++ reader.scenarios := by
  unfold scenarios behind
  simp

theorem read_behind (done : List Scenario) (reader : Reader) (line : Line) :
    (reader.behind done).read line = (reader.read line).behind done := by
  obtain ⟨doneRev, draft, mode, docLinesRev⟩ := reader
  obtain ⟨kind, raw, number⟩ := line
  cases mode with
  | docString =>
      cases kind with
      | fence => rcases draft with _ | ⟨name, number, _ | ⟨step, stepsRev⟩⟩ <;> rfl
      | header | step | row | other => rfl
  | neutral | dataTable =>
      cases kind with
      | header name => simp [read, readPlain, behind, openScenario, LineKind.isRow]
      | other => rfl
      | step | fence | row =>
          rcases draft with _ | ⟨name, number, _ | ⟨step, stepsRev⟩⟩ <;> rfl

theorem readAll_behind (done : List Scenario) (reader : Reader) (lines : List Line) :
    (reader.behind done).readAll lines = (reader.readAll lines).behind done := by
  induction lines generalizing reader with
  | nil => rfl
  | cons line lines inductionHypothesis =>
      rw [readAll_cons, readAll_cons, read_behind]
      exact inductionHypothesis (reader.read line)

/-- Outside doc strings no content is kept. -/
def Idle (reader : Reader) : Prop :=
  reader.mode ≠ .docString → reader.docLinesRev = []

theorem Idle.read {reader : Reader} (idle : reader.Idle) (line : Line) :
    (reader.read line).Idle := by
  obtain ⟨doneRev, draft, mode, docLinesRev⟩ := reader
  obtain ⟨kind, raw, number⟩ := line
  unfold Idle at idle ⊢
  cases mode with
  | docString =>
      cases kind with
      | fence => exact fun _ => rfl
      | header | step | row | other => exact fun outside => absurd rfl outside
  | neutral | dataTable =>
      have kept : docLinesRev = [] := idle nofun
      subst kept
      cases kind with
      | header | other => exact fun _ => rfl
      | step | fence | row =>
          rcases draft with _ | ⟨name, number, _ | ⟨step, stepsRev⟩⟩ <;> exact fun _ => rfl

theorem idle_readAll {reader : Reader} (idle : reader.Idle) (lines : List Line) :
    (reader.readAll lines).Idle := by
  induction lines generalizing reader with
  | nil => exact idle
  | cons line lines inductionHypothesis => exact inductionHypothesis (idle.read line)

/-- A header outside doc strings is read as the first line of all, with the scenarios
before it. -/
theorem read_header
    {reader : Reader} (idle : reader.Idle) (outside : reader.mode ≠ .docString)
    {line : Line} (header : line.kind.isHeader = true) :
    reader.read line = (Reader.read {} line).behind reader.scenarios := by
  obtain ⟨doneRev, draft, mode, docLinesRev⟩ := reader
  obtain ⟨kind, raw, number⟩ := line
  have kept : docLinesRev = [] := idle outside
  subst kept
  cases kind with
  | header name =>
      cases mode with
      | docString => exact absurd rfl outside
      | neutral | dataTable =>
          simp [read, readPlain, behind, scenarios, openScenario, LineKind.isRow]
  | step | fence | row | other => exact absurd header Bool.false_ne_true

theorem scenarios_read_other (reader : Reader) {line : Line} (kind : line.kind = .other) :
    (reader.read line).scenarios = reader.scenarios := by
  obtain ⟨doneRev, draft, mode, docLinesRev⟩ := reader
  obtain ⟨_, raw, number⟩ := line
  subst kind
  cases mode <;> rfl

theorem mode_read_other (reader : Reader) {line : Line} (kind : line.kind = .other) :
    (reader.read line).mode = .docString ↔ reader.mode = .docString := by
  obtain ⟨doneRev, draft, mode, docLinesRev⟩ := reader
  obtain ⟨_, raw, number⟩ := line
  subst kind
  cases mode <;> simp [read, readPlain, LineKind.isRow]

end Reader

/-- Lines from a header on are read as if they stood alone. -/
theorem Reader.scenarios_readAll_header
    {reader : Reader} (idle : reader.Idle) (outside : reader.mode ≠ .docString)
    {header : Line} (starts : header.kind.isHeader = true) (later : List Line) :
    (reader.readAll (header :: later)).scenarios =
      reader.scenarios ++ Scenario.ofLines (header :: later) := by
  unfold Scenario.ofLines
  rw [readAll_cons, read_header idle outside starts, readAll_behind, scenarios_behind,
    readAll_cons]

/-! ## Texts behind each other -/

namespace Document

def ofFeature (text : String) : Document :=
  ⟨"<feature>", text⟩

/-- Where there is no text, one empty line would make no difference. -/
theorem readAll_kinds (text : String) :
    Reader.readAll {} (kinds (ofFeature text)) =
      Reader.readAll {} (classified (ofFeature text)) := by
  by_cases empty : text = ""
  · subst empty
    rfl
  · rw [ofFeature, classified_of_ne empty]

/-- A text has the scenarios of its lines, also where there is no text. -/
theorem ofText_eq_ofLines (text : String) :
    Scenario.ofText text = Scenario.ofLines (kinds (ofFeature text)) := by
  unfold Scenario.ofText Scenario.ofLines
  rw [readAll_kinds]
  rfl

/-- As long as lines have numbers, a line feed at the end adds an empty line. -/
theorem kinds_feed {text : String} (few : lineCount (ofFeature text) + 1 < UInt32.size) :
    ∃ line, line.kind = .other ∧
      kinds (ofFeature (text ++ "\n")) = kinds (ofFeature text) ++ [line] := by
  have count := lineCount_join "<feature>" text ""
  have goesOn : lineCount (ofFeature text) ≤ readCount (ofFeature (text ++ "\n" ++ "")) := by
    rw [ofFeature, ofFeature, readCount_of_few] <;> rw [count]
    · exact Nat.le_add_right _ _
    · exact few
  have joined := kinds_join goesOn
  rw [String.append_empty] at joined
  exact ⟨_, rfl, joined⟩

end Document

open Document

/-- The state that reading a text ends in. -/
def Reader.ofText (text : String) : Reader :=
  Reader.readAll {} (classified (ofFeature text))

/-- The line behind a text is one of those that are read of the whole. -/
def GoesOn (first second : String) : Prop :=
  lineCount (ofFeature first) ≤ readCount (ofFeature (first ++ "\n" ++ second))

theorem GoesOn.of_few
    {first second : String}
    (few : lineCount (ofFeature first) + lineCount (ofFeature second) < UInt32.size) :
    GoesOn first second := by
  have count := lineCount_join "<feature>" first second
  unfold GoesOn ofFeature at *
  rw [readCount_of_few (by rw [count]; exact few), count]
  exact Nat.le_add_right _ _

theorem GoesOn.kinds_eq {first second : String} (goesOn : GoesOn first second) :
    kinds (ofFeature (first ++ "\n" ++ second)) =
      kinds (ofFeature first) ++ (kinds (ofFeature second)).map
        (Line.renumber (· + UInt32.ofNat (lineCount (ofFeature first)))) :=
  kinds_join goesOn

/-- The line behind a text is the first one of the continuation. -/
theorem GoesOn.getElem?_kinds {first second : String} (goesOn : GoesOn first second) :
    (kinds (ofFeature (first ++ "\n" ++ second)))[lineCount (ofFeature first)]? =
      (kinds (ofFeature second)).head?.map
        (Line.renumber (· + UInt32.ofNat (lineCount (ofFeature first)))) := by
  have length : (kinds (ofFeature first)).length = lineCount (ofFeature first) := by
    rw [length_kinds]
    exact readCount_of_few (readCount_join goesOn).1
  rw [goesOn.kinds_eq, List.getElem?_append_right (Nat.le_of_eq length), length, Nat.sub_self,
    List.getElem?_map, List.head?_eq_getElem?]

theorem Reader.ofText_join {first second : String} (goesOn : GoesOn first second) :
    Reader.ofText (first ++ "\n" ++ second) =
      (Reader.ofText first).readAll ((kinds (ofFeature second)).map
        (Line.renumber (· + UInt32.ofNat (lineCount (ofFeature first))))) := by
  unfold Reader.ofText
  rw [← readAll_kinds, ← readAll_kinds, goesOn.kinds_eq, Reader.readAll_append]

/-- Two texts on consecutive lines, the second of which starts with a header, have the
scenarios of both. -/
theorem Scenario.ofText_join
    {first second : String} (goesOn : GoesOn first second)
    (outside : (Reader.ofText first).mode ≠ .docString)
    (starts : ∃ line ∈ (classified (ofFeature second)).head?, line.kind.isHeader = true) :
    ofText (first ++ "\n" ++ second) =
      ofText first ++ (ofText second).map
        (renumber (· + UInt32.ofNat (lineCount (ofFeature first)))) := by
  let number : UInt32 → UInt32 := (· + UInt32.ofNat (lineCount (ofFeature first)))
  obtain ⟨header, isFirst, isHeader⟩ := starts
  obtain ⟨later, lines⟩ := List.head?_eq_some_iff.mp isFirst
  have nonempty : second ≠ "" := by
    intro empty
    subst empty
    exact absurd lines nofun
  have isKinds : kinds (ofFeature second) = header :: later := by
    rw [← lines, ofFeature, classified_of_ne nonempty]
  have secondPart : ofLines ((header :: later).map (Line.renumber number)) =
      (ofText second).map (renumber number) := by
    rw [ofLines_renumber, ← lines]
    rfl
  have idle : (Reader.ofText first).Idle := Reader.idle_readAll (fun _ => rfl) _
  have stillHeader : (header.renumber number).kind.isHeader = true := isHeader
  show (Reader.ofText (first ++ "\n" ++ second)).scenarios = (Reader.ofText first).scenarios ++ _
  rw [Reader.ofText_join goesOn, isKinds, ← secondPart, List.map_cons]
  exact Reader.scenarios_readAll_header idle outside stillHeader _

/-- Reading a line feed more at the end of a text makes one step further, with a line of
no known kind. -/
theorem readAll_feed {text : String} (few : lineCount (ofFeature text) + 1 < UInt32.size) :
    ∃ line : Line, line.kind = .other ∧
      Reader.readAll {} (classified (ofFeature (text ++ "\n"))) =
        (Reader.readAll {} (classified (ofFeature text))).read line := by
  obtain ⟨line, kind, lines⟩ := kinds_feed few
  refine ⟨line, kind, ?_⟩
  rw [← readAll_kinds, lines, Reader.readAll_append, readAll_kinds]
  rfl

/-! ## Cutting a text -/

/-- A text that is put together from two parts may be cut between them: the second part
starts on a line of its own, and this line is read as a header that no doc string
contains. -/
structure HeaderCut (first second : String) : Prop where
  lineStart : first = "" ∨ ∃ above, first = above ++ "\n"
  header : ∃ line ∈ (kinds (ofFeature (first ++ second)))[lineCount (ofFeature first) - 1]?,
    line.kind.isHeader = true
  outside : (Reader.readAll {} (classified (ofFeature first))).mode ≠ .docString

theorem lineCount_feed (text : String) :
    lineCount (ofFeature (text ++ "\n")) = lineCount (ofFeature text) + 1 := by
  have count := lineCount_join "<feature>" text ""
  rw [String.append_empty] at count
  exact count

/-- A text that is cut behind a line feed goes on there with a header. -/
theorem HeaderCut.goesOn {above second : String} (cut : HeaderCut (above ++ "\n") second) :
    lineCount (ofFeature above) + 1 < UInt32.size ∧ GoesOn above second ∧
      ∃ line ∈ (classified (ofFeature second)).head?, line.kind.isHeader = true := by
  obtain ⟨line, isLine, isHeader⟩ := cut.header
  rw [lineCount_feed, Nat.add_sub_cancel] at isLine
  obtain ⟨inside, -⟩ := List.getElem?_eq_some_iff.mp isLine
  rw [length_kinds] at inside
  have goesOn : GoesOn above second := Nat.le_of_lt inside
  refine ⟨Nat.lt_of_le_of_lt inside (readCount_lt _), goesOn, ?_⟩
  rw [goesOn.getElem?_kinds] at isLine
  obtain ⟨header, isFirst, rfl⟩ := Option.map_eq_some_iff.mp isLine
  have nonempty : second ≠ "" := by
    rintro rfl
    obtain rfl := Option.some.inj isFirst
    exact Bool.false_ne_true isHeader
  refine ⟨header, ?_, isHeader⟩
  rw [ofFeature, classified_of_ne nonempty]
  exact isFirst

/-- In a text with fewer lines than there are numbers, it is enough that the second part
starts with a header. -/
theorem HeaderCut.of_few
    {first second : String} (few : lineCount (ofFeature (first ++ second)) < UInt32.size)
    (lineStart : first = "" ∨ ∃ above, first = above ++ "\n")
    (starts : ∃ line ∈ (classified (ofFeature second)).head?, line.kind.isHeader = true)
    (outside : (Reader.readAll {} (classified (ofFeature first))).mode ≠ .docString) :
    HeaderCut first second := by
  obtain ⟨header, isFirst, isHeader⟩ := starts
  have nonempty : second ≠ "" := by
    rintro rfl
    exact absurd isFirst nofun
  rw [ofFeature, classified_of_ne nonempty] at isFirst
  refine ⟨lineStart, ?_, outside⟩
  rcases lineStart with rfl | ⟨above, rfl⟩
  · rw [String.empty_append]
    exact ⟨header, List.head?_eq_getElem?.symm.trans isFirst, isHeader⟩
  · have count := lineCount_join "<feature>" above second
    have goesOn : GoesOn above second := .of_few (count ▸ few)
    refine ⟨header.renumber (· + UInt32.ofNat (lineCount (ofFeature above))), ?_, isHeader⟩
    rw [lineCount_feed, Nat.add_sub_cancel, goesOn.getElem?_kinds]
    exact Option.map_eq_some_iff.mpr ⟨header, isFirst, rfl⟩

/-- A text has the scenarios of the two parts it is cut into, up to line numbers. -/
theorem HeaderCut.ofText_eq {first second : String} (cut : HeaderCut first second) :
    ∃ number : UInt32 → UInt32,
      Scenario.ofText (first ++ second) =
        Scenario.ofText first ++ (Scenario.ofText second).map (Scenario.renumber number) := by
  rcases cut.lineStart with rfl | ⟨above, rfl⟩
  · refine ⟨id, ?_⟩
    rw [String.empty_append, Scenario.renumber_id, List.map_id]
    rfl
  · refine ⟨(· + UInt32.ofNat (lineCount (ofFeature above))), ?_⟩
    obtain ⟨few, goesOn, header⟩ := cut.goesOn
    obtain ⟨line, kind, feed⟩ := readAll_feed few
    -- The first part ends with a line feed, which by itself makes one more empty line.
    have outside : (Reader.readAll {} (classified (ofFeature above))).mode ≠ .docString := by
      have outsideFeed := cut.outside
      rw [feed, Ne, Reader.mode_read_other _ kind] at outsideFeed
      exact outsideFeed
    have sameScenarios : Scenario.ofText (above ++ "\n") = Scenario.ofText above := by
      show (Reader.readAll {} (classified (ofFeature (above ++ "\n")))).scenarios = _
      rw [feed, Reader.scenarios_read_other _ kind]
      rfl
    rw [sameScenarios]
    exact Scenario.ofText_join goesOn outside header

example : HeaderCut "Scenario: a\nGiven x\n" "Scenario: b" :=
  .of_few (by decide +kernel) (.inr ⟨"Scenario: a\nGiven x", rfl⟩)
    ⟨⟨.header "b", "Scenario: b", 1⟩, by decide +kernel, rfl⟩ (by decide +kernel)

/-! ## Continuing a text -/

/-- In a doc string that is not closed any more, nothing further is read. -/
theorem Scenario.ofText_unclosed
    {first second : String} (goesOn : GoesOn first second)
    (inside : (Reader.ofText first).mode = .docString)
    (noFence : ∀ line ∈ kinds (ofFeature second), line.kind ≠ .fence) :
    ofText (first ++ "\n" ++ second) = ofText first := by
  let number : UInt32 → UInt32 := (· + UInt32.ofNat (lineCount (ofFeature first)))
  have content : ∀ line ∈ (kinds (ofFeature second)).map (Line.renumber number),
      line.kind ≠ .fence := by
    intro line member
    obtain ⟨line, isLine, rfl⟩ := List.mem_map.mp member
    exact noFence line isLine
  show (Reader.ofText (first ++ "\n" ++ second)).scenarios = (Reader.ofText first).scenarios
  rw [Reader.ofText_join goesOn, Reader.readAll_content _ inside content]
  rfl

/-- The numbers of the lines of a text go up to their count. -/
theorem Document.number_le
    {document : Document} (few : lineCount document < UInt32.size) {line : Line}
    (member : line ∈ classified document) : line.number.toNat ≤ lineCount document := by
  have inKinds : line ∈ kinds document := by
    unfold classified at member
    split at member
    · exact absurd member List.not_mem_nil
    · exact member
  obtain ⟨numbered, isNumbered, rfl⟩ := List.mem_map.mp inKinds
  rw [lines_eq_mapIdx, take_pieces_of_few few] at isNumbered
  obtain ⟨index, inside, rfl⟩ := List.mem_mapIdx.mp isNumbered
  rw [length_pieces] at inside
  have small : index + 1 < UInt32.size := by omega
  show (UInt32.ofNat (index + 1)).toNat ≤ lineCount document
  rw [UInt32.toNat_ofNat_of_lt' small]
  omega

/-- Numbers that grow by a count of lines do not wrap around, as long as there are not too
many lines. -/
theorem Scenario.toNat_number_add
    {text : String} {count : Nat} (few : count + lineCount (ofFeature text) < UInt32.size)
    {scenario : Scenario} (member : scenario ∈ ofText text) :
    (scenario.line + UInt32.ofNat count).toNat = scenario.line.toNat + count ∧
      ∀ step ∈ scenario.steps,
        (step.line + UInt32.ofNat count).toNat = step.line.toNat + count := by
  have addsUp : ∀ number ∈ (classified (ofFeature text)).map Line.number,
      (number + UInt32.ofNat count).toNat = number.toNat + count := by
    intro number isNumber
    obtain ⟨line, isLine, rfl⟩ := List.mem_map.mp isNumber
    have bounded := number_le (by omega) isLine
    have small : line.number.toNat + count < UInt32.size := by omega
    rw [UInt32.toNat_add, UInt32.toNat_ofNat_of_lt' (by omega)]
    exact Nat.mod_eq_of_lt small
  obtain ⟨ofScenario, ofSteps⟩ := numbers_of_mem_ofLines member
  exact ⟨addsUp _ ofScenario, fun step isStep => addsUp _ (ofSteps step isStep)⟩

/-- A text that goes on with a header has the scenarios of the continuation, too, with
numbers that count the lines above; a text that goes on in a doc string, which nothing
closes, has no further ones. -/
theorem ofText_continued
    {first second : String}
    (few : lineCount (ofFeature first) + lineCount (ofFeature second) < UInt32.size) :
    ((Reader.ofText first).mode ≠ .docString →
      (∃ line ∈ (classified (ofFeature second)).head?, line.kind.isHeader = true) →
        Scenario.ofText (first ++ "\n" ++ second) =
            Scenario.ofText first ++ (Scenario.ofText second).map
              (Scenario.renumber (· + UInt32.ofNat (lineCount (ofFeature first)))) ∧
          ∀ scenario ∈ Scenario.ofText second,
            (scenario.line + UInt32.ofNat (lineCount (ofFeature first))).toNat =
                scenario.line.toNat + lineCount (ofFeature first) ∧
              ∀ step ∈ scenario.steps,
                (step.line + UInt32.ofNat (lineCount (ofFeature first))).toNat =
                  step.line.toNat + lineCount (ofFeature first)) ∧
      ((Reader.ofText first).mode = .docString →
        (∀ line ∈ kinds (ofFeature second), line.kind ≠ .fence) →
          Scenario.ofText (first ++ "\n" ++ second) = Scenario.ofText first) := by
  have goesOn : GoesOn first second := .of_few few
  refine ⟨?_, Scenario.ofText_unclosed goesOn⟩
  intro outside starts
  refine ⟨Scenario.ofText_join goesOn outside starts, ?_⟩
  intro scenario member
  exact Scenario.toNat_number_add few member

/-- A header below a table, and one in a doc string that stays open. -/
theorem ofText_continued_below_table_and_fence :
    (Reader.ofText "Scenario: a\nGiven x\n| 1 |").mode ≠ .docString ∧
      Scenario.ofText ("Scenario: a\nGiven x\n| 1 |" ++ "\n" ++ "Scenario: b\nAnd y") =
        Scenario.ofText "Scenario: a\nGiven x\n| 1 |" ++
          (Scenario.ofText "Scenario: b\nAnd y").map (Scenario.renumber (· + UInt32.ofNat 3)) ∧
      (Reader.ofText "Scenario: a\nGiven x\n\"\"\"").mode = .docString ∧
      Scenario.ofText ("Scenario: a\nGiven x\n\"\"\"" ++ "\n" ++ "Scenario: b") =
        Scenario.ofText "Scenario: a\nGiven x\n\"\"\"" := by
  have belowTable : (Reader.ofText "Scenario: a\nGiven x\n| 1 |").mode ≠ .docString := by
    decide +kernel
  have count : lineCount (ofFeature "Scenario: a\nGiven x\n| 1 |") = 3 := by decide +kernel
  have fewTable : lineCount (ofFeature "Scenario: a\nGiven x\n| 1 |") +
      lineCount (ofFeature "Scenario: b\nAnd y") < UInt32.size := by
    decide +kernel
  have fewContent : lineCount (ofFeature "Scenario: a\nGiven x\n\"\"\"") +
      lineCount (ofFeature "Scenario: b") < UInt32.size := by
    decide +kernel
  have first : ((classified (ofFeature "Scenario: b\nAnd y")).head?.any
      fun line => line.kind.isHeader) = true := by
    decide +kernel
  have inside : (Reader.ofText "Scenario: a\nGiven x\n\"\"\"").mode = .docString := by
    decide +kernel
  have noFence : ∀ line ∈ kinds (ofFeature "Scenario: b"), line.kind ≠ .fence := by
    decide +kernel
  refine ⟨belowTable, ?_, inside, (ofText_continued fewContent).2 inside noFence⟩
  have continued :=
    ((ofText_continued fewTable).1 belowTable ((Option.any_eq_true _ _).mp first)).1
  rw [count] at continued
  exact continued

end Gherkin

import Mathlib.Data.List.Induction
import Gherkin.Proofs.Feature.Grammar
import Gherkin.Proofs.Feature.Numbering

/-!
Contract: which lines of a stream show in the scenarios that are read off it.

Owns: the zone of a feature that a line stands in, the headers and steps that show, and
that the scenarios show just these, in the order of the stream.
Does not own: what steps hold (`Gherkin.Proofs.Feature.Grammar`).
Main statement: `marks_ofLines`.

Four zones say all that the reading of headers and steps depends on. The state of the
reader is compared with the zone line by line.
-/

set_option autoImplicit false

namespace Gherkin

/-! ## Zones -/

/-- Where in a feature a line stands. -/
inductive Zone where
  /-- Above the first header. -/
  | preamble
  /-- Below a header, and no step stands in between. -/
  | scenario
  /-- Below a step. -/
  | step
  /-- Below the fence that opened a doc string, which is not closed yet. -/
  | docString
deriving DecidableEq, Repr

namespace Zone

/-- The zone below a line of some kind. A fence opens a doc string only below a step. -/
def below : Zone → LineKind → Zone
  | .docString, .fence => .step
  | .docString, _ => .docString
  | _, .header _ => .scenario
  | .scenario, .step _ _ => .step
  | .step, .fence => .docString
  | zone, _ => zone

/-- Whether a line of some kind shows in what is read: a header, or a step below one. -/
def shows : Zone → LineKind → Bool
  | .docString, _ => false
  | _, .header _ => true
  | .scenario, .step _ _ | .step, .step _ _ => true
  | _, _ => false

/-- The zone below some lines. -/
def belowAll (zone : Zone) (lines : List Line) : Zone :=
  lines.foldl (fun zone line => zone.below line.kind) zone

/-- The lines that show of a stream that starts in a zone. -/
def shown : Zone → List Line → List Line
  | _, [] => []
  | zone, line :: lines =>
      (if zone.shows line.kind then [line] else []) ++ shown (zone.below line.kind) lines

theorem belowAll_concat (zone : Zone) (lines : List Line) (line : Line) :
    zone.belowAll (lines ++ [line]) = (zone.belowAll lines).below line.kind := by
  rw [belowAll, List.foldl_append]
  rfl

theorem shows_iff {zone : Zone} {kind : LineKind} :
    zone.shows kind = true ↔
      zone ≠ .docString ∧
        (kind.isHeader = true ∨ kind.isStep = true ∧ zone ≠ .preamble) := by
  cases zone <;> cases kind <;> simp [shows, LineKind.isHeader, LineKind.isStep]

theorem shown_append (zone : Zone) (first second : List Line) :
    zone.shown (first ++ second) = zone.shown first ++ (zone.belowAll first).shown second := by
  induction first generalizing zone with
  | nil => rfl
  | cons line first inductionHypothesis =>
      rw [List.cons_append, shown, shown, inductionHypothesis, List.append_assoc]
      rfl

theorem shown_sublist (zone : Zone) (lines : List Line) : (zone.shown lines).Sublist lines := by
  induction lines generalizing zone with
  | nil => exact List.Sublist.refl _
  | cons line lines inductionHypothesis =>
      have later := inductionHypothesis (zone.below line.kind)
      rw [shown]
      split
      · exact later.cons_cons line
      · exact later.cons line

/-- A line shows just when the zone below the lines above shows its kind. -/
theorem mem_shown_iff {zone : Zone} {lines : List Line} {line : Line} :
    line ∈ zone.shown lines ↔
      ∃ above behind, lines = above ++ line :: behind ∧
        (zone.belowAll above).shows line.kind = true := by
  constructor
  · intro member
    induction lines generalizing zone with
    | nil => exact absurd member List.not_mem_nil
    | cons first lines inductionHypothesis =>
        rcases List.mem_append.mp member with here | later
        · have isFirst : zone.shows first.kind = true ∧ line = first := by
            simpa using here
          obtain ⟨isShown, rfl⟩ := isFirst
          exact ⟨[], lines, rfl, isShown⟩
        · obtain ⟨above, behind, rfl, isShown⟩ := inductionHypothesis later
          exact ⟨first :: above, behind, rfl, isShown⟩
  · rintro ⟨above, behind, rfl, isShown⟩
    rw [shown_append, shown, if_pos isShown]
    simp

/-- The preamble ends at the first header. -/
theorem belowAll_preamble_iff {lines : List Line} :
    preamble.belowAll lines ≠ .preamble ↔
      ∃ above header behind, lines = above ++ header :: behind ∧
        preamble.belowAll above ≠ .docString ∧ header.kind.isHeader = true := by
  induction lines using List.reverseRecOn with
  | nil => simp [belowAll]
  | append_singleton lines last inductionHypothesis =>
      rw [belowAll_concat]
      constructor
      · intro left
        by_cases still : preamble.belowAll lines = .preamble
        · rw [still] at left
          refine ⟨lines, last, [], rfl, by rw [still]; decide, ?_⟩
          cases kind : last.kind with
          | header => rfl
          | step | fence | row | other => simp [kind, below] at left
        · obtain ⟨above, header, behind, rfl, outside, isHeader⟩ :=
            inductionHypothesis.mp still
          exact ⟨above, header, behind ++ [last], by simp, outside, isHeader⟩
      · rintro ⟨above, header, behind, split, outside, isHeader⟩
        rcases List.eq_nil_or_concat behind with rfl | ⟨between, other, rfl⟩
        · obtain ⟨rfl, same⟩ := List.append_inj' split rfl
          obtain rfl := List.singleton_inj.mp same
          cases zone : preamble.belowAll lines <;> cases kind : last.kind <;>
            simp_all [below, LineKind.isHeader]
        · have splitLines : lines = above ++ header :: between := by
            have whole : lines ++ [last] = (above ++ header :: between) ++ [other] := by
              simpa using split
            exact (List.append_inj' whole rfl).1
          have notPreamble := inductionHypothesis.mpr
            ⟨above, header, between, splitLines, outside, isHeader⟩
          cases zone : preamble.belowAll lines <;> cases kind : last.kind <;>
            simp_all [below]

end Zone

/-! ## Marks -/

/-- A header or a step as it shows: its line's number and what the line says. -/
structure Mark where
  number : UInt32
  kind : LineKind
deriving DecidableEq, Repr

def Line.mark (line : Line) : Mark :=
  ⟨line.number, line.kind⟩

def Step.mark (step : Step) : Mark :=
  ⟨step.line, .step step.keyword step.text⟩

/-- The header of a scenario and its steps. -/
def Scenario.marks (scenario : Scenario) : List Mark :=
  ⟨scenario.line, .header scenario.name⟩ :: scenario.steps.map Step.mark

/-! ## The reader in its zone -/

namespace Reader

theorem Mode.neutral_ne_docString : Mode.neutral ≠ .docString := by decide

theorem Mode.dataTable_ne_docString : Mode.dataTable ≠ .docString := by decide

/-- The state of the reader at a line in a zone. -/
inductive StandsIn : Reader → Zone → Prop where
  | preamble {doneRev : List Scenario} {mode : Mode} {docLinesRev : List String}
      (outside : mode ≠ .docString) :
      StandsIn ⟨doneRev, none, mode, docLinesRev⟩ .preamble
  | scenario {doneRev : List Scenario} {name : String} {line : UInt32} {mode : Mode}
      {docLinesRev : List String} (outside : mode ≠ .docString) :
      StandsIn ⟨doneRev, some ⟨name, line, []⟩, mode, docLinesRev⟩ .scenario
  | step {doneRev : List Scenario} {name : String} {line : UInt32} {newest : Step}
      {stepsRev : List Step} {mode : Mode} {docLinesRev : List String}
      (outside : mode ≠ .docString) :
      StandsIn ⟨doneRev, some ⟨name, line, newest :: stepsRev⟩, mode, docLinesRev⟩ .step
  | docString {doneRev : List Scenario} {name : String} {line : UInt32} {newest : Step}
      {stepsRev : List Step} {docLinesRev : List String} :
      StandsIn ⟨doneRev, some ⟨name, line, newest :: stepsRev⟩, .docString, docLinesRev⟩
        .docString

theorem standsIn_start : StandsIn {} .preamble :=
  .preamble Mode.neutral_ne_docString

/-- The reader is in the mode of doc strings just in their zone. -/
theorem StandsIn.mode_eq_docString_iff
    {reader : Reader} {zone : Zone} (stands : reader.StandsIn zone) :
    reader.mode = .docString ↔ zone = .docString := by
  cases stands with
  | preamble outside | scenario outside | step outside => simpa using outside
  | docString => simp

/-- What shows of the lines read so far. -/
def marks (reader : Reader) : List Mark :=
  reader.scenarios.flatMap Scenario.marks

theorem marks_within
    (doneRev : List Scenario) (draft : Draft) (mode : Mode) (docLinesRev : List String) :
    marks ⟨doneRev, some draft, mode, docLinesRev⟩ =
      doneRev.reverse.flatMap Scenario.marks ++ draft.scenario.marks := by
  simp [marks, scenarios]

/-- A new newest step adds its mark. -/
theorem Draft.marks_cons (name : String) (line : UInt32) (step : Step) (stepsRev : List Step) :
    (Draft.scenario ⟨name, line, step :: stepsRev⟩).marks =
      (Draft.scenario ⟨name, line, stepsRev⟩).marks ++ [step.mark] := by
  simp [Draft.scenario, Scenario.marks]

/-- What reading a line in a zone comes to: the reader stands in the zone below the line,
and has one mark more if the line shows. -/
structure Advances (reader : Reader) (zone : Zone) (line : Line) (next : Reader) : Prop where
  stands : next.StandsIn (zone.below line.kind)
  marks : next.marks = reader.marks ++ if zone.shows line.kind then [line.mark] else []

namespace StandsIn

variable {reader : Reader} {zone : Zone}

theorem openScenario
    (stands : reader.StandsIn zone) (outside : reader.mode ≠ .docString)
    (name raw : String) (number : UInt32) :
    reader.Advances zone ⟨.header name, raw, number⟩ (reader.openScenario name number) := by
  have opened : (reader.openScenario name number).marks =
      reader.marks ++ [⟨number, .header name⟩] := by
    simp [Reader.marks, Reader.scenarios, Reader.openScenario, Draft.scenario, Scenario.marks]
  cases stands with
  | docString => exact absurd rfl outside
  | preamble | scenario | step => exact ⟨.scenario Mode.neutral_ne_docString, opened⟩

theorem addStep
    (stands : reader.StandsIn zone) (outside : reader.mode ≠ .docString)
    (keyword : Keyword) (text raw : String) (number : UInt32) :
    reader.Advances zone ⟨.step keyword text, raw, number⟩
      (reader.addStep keyword text number) := by
  cases stands with
  | docString => exact absurd rfl outside
  | preamble _ => exact ⟨.preamble outside, (List.append_nil _).symm⟩
  | scenario | step =>
      refine ⟨.step Mode.neutral_ne_docString, ?_⟩
      rw [Reader.addStep, marks_within, marks_within, Draft.marks_cons, ← List.append_assoc]
      rfl

theorem openDocString
    (stands : reader.StandsIn zone) (outside : reader.mode ≠ .docString)
    (raw : String) (number : UInt32) :
    reader.Advances zone ⟨.fence, raw, number⟩ reader.openDocString := by
  cases stands with
  | docString => exact absurd rfl outside
  | preamble _ => exact ⟨.preamble outside, (List.append_nil _).symm⟩
  | scenario _ => exact ⟨.scenario outside, (List.append_nil _).symm⟩
  | step _ =>
      refine ⟨.docString, ?_⟩
      show marks ⟨_, some _, _, _⟩ = _
      rw [marks_within, marks_within, Draft.marks_cons, Draft.marks_cons]
      exact (List.append_nil _).symm

theorem addRow
    (stands : reader.StandsIn zone) (outside : reader.mode ≠ .docString)
    (cells : List String) (raw : String) (number : UInt32) :
    reader.Advances zone ⟨.row cells, raw, number⟩ (reader.addRow cells) := by
  cases stands with
  | docString => exact absurd rfl outside
  | preamble _ => exact ⟨.preamble outside, (List.append_nil _).symm⟩
  | scenario _ => exact ⟨.scenario outside, (List.append_nil _).symm⟩
  | step _ =>
      refine ⟨.step Mode.dataTable_ne_docString, ?_⟩
      show marks ⟨_, some _, _, _⟩ = _
      rw [marks_within, marks_within, Draft.marks_cons, Draft.marks_cons]
      exact (List.append_nil _).symm

theorem passOver
    (stands : reader.StandsIn zone) (outside : reader.mode ≠ .docString)
    (raw : String) (number : UInt32) : reader.Advances zone ⟨.other, raw, number⟩ reader := by
  cases stands with
  | docString => exact absurd rfl outside
  | preamble _ => exact ⟨.preamble outside, (List.append_nil _).symm⟩
  | scenario _ => exact ⟨.scenario outside, (List.append_nil _).symm⟩
  | step _ => exact ⟨.step outside, (List.append_nil _).symm⟩

theorem settled
    (stands : reader.StandsIn zone) (outside : reader.mode ≠ .docString)
    (kind : LineKind) :
    (reader.settled kind).StandsIn zone ∧ (reader.settled kind).mode ≠ .docString ∧
      (reader.settled kind).marks = reader.marks := by
  unfold Reader.settled
  split
  · refine ⟨?_, Mode.neutral_ne_docString, rfl⟩
    cases stands with
    | docString => exact absurd rfl outside
    | preamble => exact .preamble Mode.neutral_ne_docString
    | scenario => exact .scenario Mode.neutral_ne_docString
    | step => exact .step Mode.neutral_ne_docString
  · exact ⟨stands, outside, rfl⟩

/-- Outside doc strings a line is read as its kind says. -/
theorem readPlain
    (stands : reader.StandsIn zone) (outside : reader.mode ≠ .docString) (line : Line) :
    reader.Advances zone line (reader.readPlain line) := by
  obtain ⟨kind, raw, number⟩ := line
  obtain ⟨settled, stillOutside, sameMarks⟩ := stands.settled outside kind
  have advances : (reader.settled kind).Advances zone ⟨kind, raw, number⟩
      (reader.readPlain ⟨kind, raw, number⟩) := by
    cases kind with
    | header name => exact settled.openScenario stillOutside name raw number
    | step keyword text => exact settled.addStep stillOutside keyword text raw number
    | fence => exact settled.openDocString stillOutside raw number
    | row cells => exact settled.addRow stillOutside cells raw number
    | other => exact settled.passOver stillOutside raw number
  exact ⟨advances.stands, sameMarks ▸ advances.marks⟩

/-- In a doc string only the closing fence matters. -/
theorem readContent
    (stands : reader.StandsIn zone) (inside : reader.mode = .docString) (line : Line) :
    reader.Advances zone line (reader.read line) := by
  obtain ⟨kind, raw, number⟩ := line
  cases stands with
  | preamble outside | scenario outside | step outside => exact absurd inside outside
  | docString =>
      cases kind with
      | fence =>
          refine ⟨.step Mode.neutral_ne_docString, ?_⟩
          show marks ⟨_, some _, _, _⟩ = _
          rw [marks_within, marks_within, Draft.marks_cons, Draft.marks_cons]
          exact (List.append_nil _).symm
      | header | step | row | other => exact ⟨.docString, (List.append_nil _).symm⟩

theorem read (stands : reader.StandsIn zone) (line : Line) :
    reader.Advances zone line (reader.read line) := by
  by_cases inside : reader.mode = .docString
  · exact stands.readContent inside line
  · rw [Reader.read, if_neg inside]
    exact stands.readPlain inside line

theorem readAll (stands : reader.StandsIn zone) (lines : List Line) :
    (reader.readAll lines).StandsIn (zone.belowAll lines) := by
  induction lines generalizing reader zone with
  | nil => exact stands
  | cons line lines inductionHypothesis => exact inductionHypothesis (stands.read line).stands

/-- The lines that show are the marks that reading adds. -/
theorem marks_readAll (stands : reader.StandsIn zone) (lines : List Line) :
    (reader.readAll lines).marks = reader.marks ++ (zone.shown lines).map Line.mark := by
  induction lines generalizing reader zone with
  | nil => exact (List.append_nil _).symm
  | cons line lines inductionHypothesis =>
      have advances := stands.read line
      rw [readAll_cons, inductionHypothesis advances.stands, advances.marks, Zone.shown,
        List.map_append, List.append_assoc]
      split <;> rfl

end StandsIn

end Reader

/-- The scenarios of a stream show its headers outside doc strings, and the steps below
them, in order. -/
theorem Scenario.marks_ofLines (lines : List Line) :
    (ofLines lines).flatMap marks = (Zone.preamble.shown lines).map Line.mark :=
  Reader.standsIn_start.marks_readAll lines

end Gherkin

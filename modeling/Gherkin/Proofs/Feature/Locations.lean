import Mathlib.Data.List.Nodup
import Gherkin.Proofs.Feature.Joining
import Gherkin.Proofs.Feature.Offsets
import Gherkin.Proofs.Feature.Zone

/-!
Contract: the line numbers of what is read lead back to the lines of the text.

Owns: the lines of a text that open scenarios, the lines that are content of doc strings,
and that scenarios and steps carry the numbers of just the lines they were read from.
Does not own: which lines show (`Gherkin.Proofs.Feature.Zone`) and how a line is found by
its number (`Gherkin.Proofs.Feature.Offsets`).
Main statement: `ofText_located`.
-/

set_option autoImplicit false

namespace Gherkin

namespace Document

/-! ## Lines by their numbers -/

/-- What the line with a number says by itself. -/
def kindAt? (document : Document) (number : UInt32) : Option LineKind :=
  (document.line? number).map LineKind.ofText

/-- The zone that the lines above the one with this number leave. -/
def zoneAt (document : Document) (number : UInt32) : Zone :=
  Zone.preamble.belowAll (document.kinds.take (number.toNat - 1))

/-- The line with this number is content of a doc string: it stands in one, and is not the
fence that closes it. -/
def IsContent (document : Document) (number : UInt32) : Prop :=
  document.zoneAt number = .docString ∧ document.kindAt? number ≠ some .fence

/-- The line with this number is a header and no content of a doc string. -/
def OpensScenario (document : Document) (number : UInt32) : Prop :=
  (∃ name, document.kindAt? number = some (.header name)) ∧ ¬ document.IsContent number

variable {document : Document}

theorem getElem?_kinds (few : document.lineCount < UInt32.size) (index : Nat) :
    document.kinds[index]? = document.pieces[index]?.map fun piece =>
      let raw := String.ofList (withoutReturns piece)
      ⟨.ofText raw, raw, .ofNat (index + 1)⟩ := by
  rw [kinds, lines_eq_mapIdx, take_pieces_of_few few, List.getElem?_map, List.getElem?_mapIdx,
    Option.map_map]
  rfl

/-- As long as numbers do not wrap around, the lines stand in the order of their numbers,
and each is found by its own. -/
theorem getElem?_kinds_eq_some_iff
    (few : document.lineCount < UInt32.size) {index : Nat} {line : Line} :
    document.kinds[index]? = some line ↔
      line.number.toNat = index + 1 ∧ document.line? line.number = some line.raw ∧
        line.kind = .ofText line.raw := by
  rw [getElem?_kinds few, Option.map_eq_some_iff]
  constructor
  · rintro ⟨piece, isPiece, rfl⟩
    have counts := toNat_number few isPiece
    dsimp only
    exact ⟨counts, line?_eq_some_iff.mpr ⟨index, piece, counts, isPiece, rfl⟩, rfl⟩
  · rintro ⟨counts, found, isKind⟩
    obtain ⟨other, piece, otherCounts, isPiece, isRaw⟩ := line?_eq_some_iff.mp found
    obtain rfl : other = index := by omega
    refine ⟨piece, isPiece, ?_⟩
    have sameNumber : UInt32.ofNat (other + 1) = line.number :=
      UInt32.toNat_inj.mp ((toNat_number few isPiece).trans counts.symm)
    show Line.mk _ (String.ofList (withoutReturns piece)) (UInt32.ofNat (other + 1)) = line
    rw [← isRaw, ← isKind, sameNumber]

theorem kindAt?_of_getElem?
    (few : document.lineCount < UInt32.size) {index : Nat} {line : Line}
    (isLine : document.kinds[index]? = some line) :
    document.kindAt? line.number = some line.kind := by
  obtain ⟨-, found, isKind⟩ := (getElem?_kinds_eq_some_iff few).mp isLine
  rw [kindAt?, found, isKind]
  rfl

theorem exists_getElem?_of_kindAt?
    (few : document.lineCount < UInt32.size) {number : UInt32} {kind : LineKind}
    (isKind : document.kindAt? number = some kind) :
    ∃ raw, document.kinds[number.toNat - 1]? = some ⟨kind, raw, number⟩ := by
  obtain ⟨raw, found, rfl⟩ := Option.map_eq_some_iff.mp isKind
  obtain ⟨index, piece, counts, -, -⟩ := line?_eq_some_iff.mp found
  refine ⟨raw, (getElem?_kinds_eq_some_iff few).mpr ⟨?_, found, rfl⟩⟩
  rw [counts]
  rfl

theorem pairwise_kinds (few : document.lineCount < UInt32.size) :
    document.kinds.Pairwise fun a b => a.number < b.number := by
  rw [List.pairwise_iff_getElem]
  intro i j isLine isLater before
  obtain ⟨counts, -⟩ :=
    (getElem?_kinds_eq_some_iff few).mp (List.getElem?_eq_getElem isLine)
  obtain ⟨laterCounts, -⟩ :=
    (getElem?_kinds_eq_some_iff few).mp (List.getElem?_eq_getElem isLater)
  rw [UInt32.lt_iff_toNat_lt, counts, laterCounts]
  omega

/-! ## Lines above a line -/

theorem eq_append_of_getElem?
    {α : Type} {items : List α} {index : Nat} {item : α} (isItem : items[index]? = some item) :
    items = items.take index ++ item :: items.drop (index + 1) := by
  obtain ⟨inside, rfl⟩ := List.getElem?_eq_some_iff.mp isItem
  rw [← List.drop_eq_getElem_cons inside, List.take_append_drop]

/-- The lines above a line are those that its number counts. -/
theorem take_of_kinds_eq_append
    (few : document.lineCount < UInt32.size) {above behind : List Line} {line : Line}
    (split : document.kinds = above ++ line :: behind) :
    document.kinds.take (line.number.toNat - 1) = above ∧
      document.kindAt? line.number = some line.kind := by
  have isLine : document.kinds[above.length]? = some line := by
    rw [split]
    simp
  obtain ⟨counts, -⟩ := (getElem?_kinds_eq_some_iff few).mp isLine
  refine ⟨?_, kindAt?_of_getElem? few isLine⟩
  rw [counts, split]
  simp

/-- A line is among those that show just when the zone it stands in shows its kind. -/
theorem mem_shown_iff
    (few : document.lineCount < UInt32.size) {number : UInt32} {kind : LineKind}
    (isKind : document.kindAt? number = some kind) :
    number ∈ (Zone.preamble.shown document.kinds).map Line.number ↔
      (document.zoneAt number).shows kind = true := by
  constructor
  · intro member
    obtain ⟨line, isShown, rfl⟩ := List.mem_map.mp member
    obtain ⟨above, behind, split, shows⟩ := Zone.mem_shown_iff.mp isShown
    obtain ⟨isAbove, sameKind⟩ := take_of_kinds_eq_append few split
    obtain rfl := Option.some.inj (isKind.symm.trans sameKind)
    rw [zoneAt, isAbove]
    exact shows
  · intro shows
    obtain ⟨raw, isLine⟩ := exists_getElem?_of_kindAt? few isKind
    have split := eq_append_of_getElem? isLine
    exact List.mem_map.mpr ⟨_, Zone.mem_shown_iff.mpr ⟨_, _, split, shows⟩, rfl⟩

/-- Any line but a fence is content just when it stands in a doc string. -/
theorem isContent_iff
    {number : UInt32} {kind : LineKind} (isKind : document.kindAt? number = some kind)
    (notFence : kind ≠ .fence) :
    document.IsContent number ↔ document.zoneAt number = .docString := by
  have noFence : document.kindAt? number ≠ some .fence := by
    rw [isKind]
    exact fun same => notFence (Option.some.inj same)
  exact and_iff_left noFence

/-- A line stands below the preamble just when a line above it opens a scenario. -/
theorem zoneAt_ne_preamble_iff
    (few : document.lineCount < UInt32.size) {number : UInt32} {kind : LineKind}
    (isKind : document.kindAt? number = some kind) :
    document.zoneAt number ≠ .preamble ↔
      ∃ header, header < number ∧ document.OpensScenario header := by
  obtain ⟨raw, isLine⟩ := exists_getElem?_of_kindAt? few isKind
  have split := eq_append_of_getElem? isLine
  rw [zoneAt, Zone.belowAll_preamble_iff]
  constructor
  · rintro ⟨above, header, between, splitAbove, outside, isHeader⟩
    have ordered := pairwise_kinds few
    rw [split, splitAbove, List.pairwise_append] at ordered
    have before : header.number < number :=
      ordered.2.2 header (by simp) ⟨kind, raw, number⟩ List.mem_cons_self
    rw [splitAbove, List.append_assoc, List.cons_append] at split
    obtain ⟨isAbove, headerKind⟩ := take_of_kinds_eq_append few split
    cases isName : header.kind with
    | header name =>
        rw [isName] at headerKind
        refine ⟨header.number, before, ⟨name, headerKind⟩, ?_⟩
        rw [isContent_iff headerKind nofun, zoneAt, isAbove]
        exact outside
    | step | fence | row | other =>
        rw [isName] at isHeader
        exact absurd isHeader Bool.false_ne_true
  · rintro ⟨header, before, ⟨name, headerKind⟩, notContent⟩
    obtain ⟨headerRaw, isHeader⟩ := exists_getElem?_of_kindAt? few headerKind
    obtain ⟨headerCounts, -⟩ := (getElem?_kinds_eq_some_iff few).mp isHeader
    have earlier : header.toNat - 1 < number.toNat - 1 := by
      have less := UInt32.lt_iff_toNat_lt.mp before
      simp only at headerCounts
      omega
    have isAbove : (document.kinds.take (number.toNat - 1))[header.toNat - 1]? =
        some ⟨.header name, headerRaw, header⟩ := by
      rw [List.getElem?_take, if_pos earlier, isHeader]
    refine ⟨_, _, _, eq_append_of_getElem? isAbove, ?_, rfl⟩
    rw [isContent_iff headerKind nofun, zoneAt] at notContent
    rw [List.take_take, Nat.min_eq_left (Nat.le_of_lt earlier)]
    exact notContent

end Document

open Document

/-! ## Numbers of what is read -/

/-- The scenarios of a text show its headers and steps. -/
theorem marks_ofText (text : String) :
    (Scenario.ofText text).flatMap Scenario.marks =
      (Zone.preamble.shown (kinds (ofFeature text))).map Line.mark := by
  rw [← Scenario.marks_ofLines, ofText_eq_ofLines]

theorem pairwise_shown
    {document : Document} (few : document.lineCount < UInt32.size) :
    (Zone.preamble.shown document.kinds).Pairwise fun a b => a.number < b.number :=
  (pairwise_kinds few).sublist (Zone.shown_sublist _ _)

/-- The numbers of the scenarios of a text and of their steps increase, each leads back to
the line that says what was read, and every header and step of the text that is no content
and not in the preamble is found once. -/
theorem ofText_located (text : String) (few : lineCount (ofFeature text) < UInt32.size) :
    let marks := (Scenario.ofText text).flatMap Scenario.marks
    marks.Pairwise (fun a b => a.number < b.number) ∧
      (∀ mark ∈ marks, (ofFeature text).kindAt? mark.number = some mark.kind) ∧
      ∀ number kind, (ofFeature text).kindAt? number = some kind →
        ((marks.map Mark.number).count number = 1 ↔
          ¬ (ofFeature text).IsContent number ∧
            (kind.isHeader = true ∨
              kind.isStep = true ∧
                ∃ header, header < number ∧ (ofFeature text).OpensScenario header)) := by
  intro marks
  have isMarks : marks = (Zone.preamble.shown (kinds (ofFeature text))).map Line.mark :=
    marks_ofText text
  have ordered : marks.Pairwise fun a b => a.number < b.number := by
    rw [isMarks, List.pairwise_map]
    exact pairwise_shown few
  refine ⟨ordered, ?_, ?_⟩
  · intro mark member
    rw [isMarks] at member
    obtain ⟨line, isShown, rfl⟩ := List.mem_map.mp member
    obtain ⟨above, behind, split, -⟩ := Zone.mem_shown_iff.mp isShown
    exact (take_of_kinds_eq_append few split).2
  · intro number kind isKind
    have sameNumbers : marks.map Mark.number =
        (Zone.preamble.shown (kinds (ofFeature text))).map Line.number := by
      rw [isMarks, List.map_map]
      rfl
    have distinct : (marks.map Mark.number).Nodup := by
      rw [List.Nodup, List.pairwise_map]
      exact ordered.imp fun less same => by
        rw [same] at less
        exact absurd less (UInt32.lt_irrefl _)
    have once : (marks.map Mark.number).count number = 1 ↔ number ∈ marks.map Mark.number :=
      ⟨fun isOne => List.count_pos_iff.mp (isOne ▸ Nat.one_pos),
        List.count_eq_one_of_mem distinct⟩
    rw [once, sameNumbers, mem_shown_iff few isKind, Zone.shows_iff,
      zoneAt_ne_preamble_iff few isKind]
    apply and_congr_left
    intro isShown
    have notFence : kind ≠ .fence := by
      rintro rfl
      simp [LineKind.isHeader, LineKind.isStep] at isShown
    rw [isContent_iff isKind notFence]

/-- A step above the first header, and a header in a doc string. -/
theorem ofText_located_around_docString :
    let text := "Given x\nScenario: a\nWhen y\n\"\"\"\nScenario: b\n\"\"\"\nAnd z"
    let numbers := ((Scenario.ofText text).flatMap Scenario.marks).map Mark.number
    lineCount (ofFeature text) < UInt32.size ∧
      numbers.count 1 ≠ 1 ∧ numbers.count 5 ≠ 1 ∧ numbers.count 7 = 1 := by
  intro text numbers
  have few : lineCount (ofFeature text) < UInt32.size := by decide +kernel
  obtain ⟨-, -, found⟩ := ofText_located text few
  have early : (ofFeature text).kindAt? 1 = some (.step (.names .context) "x") := by
    decide +kernel
  have content : (ofFeature text).kindAt? 5 = some (.header "b") ∧
      (ofFeature text).zoneAt 5 = .docString := by
    decide +kernel
  have last : (ofFeature text).kindAt? 7 = some (.step .and "z") ∧
      (ofFeature text).zoneAt 7 ≠ .docString := by
    decide +kernel
  have header : (ofFeature text).kindAt? 2 = some (.header "a") ∧
      (ofFeature text).zoneAt 2 ≠ .docString := by
    decide +kernel
  refine ⟨few, ?_, ?_, ?_⟩
  · rw [Ne, found 1 _ early]
    rintro ⟨-, isHeader | ⟨-, above, before, ⟨name, isHeader⟩, -⟩⟩
    · exact absurd isHeader Bool.false_ne_true
    · have isZero : above = 0 :=
        UInt32.toNat_inj.mp (Nat.lt_one_iff.mp (UInt32.lt_iff_toNat_lt.mp before))
      subst isZero
      cases isHeader
  · rw [Ne, found 5 _ content.1]
    intro shown
    exact shown.1 ((isContent_iff content.1 nofun).mpr content.2)
  · refine (found 7 _ last.1).mpr ⟨?_, .inr ⟨rfl, 2, by decide, ⟨"a", header.1⟩, ?_⟩⟩
    · rw [isContent_iff last.1 nofun]
      exact last.2
    · rw [isContent_iff header.1 nofun]
      exact header.2

end Gherkin

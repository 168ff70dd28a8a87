import Gherkin.Proofs.Feature.Offsets
import Gherkin.Proofs.Text.Trimming

/-!
Contract: the lines of a document are the pieces of its text between line feeds.

Owns: that the bounds of a line are places in the text, which numbers have a line, the
carriage returns that a line loses, the numbered lines in order, and when they join to the
text.
Does not own: that the stretch between the bounds is a piece (`Gherkin.Proofs.Feature.Offsets`).
Main statement: `lines_by_number`.
-/

set_option autoImplicit false

namespace Gherkin.Document

variable {document : Document}

/-- A line lacks the carriage returns at the end of its piece, all of them and nothing else. -/
theorem eq_withoutReturns_iff {raw : String} {piece : List Char} :
    raw = String.ofList (withoutReturns piece) ↔
      ∃ count, piece = raw.toList ++ List.replicate count '\r' ∧
        raw.toList.getLast? ≠ some '\r' := by
  rw [← Text.dropEndWhile_eq_iff]
  constructor
  · rintro rfl
    exact String.toList_ofList.symm
  · intro dropped
    rw [withoutReturns, dropped, String.ofList_toList]

theorem withoutReturns_eq_self {cs : List Char} (noReturn : cs.getLast? ≠ some '\r') :
    withoutReturns cs = cs :=
  Text.dropEndWhile_eq_iff.mpr ⟨0, (List.append_nil cs).symm, noReturn⟩

/-- Between the bounds of a line there is a stretch of the text. -/
theorem isSome_slice?_of_bounds?
    {index : Nat} {bounds : Nat × Nat} (areBounds : document.bounds? index = some bounds) :
    (Text.slice? bounds.1 bounds.2 document.text.toList).isSome = true := by
  have stretch := stretch?_startsOf document.text.toList index
  have isLine : index < document.pieces.length := by
    obtain ⟨start, isStart, -⟩ := Option.map_eq_some_iff.mp areBounds
    obtain ⟨inside, -⟩ := List.getElem?_eq_some_iff.mp isStart
    rw [length_pieces]
    exact inside
  have sameBounds : boundsOf? document.text.utf8ByteSize (startsOf document.text.toList) index =
      some bounds := areBounds
  rw [stretch?, String.ofList_toList, sameBounds, Option.bind_some] at stretch
  have isPiece := List.getElem?_eq_getElem isLine
  rw [stretch.trans isPiece]
  rfl

theorem line?_eq_none_iff {number : UInt32} :
    document.line? number = none ↔ number = 0 ∨ document.lineCount < number.toNat := by
  cases counts : number.toNat with
  | zero =>
      obtain rfl : number = 0 := UInt32.toNat_inj.mp counts
      simp [line?_zero]
  | succ index =>
      have notZero : number ≠ 0 := by
        rintro rfl
        cases counts
      rw [line?_eq document index counts, Option.map_eq_none_iff, List.getElem?_eq_none_iff,
        length_pieces, or_iff_right notZero, Nat.lt_succ_iff]

/-- The lines in order are those found by the numbers from one on. -/
theorem lines_eq (few : document.lineCount < UInt32.size) :
    (document.lines.map fun line => (line.1.toNat, some line.2)) =
      (List.range' 1 document.lineCount).map fun number =>
        (number, document.line? (UInt32.ofNat number)) := by
  apply List.ext_getElem?
  intro index
  rw [List.getElem?_map, List.getElem?_map, lines_eq_mapIdx, take_pieces_of_few few,
    List.getElem?_mapIdx, Option.map_map]
  cases isPiece : document.pieces[index]? with
  | none =>
      have outside := List.getElem?_eq_none_iff.mp isPiece
      rw [length_pieces] at outside
      rw [List.getElem?_eq_none_iff.mpr (by simpa using outside)]
      rfl
  | some piece =>
      have counts := toNat_number few isPiece
      have found := line?_eq document index counts
      obtain ⟨inside, -⟩ := List.getElem?_eq_some_iff.mp isPiece
      rw [length_pieces] at inside
      rw [isPiece] at found
      rw [List.getElem?_range' inside, Nat.one_mul, Nat.add_comm 1 index, Option.map_some,
        Option.map_some, found, Function.comp_apply, counts]
      rfl

/-- No carriage return stands where a line ends. -/
def KeepsReturns (document : Document) : Prop :=
  ¬ ['\r', '\n'] <:+: document.text.toList ∧ document.text.toList.getLast? ≠ some '\r'

theorem KeepsReturns.withoutReturns_eq
    (keeps : document.KeepsReturns) {piece : List Char} (isPiece : piece ∈ document.pieces) :
    withoutReturns piece = piece := by
  apply withoutReturns_eq_self
  intro last
  obtain ⟨front, rfl⟩ := List.getLast?_eq_some_iff.mp last
  rcases Text.ends_of_mem_splitOn isPiece with inside | atEnd
  · rw [List.append_assoc] at inside
    exact keeps.1 ((List.suffix_append front _).isInfix.trans inside)
  · obtain ⟨before, whole⟩ := atEnd
    apply keeps.2
    rw [← whole, ← List.append_assoc, List.getLast?_concat]

theorem join_lines
    (few : document.lineCount < UInt32.size) (keeps : document.KeepsReturns) :
    Text.join "\n" (document.lines.map Prod.snd) = document.text := by
  have raws : document.lines.map Prod.snd = Text.split '\n' document.text := by
    apply List.ext_getElem?
    intro index
    rw [List.getElem?_map, lines_eq_mapIdx, take_pieces_of_few few, List.getElem?_mapIdx,
      Text.split, List.getElem?_map, Option.map_map]
    apply Option.map_congr
    intro piece isPiece
    show String.ofList (withoutReturns piece) = String.ofList piece
    rw [keeps.withoutReturns_eq (List.mem_of_getElem? isPiece)]
  rw [raws]
  exact Text.join_split '\n' document.text

/-- In a document with fewer lines than there are numbers, every stretch that is cut out lies
between characters of the text, the numbers from one to the count of lines have a line each,
which is a piece between line feeds without the carriage returns at its end, and these are
the lines in order. They join to the text if no line lost a carriage return. -/
theorem lines_by_number (document : Document) (few : document.lineCount < UInt32.size) :
    (∀ index start stop, document.bounds? index = some (start, stop) →
      start ≤ stop ∧ (String.Pos.Raw.mk start).IsValid document.text ∧
        (String.Pos.Raw.mk stop).IsValid document.text) ∧
      (∀ number, document.line? number = none ↔
        number = 0 ∨ document.lineCount < number.toNat) ∧
      (∀ number raw, document.line? number = some raw ↔
        ∃ index piece count, number.toNat = index + 1 ∧ document.pieces[index]? = some piece ∧
          piece = raw.toList ++ List.replicate count '\r' ∧
            raw.toList.getLast? ≠ some '\r') ∧
      ((document.lines.map fun line => (line.1.toNat, some line.2)) =
        (List.range' 1 document.lineCount).map fun number =>
          (number, document.line? (UInt32.ofNat number))) ∧
      (document.KeepsReturns →
        Text.join "\n" (document.lines.map Prod.snd) = document.text) := by
  refine ⟨?_, fun number => line?_eq_none_iff, ?_, lines_eq few, join_lines few⟩
  · intro index start stop areBounds
    exact Text.isSome_slice?_iff.mp (isSome_slice?_of_bounds? areBounds)
  · intro number raw
    rw [line?_eq_some_iff]
    constructor
    · rintro ⟨index, piece, counts, isPiece, isRaw⟩
      obtain ⟨count, whole, last⟩ := eq_withoutReturns_iff.mp isRaw
      exact ⟨index, piece, count, counts, isPiece, whole, last⟩
    · rintro ⟨index, piece, count, counts, isPiece, whole, last⟩
      exact ⟨index, piece, counts, isPiece, eq_withoutReturns_iff.mpr ⟨count, whole, last⟩⟩

/-- Characters of more than one byte, a carriage return inside a line, and an empty last
line. -/
theorem lines_by_number_of_wide_characters :
    let document : Document := ⟨"f", "é\n\r∀\n"⟩
    document.lineCount < UInt32.size ∧ document.line? 2 = some "\r∀" ∧
      document.line? 3 = some "" ∧ document.line? 4 = none ∧
        Text.join "\n" (document.lines.map Prod.snd) = document.text := by
  intro document
  have few : document.lineCount < UInt32.size := by decide +kernel
  have keeps : document.KeepsReturns := by
    refine ⟨?_, ?_⟩ <;> decide +kernel
  obtain ⟨-, missing, found, -, joined⟩ := lines_by_number document few
  refine ⟨few, ?_, ?_, ?_, joined keeps⟩
  · exact (found 2 _).mpr ⟨1, ['\r', '∀'], 0, rfl, by decide +kernel, rfl, by decide⟩
  · exact (found 3 _).mpr ⟨2, [], 0, rfl, by decide +kernel, rfl, by decide⟩
  · exact (missing 4).mpr (.inr (by decide +kernel))

end Gherkin.Document

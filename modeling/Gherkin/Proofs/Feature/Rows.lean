import Gherkin.Proofs.Feature.Kinds
import Gherkin.Proofs.Text.Trimming

/-!
Contract: the rows of a table as they are written, and their cells.

Owns: what a cell consists of, the blank space that may stand around cells and rows, the
pipe that may be missing at the end of a row, and how many cells a row has.
Does not own: which lines are rows (`Gherkin.Proofs.Feature.Kinds`).
Main statements: `cellsOf_pipe`, `length_cellsOf` and `ofText_padded_row`.
-/

set_option autoImplicit false

namespace Gherkin

/-- A text that holds no pipe and is not blank at either end. Line feeds inside do no harm. -/
structure IsEntry (s : String) : Prop where
  trimmed : Text.trimmed s = s
  pipeless : '|' ∉ s.toList

namespace LineKind

/-- A cell with blank space around it. -/
def Pads (cell : String) (piece : List Char) : Prop :=
  ∃ before behind, (∀ c ∈ before, Text.isBlank c = true) ∧
    (∀ c ∈ behind, Text.isBlank c = true) ∧ piece = before ++ cell.toList ++ behind

/-! ## Pieces between pipes -/

theorem pipe_not_mem_of_blank
    {cs : List Char} (blank : ∀ c ∈ cs, Text.isBlank c = true) : '|' ∉ cs :=
  fun member => absurd (blank '|' member) (by decide)

theorem Pads.trim_eq
    {cell : String} {piece : List Char} (pads : Pads cell piece) (entry : IsEntry cell) :
    Text.trim piece = cell.toList := by
  obtain ⟨before, behind, blankBefore, blankBehind, rfl⟩ := pads
  rw [Text.trim_append_blank _ blankBehind, Text.trim_blank_append blankBefore,
    Text.trim_toList_of_trimmed entry.trimmed]

theorem Pads.pipeless
    {cell : String} {piece : List Char} (pads : Pads cell piece) (entry : IsEntry cell) :
    '|' ∉ piece := by
  obtain ⟨before, behind, blankBefore, blankBehind, rfl⟩ := pads
  simp [pipe_not_mem_of_blank blankBefore, pipe_not_mem_of_blank blankBehind, entry.pipeless]

/-- Pieces that pad cells hold no pipe and are trimmed to the cells. -/
theorem pieces_of_pads
    {cells : List String} {pieces : List (List Char)} (pads : List.Forall₂ Pads cells pieces)
    (entries : ∀ cell ∈ cells, IsEntry cell) :
    (∀ piece ∈ pieces, '|' ∉ piece) ∧ pieces.map Text.trim = cells.map String.toList := by
  induction pads with
  | nil => exact ⟨fun _ member => absurd member List.not_mem_nil, rfl⟩
  | cons first later inductionHypothesis =>
      obtain ⟨entry, laterEntries⟩ := List.forall_mem_cons.mp entries
      obtain ⟨pipeless, trims⟩ := inductionHypothesis laterEntries
      refine ⟨List.forall_mem_cons.mpr ⟨first.pipeless entry, pipeless⟩, ?_⟩
      rw [List.map_cons, List.map_cons, first.trim_eq entry, trims]

/-- Blanks at the end of a line belong to the last piece, and are trimmed with it. -/
theorem map_trim_splitOn_append_blank
    (cs : List Char) {back : List Char} (blank : ∀ c ∈ back, Text.isBlank c = true) :
    ((cs ++ back).splitOn '|').map Text.trim = (cs.splitOn '|').map Text.trim := by
  have noPipe := pipe_not_mem_of_blank blank
  obtain ⟨front, last, whole, absent⟩ := Text.exists_last_piece '|' cs
  have longer : '|' :: (cs ++ back) = front ++ '|' :: (last ++ back) := by
    rw [← List.cons_append, whole, List.append_assoc, List.cons_append]
  have pieces := Text.splitOn_last whole absent
  have longerPieces := Text.splitOn_last longer (by simp [absent, noPipe])
  have sameTrimmed : ([] :: (cs ++ back).splitOn '|').map Text.trim =
      ([] :: cs.splitOn '|').map Text.trim := by
    rw [pieces, longerPieces]
    simp [Text.trim_append_blank last blank]
  exact (List.cons.inj sameTrimmed).2

theorem map_trim_splitOn_trimEnd (cs : List Char) :
    ((Text.trimEnd cs).splitOn '|').map Text.trim = (cs.splitOn '|').map Text.trim := by
  obtain ⟨back, whole, blank⟩ := Text.exists_dropEndWhile Text.isBlank cs
  have same := map_trim_splitOn_append_blank (Text.trimEnd cs) blank
  rw [Text.trimEnd, whole] at same
  exact same.symm

/-! ## The cells of a line -/

theorem exists_piece_of_mem_cellsOf
    {line : List Char} {cell : String} (member : cell ∈ cellsOf line) :
    ∃ piece ∈ line.splitOn '|', cell = String.ofList (Text.trim piece) := by
  obtain ⟨cs, kept, rfl⟩ := List.mem_map.mp member
  have fromFirst : cs ∈ dropEmptyFirst ((line.splitOn '|').map Text.trim) := by
    unfold dropEmptyLast at kept
    split at kept
    · exact List.dropLast_subset _ kept
    · exact kept
  have trimmedPiece : cs ∈ (line.splitOn '|').map Text.trim := by
    unfold dropEmptyFirst at fromFirst
    split at fromFirst
    · next pieces => rw [pieces]; exact List.mem_cons_of_mem [] fromFirst
    · exact fromFirst
  obtain ⟨piece, isPiece, rfl⟩ := List.mem_map.mp trimmedPiece
  exact ⟨piece, isPiece, rfl⟩

theorem isEntry_of_mem_cellsOf
    {line : List Char} {cell : String} (member : cell ∈ cellsOf line) : IsEntry cell := by
  obtain ⟨piece, isPiece, rfl⟩ := exists_piece_of_mem_cellsOf member
  refine ⟨Text.trimmed_ofList_trim piece, ?_⟩
  rw [String.toList_ofList]
  exact fun pipe => Text.not_mem_of_mem_splitOn isPiece ((Text.trim_infix piece).subset pipe)

/-- Nothing stands before the first pipe, so only the last piece may count for nothing. -/
theorem cellsOf_pipe (rest : List Char) :
    cellsOf ('|' :: rest) =
      (dropEmptyLast ((rest.splitOn '|').map Text.trim)).map String.ofList := by
  rw [cellsOf, Text.splitOn_separator]
  rfl

theorem dropEmptyLast_map_toList (cells : List String) :
    dropEmptyLast (cells.map String.toList) =
      (if cells.getLast? = some "" then cells.dropLast else cells).map String.toList := by
  have sameLast : (cells.map String.toList).getLast? = some [] ↔ cells.getLast? = some "" := by
    rw [List.getLast?_map, Option.map_eq_some_iff]
    simp
  unfold dropEmptyLast
  by_cases empty : cells.getLast? = some ""
  · rw [if_pos (sameLast.mpr empty), if_pos empty, List.map_dropLast]
  · rw [if_neg (mt sameLast.mp empty), if_neg empty]

theorem length_dropEmptyLast {cells : List (List Char)} {last : List Char}
    (isLast : cells.getLast? = some last) :
    (dropEmptyLast cells).length + (if last = [] then 1 else 0) = cells.length := by
  obtain ⟨front, rfl⟩ := List.getLast?_eq_some_iff.mp isLast
  unfold dropEmptyLast
  by_cases empty : last = []
  · simp [empty]
  · simp [empty]

/-- A trimmed row has as many cells as pipes, but for a pipe at its end. -/
theorem length_cellsOf
    {rest : List Char} (trimmed : ∀ c ∈ ('|' :: rest).getLast?, Text.isBlank c = false) :
    (cellsOf ('|' :: rest)).length +
        (if ('|' :: rest).getLast? = some '|' then 1 else 0) = ('|' :: rest).count '|' := by
  obtain ⟨front, last, whole, absent⟩ := Text.exists_last_piece '|' rest
  have isLast : ((rest.splitOn '|').map Text.trim).getLast? = some (Text.trim last) := by
    have pieces := congrArg List.getLast? (Text.splitOn_last whole absent)
    rw [List.getLast?_concat, ← List.singleton_append,
      List.getLast?_append_of_ne_nil _ (List.splitOn_ne_nil '|' rest)] at pieces
    rw [List.getLast?_map, pieces, Option.map_some]
  -- The line ends in the pipe of the last piece just when that piece is empty.
  have endsInPipe : ('|' :: rest).getLast? = some '|' ↔ Text.trim last = [] := by
    rw [whole] at trimmed ⊢
    cases last with
    | nil => simp [Text.trim_eq_nil_iff]
    | cons c last =>
        rw [← List.singleton_append, ← List.append_assoc,
          List.getLast?_append_of_ne_nil _ (List.cons_ne_nil c last)] at trimmed ⊢
        constructor
        · exact fun isPipe => absurd (List.mem_of_getLast? isPipe) absent
        · intro blank
          have ends := List.getLast?_eq_some_getLast (List.cons_ne_nil c last)
          have blankEnd := Text.trim_eq_nil_iff.mp blank _ (List.mem_of_getLast? ends)
          rw [trimmed _ ends] at blankEnd
          cases blankEnd
  have count := length_dropEmptyLast isLast
  rw [List.length_map, Text.length_splitOn] at count
  simp only [endsInPipe]
  rw [cellsOf_pipe, List.length_map, count, List.count_cons_self]

/-! ## Rows in lines -/

/-- A line with a pipe in front is a row, whatever blank space surrounds it. -/
theorem ofText_pipe
    {front : List Char} (blank : ∀ c ∈ front, Text.isBlank c = true) (rest : List Char) :
    ofText (String.ofList (front ++ '|' :: rest)) =
      .row ((dropEmptyLast ((rest.splitOn '|').map Text.trim)).map String.ofList) := by
  have gone : Text.trimStart front = [] := List.dropWhile_eq_nil_iff.mpr blank
  have line : Text.trim (front ++ '|' :: rest) = '|' :: Text.trimEnd rest := by
    rw [Text.trim_append_cons (by decide), gone, List.nil_append]
  have passes : Test.row.kind? ('|' :: Text.trimEnd rest) =
      some (.row (cellsOf ('|' :: Text.trimEnd rest))) := by simp [Test.kind?]
  rw [ofText, String.toList_ofList, line, ofTrimmed_of_kind? passes, cellsOf_pipe,
    map_trim_splitOn_trimEnd]

theorem exists_of_ofText_eq_row
    {line : String} {cells : List String} (isRow : ofText line = .row cells) :
    ∃ rest, Text.trim line.toList = '|' :: rest ∧ cells = cellsOf ('|' :: rest) := by
  have passes : Test.row.kind? (Text.trim line.toList) = some (.row cells) :=
    kind?_of_ofTrimmed isRow rfl
  obtain ⟨starts, same⟩ := Option.ite_none_right_eq_some.mp passes
  obtain ⟨rest, whole⟩ := List.head?_eq_some_iff.mp starts
  refine ⟨rest, whole, ?_⟩
  rw [← whole]
  exact (row.inj (Option.some.inj same)).symm

section Padded

variable {cells : List String} {pieces : List (List Char)} {front back : List Char}

theorem splitOn_of_pads
    (nonempty : cells ≠ []) (entries : ∀ cell ∈ cells, IsEntry cell)
    (pads : List.Forall₂ Pads cells pieces) :
    ((['|'].intercalate pieces).splitOn '|').map Text.trim = cells.map String.toList := by
  obtain ⟨pipeless, trims⟩ := pieces_of_pads pads entries
  have nonemptyPieces : pieces ≠ [] := by
    rintro rfl
    cases pads
    exact nonempty rfl
  rw [List.splitOn_intercalate '|' pipeless nonemptyPieces, trims]

/-- Behind the closing pipe stands no cell. -/
theorem ofText_closed_row
    (nonempty : cells ≠ []) (entries : ∀ cell ∈ cells, IsEntry cell)
    (pads : List.Forall₂ Pads cells pieces) (blankFront : ∀ c ∈ front, Text.isBlank c = true)
    (blankBack : ∀ c ∈ back, Text.isBlank c = true) :
    ofText (String.ofList (front ++ '|' :: (['|'].intercalate pieces ++ '|' :: back))) =
      .row cells := by
  have noPipe := pipe_not_mem_of_blank blankBack
  rw [ofText_pipe blankFront, List.splitOn_append_cons_self, List.map_append,
    splitOn_of_pads nonempty entries pads, List.splitOn_eq_singleton noPipe, List.map_singleton,
    Text.trim_eq_nil_iff.mpr blankBack, dropEmptyLast, if_pos List.getLast?_concat,
    List.dropLast_concat, List.map_map, Text.ofList_comp_toList, List.map_id]

/-- Without a closing pipe an empty last cell is not seen. -/
theorem ofText_open_row
    (nonempty : cells ≠ []) (entries : ∀ cell ∈ cells, IsEntry cell)
    (pads : List.Forall₂ Pads cells pieces) (blankFront : ∀ c ∈ front, Text.isBlank c = true)
    (blankBack : ∀ c ∈ back, Text.isBlank c = true) :
    ofText (String.ofList (front ++ '|' :: (['|'].intercalate pieces ++ back))) =
      .row (if cells.getLast? = some "" then cells.dropLast else cells) := by
  rw [ofText_pipe blankFront, map_trim_splitOn_append_blank _ blankBack,
    splitOn_of_pads nonempty entries pads, dropEmptyLast_map_toList, List.map_map,
    Text.ofList_comp_toList, List.map_id]

end Padded

/-- A row is read as the cells it was written with, whatever blank space stands around them
and around the line; only an empty cell at the end needs the closing pipe. The cells that
are read from any line could be written so, and the pipes of the line count them. -/
theorem ofText_padded_row :
    (∀ (cells : List String) (pieces : List (List Char)) (front back : List Char),
      cells ≠ [] → (∀ cell ∈ cells, IsEntry cell) → List.Forall₂ Pads cells pieces →
        (∀ c ∈ front, Text.isBlank c = true) → (∀ c ∈ back, Text.isBlank c = true) →
          ofText (String.ofList (front ++ '|' :: (['|'].intercalate pieces ++ '|' :: back))) =
              .row cells ∧
            ofText (String.ofList (front ++ '|' :: (['|'].intercalate pieces ++ back))) =
              .row (if cells.getLast? = some "" then cells.dropLast else cells)) ∧
      ∀ line cells, ofText line = .row cells →
        (∀ cell ∈ cells, IsEntry cell) ∧
          cells.length + (if (Text.trim line.toList).getLast? = some '|' then 1 else 0) =
            line.toList.count '|' := by
  refine ⟨?_, ?_⟩
  · intro cells pieces front back nonempty entries pads blankFront blankBack
    exact ⟨ofText_closed_row nonempty entries pads blankFront blankBack,
      ofText_open_row nonempty entries pads blankFront blankBack⟩
  · intro line cells isRow
    obtain ⟨rest, whole, rfl⟩ := exists_of_ofText_eq_row isRow
    refine ⟨fun cell member => isEntry_of_mem_cellsOf member, ?_⟩
    have ends := Text.getLast?_trim line.toList
    rw [whole] at ends
    have samePipes : line.toList.count '|' = ('|' :: rest).count '|' := by
      obtain ⟨front, back, blankFront, blankBack, split⟩ := Text.exists_trim line.toList
      rw [split, List.count_append, List.count_append,
        List.count_eq_zero.mpr (pipe_not_mem_of_blank blankFront),
        List.count_eq_zero.mpr (pipe_not_mem_of_blank blankBack), whole, Nat.zero_add,
        Nat.add_zero]
    rw [samePipes, whole]
    exact length_cellsOf ends

/-- Empty cells at both ends, with the closing pipe and without it. -/
theorem ofText_padded_row_with_empty_ends :
    ofText " ||\ta b\u3000|| " = .row ["", "a b", ""] ∧
      ofText " ||\ta b\u3000| " = .row ["", "a b"] ∧
        " ||\ta b\u3000|| ".toList.count '|' = 4 := by
  have entries : ∀ cell ∈ ["", "a b", ""], IsEntry cell := by
    have empty : IsEntry "" := ⟨rfl, by simp⟩
    have inner : IsEntry "a b" := ⟨by decide +kernel, by simp⟩
    simp [empty, inner]
  have space : ∀ c ∈ [' '], Text.isBlank c = true := List.forall_mem_singleton.mpr rfl
  have tab : ∀ c ∈ ['\t'], Text.isBlank c = true := List.forall_mem_singleton.mpr rfl
  have wide : ∀ c ∈ ['\u3000'], Text.isBlank c = true := List.forall_mem_singleton.mpr rfl
  have pads : List.Forall₂ Pads ["", "a b", ""] [[], ['\t', 'a', ' ', 'b', '\u3000'], []] :=
    .cons ⟨[], [], by simp, by simp, rfl⟩
      (.cons ⟨['\t'], ['\u3000'], tab, wide, rfl⟩
        (.cons ⟨[], [], by simp, by simp, rfl⟩ .nil))
  obtain ⟨written, read⟩ := ofText_padded_row
  obtain ⟨closed, opened⟩ := written _ _ [' '] [' '] (by simp) entries pads space space
  obtain ⟨-, counts⟩ := read _ _ closed
  exact ⟨closed, opened, counts.symm⟩

end LineKind

end Gherkin

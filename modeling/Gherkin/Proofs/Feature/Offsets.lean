import Gherkin.Feature.Document
import Gherkin.Proofs.Text.Slicing

/-!
Contract: the line found at an offset is the piece between two line feeds.

Owns: the stretch of a text from one line start to the next, that the line with a number
is the same whether it is looked up by offset or the text is split, and how many of the
pieces are listed.
Does not own: the offsets themselves (`Gherkin.Feature.Document`).
Main statements: `line?_eq`, `line?_eq_some_iff`, and `lines_eq_mapIdx`, the lines listed
are the first of the pieces.
-/

set_option autoImplicit false

namespace Gherkin.Document

/-- The stretch of a text from one of some starts up to the line feed in front of the next
one, or up to the end behind the last. -/
def stretch? (cs : List Char) (starts : List Nat) (index : Nat) : Option (List Char) :=
  (boundsOf? (String.ofList cs).utf8ByteSize starts index).bind fun bounds =>
    Text.slice? bounds.1 bounds.2 cs

/-- The lines of a text as they are found by splitting it. -/
def pieces (document : Document) : List (List Char) :=
  document.text.toList.splitOn '\n'

theorem stretch?_cons (cs : List Char) (start : Nat) (starts : List Nat) (index : Nat) :
    stretch? cs (start :: starts) (index + 1) = stretch? cs starts index := by
  unfold stretch? boundsOf?
  rw [List.getElem?_cons_succ, List.getElem?_cons_succ]

theorem startsAfterFeeds_append
    (offset : Nat) {piece : List Char} (oneLine : '\n' ∉ piece) (cs : List Char) :
    startsAfterFeeds offset (piece ++ cs) =
      startsAfterFeeds (offset + (String.ofList piece).utf8ByteSize) cs := by
  induction piece generalizing offset with
  | nil => rfl
  | cons c piece inductionHypothesis =>
      have notFeed : c ≠ '\n' := fun feed => oneLine (feed ▸ List.mem_cons_self)
      have laterOneLine : '\n' ∉ piece := fun feed => oneLine (List.mem_cons_of_mem c feed)
      rw [List.cons_append, startsAfterFeeds, if_neg notFeed,
        inductionHypothesis (offset + c.utf8Size) laterOneLine, Text.utf8ByteSize_ofList_cons,
        Nat.add_assoc]

theorem startsAfterFeeds_piece
    (offset : Nat) {piece : List Char} (oneLine : '\n' ∉ piece) :
    startsAfterFeeds offset piece = [] := by
  have starts := startsAfterFeeds_append offset oneLine []
  rw [List.append_nil] at starts
  exact starts

theorem startsAfterFeeds_feed
    (offset : Nat) {piece : List Char} (oneLine : '\n' ∉ piece) (cs : List Char) :
    startsAfterFeeds offset (piece ++ '\n' :: cs) =
      let next := offset + (String.ofList piece).utf8ByteSize + 1
      next :: startsAfterFeeds next cs := by
  rw [startsAfterFeeds_append offset oneLine, startsAfterFeeds, if_pos rfl]
  rfl

/-- The stretches between the starts are the pieces that the text is joined from. -/
theorem stretch?_intercalate
    {pieces : List (List Char)} (nonempty : pieces ≠ [])
    (oneLine : ∀ piece ∈ pieces, '\n' ∉ piece) (front : List Char) (index : Nat) :
    let size := (String.ofList front).utf8ByteSize
    stretch? (front ++ ['\n'].intercalate pieces)
        (size :: startsAfterFeeds size (['\n'].intercalate pieces)) index =
      pieces[index]? := by
  intro size
  induction pieces generalizing front index with
  | nil => contradiction
  | cons piece later inductionHypothesis =>
      have first := oneLine piece List.mem_cons_self
      by_cases last : later = []
      · subst last
        rw [List.intercalate_singleton, startsAfterFeeds_piece size first]
        cases index with
        | zero => exact Text.slice?_eq_some_iff.mpr ⟨front, [], by simp, rfl, rfl⟩
        | succ index => rfl
      · let rest := ['\n'].intercalate later
        have whole : ['\n'].intercalate (piece :: later) = piece ++ '\n' :: rest := by
          rw [List.intercalate_cons_of_ne_nil last]
          simp [rest]
        rw [whole, startsAfterFeeds_feed size first]
        cases index with
        | zero =>
            refine Text.slice?_eq_some_iff.mpr ⟨front, '\n' :: rest, by simp, rfl, ?_⟩
            rw [String.ofList_append, String.utf8ByteSize_append]
            rfl
        | succ index =>
            -- What precedes the rest is one line longer.
            let longer := front ++ piece ++ ['\n']
            have behind : front ++ (piece ++ '\n' :: rest) = longer ++ rest := by
              simp [longer]
            have sizeLonger : size + (String.ofList piece).utf8ByteSize + 1 =
                (String.ofList longer).utf8ByteSize := by
              simp only [longer, String.ofList_append, String.utf8ByteSize_append]
              rfl
            have later := inductionHypothesis last
              (fun other member => oneLine other (List.mem_cons_of_mem piece member)) longer index
            dsimp only
            rw [stretch?_cons, behind, sizeLonger, List.getElem?_cons_succ]
            exact later

theorem stretch?_startsOf (cs : List Char) (index : Nat) :
    stretch? cs (startsOf cs) index = (cs.splitOn '\n')[index]? := by
  have stretches := stretch?_intercalate (List.splitOn_ne_nil '\n' cs)
    (fun _ member => Text.not_mem_of_mem_splitOn member) [] index
  rw [List.intercalate_splitOn] at stretches
  exact stretches

theorem length_pieces (document : Document) : document.pieces.length = document.lineCount :=
  (startsOf_length document.text.toList).symm

theorem toNat_number
    {document : Document} (few : document.lineCount < UInt32.size)
    {index : Nat} {piece : List Char} (isPiece : document.pieces[index]? = some piece) :
    (UInt32.ofNat (index + 1)).toNat = index + 1 := by
  obtain ⟨inside, -⟩ := List.getElem?_eq_some_iff.mp isPiece
  rw [length_pieces] at inside
  exact UInt32.toNat_ofNat_of_lt' (by omega)

/-- The line with a number is the piece at that place, counted from one, without the
carriage returns at its end. -/
theorem line?_eq (document : Document) (index : Nat) {number : UInt32}
    (counts : number.toNat = index + 1) :
    document.line? number =
      document.pieces[index]?.map fun piece => String.ofList (withoutReturns piece) := by
  unfold line? pieces
  rw [← stretch?_startsOf, counts, stretch?, String.ofList_toList, Option.map_bind]
  rfl

/-! ## How many lines are listed -/

theorem readCount_le (document : Document) : document.readCount ≤ document.lineCount := by
  rw [readCount, UInt32.toNat_ofNat']
  exact Nat.mod_le _ _

theorem readCount_lt (document : Document) : document.readCount < UInt32.size :=
  UInt32.toNat_lt_size _

/-- As long as there are fewer lines than numbers, all of them are listed. -/
theorem readCount_of_few {document : Document} (few : document.lineCount < UInt32.size) :
    document.readCount = document.lineCount :=
  UInt32.toNat_ofNat_of_lt' few

/-- Listing lines by their numbers from one on goes through the pieces in order. -/
theorem filterMap_line?_eq
    (document : Document) {count : Nat} (numbered : count < UInt32.size) :
    ((List.range' 1 count).filterMap fun count =>
      let number := UInt32.ofNat count
      (document.line? number).map (number, ·)) =
        (document.pieces.take count).mapIdx fun index piece =>
          (UInt32.ofNat (index + 1), String.ofList (withoutReturns piece)) := by
  induction count with
  | zero => rfl
  | succ count inductionHypothesis =>
      have counts : (UInt32.ofNat (count + 1)).toNat = count + 1 :=
        UInt32.toNat_ofNat_of_lt' numbered
      have found := line?_eq document count counts
      rw [List.range'_concat, List.filterMap_append, inductionHypothesis (by omega),
        List.take_add_one, List.mapIdx_append, Nat.one_mul, Nat.add_comm 1 count]
      congr 1
      cases isPiece : document.pieces[count]? with
      | none =>
          rw [isPiece] at found
          simp only [List.filterMap_cons, List.filterMap_nil, found]
          rfl
      | some piece =>
          obtain ⟨inside, -⟩ := List.getElem?_eq_some_iff.mp isPiece
          have above : (document.pieces.take count).length = count :=
            List.length_take_of_le (Nat.le_of_lt inside)
          rw [isPiece] at found
          simp only [List.filterMap_cons, List.filterMap_nil, found, above, Option.map_some,
            Option.toList_some, List.mapIdx_cons, List.mapIdx_nil, Nat.zero_add]

theorem lines_eq_mapIdx (document : Document) :
    document.lines =
      (document.pieces.take document.readCount).mapIdx fun index piece =>
        (UInt32.ofNat (index + 1), String.ofList (withoutReturns piece)) :=
  filterMap_line?_eq document document.readCount_lt

theorem take_pieces_of_few {document : Document} (few : document.lineCount < UInt32.size) :
    document.pieces.take document.readCount = document.pieces := by
  rw [readCount_of_few few, ← length_pieces, List.take_length]

theorem line?_zero (document : Document) : document.line? 0 = none := rfl

/-- A line has the number `n` just when it is the `n`th of the text. -/
theorem line?_eq_some_iff {document : Document} {number : UInt32} {raw : String} :
    document.line? number = some raw ↔
      ∃ index piece, number.toNat = index + 1 ∧ document.pieces[index]? = some piece ∧
        raw = String.ofList (withoutReturns piece) := by
  cases counts : number.toNat with
  | zero =>
      have isZero : number = 0 := UInt32.toNat_inj.mp counts
      subst isZero
      simp [line?_zero]
  | succ index =>
      rw [line?_eq document index counts, Option.map_eq_some_iff]
      constructor
      · rintro ⟨piece, isPiece, rfl⟩
        exact ⟨index, piece, rfl, isPiece, rfl⟩
      · rintro ⟨other, piece, same, isPiece, rfl⟩
        obtain rfl := Nat.succ.inj same
        exact ⟨piece, isPiece, rfl⟩

end Gherkin.Document

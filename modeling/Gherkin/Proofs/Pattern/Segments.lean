import Gherkin.Proofs.Pattern.Cut
import Gherkin.Text.Pieces

/-!
Contract: the scan that cuts a pattern from one opening brace to the next.

Owns: segments, the state of the scan and its rounds, the places at which placeholders are
written in a pattern, and that the scan ends and has found exactly these.
Does not own: the pieces of a pattern, character by character (`Gherkin.Pattern.Piece`), to
which the segments come, nor the capture groups (`Gherkin.Proofs.Pattern.Groups`).
Main statement: `Scan.exists_ended`.

A placeholder opens with its only opening brace. So none is written across a place where a
round stops, and what is still to be found stands in the unread rest.
-/

set_option autoImplicit false

namespace Gherkin

/-! ## Places of placeholders -/

namespace Placeholder

/-- The placeholders, in the order in which a brace is tried against them. -/
def all : List Placeholder :=
  [.string, .int, .word]

theorem mem_all (placeholder : Placeholder) : placeholder ∈ all := by
  cases placeholder <;> decide

/-- The placeholder is written in the pattern behind as many characters as `place` says. -/
def WrittenAt (placeholder : Placeholder) (pattern : List Char) (place : Nat) : Prop :=
  placeholder.text <+: pattern.drop place

theorem eq_of_text_prefix
    {placeholder other : Placeholder} {rest : List Char}
    (written : placeholder.text <+: other.text ++ rest) : placeholder = other := by
  cases placeholder <;> cases other <;> simp_all [text, name]

theorem place_eq_zero_of_brace
    {placeholder : Placeholder} {place : Nat} (brace : placeholder.text[place]? = some '{') :
    place = 0 := by
  cases place with
  | zero => rfl
  | succ place =>
      have second : '{' ∈ placeholder.text.tail := by
        apply List.mem_of_getElem?
        rw [List.getElem?_tail]
        exact brace
      cases placeholder <;> exact absurd second (by decide)

variable {placeholder : Placeholder} {place : Nat}

theorem WrittenAt.brace {pattern : List Char} (written : placeholder.WrittenAt pattern place) :
    pattern[place]? = some '{' := by
  obtain ⟨rest, split⟩ := written
  have first : (pattern.drop place).head? = some '{' := by
    rw [← split]
    rfl
  rwa [List.head?_drop] at first

theorem writtenAt_append_iff {front rest : List Char} (later : Nat) :
    placeholder.WrittenAt (front ++ rest) (front.length + later) ↔
      placeholder.WrittenAt rest later := by
  rw [WrittenAt, WrittenAt, List.drop_length_add_append]

/-- Behind a literal without braces stands what stands in the rest. -/
theorem writtenAt_literal_iff {literal rest : List Char} (braceFree : '{' ∉ literal) :
    placeholder.WrittenAt (literal ++ rest) place ↔
      ∃ later, place = literal.length + later ∧ placeholder.WrittenAt rest later := by
  constructor
  · intro written
    have outside : literal.length ≤ place := by
      apply Nat.le_of_not_lt
      intro inside
      have brace := written.brace
      rw [List.getElem?_append_left inside] at brace
      exact braceFree (List.mem_of_getElem? brace)
    obtain ⟨later, rfl⟩ := Nat.exists_eq_add_of_le outside
    exact ⟨later, rfl, (writtenAt_append_iff later).mp written⟩
  · rintro ⟨later, rfl, written⟩
    exact (writtenAt_append_iff later).mpr written

theorem writtenAt_placeholder_iff {other : Placeholder} {rest : List Char} :
    placeholder.WrittenAt (other.text ++ rest) place ↔
      (place, placeholder) = (0, other) ∨
        ∃ later, place = other.text.length + later ∧ placeholder.WrittenAt rest later := by
  constructor
  · intro written
    by_cases inside : place < other.text.length
    · have brace := written.brace
      rw [List.getElem?_append_left inside] at brace
      obtain rfl := place_eq_zero_of_brace brace
      obtain rfl := eq_of_text_prefix written
      exact .inl rfl
    · obtain ⟨later, rfl⟩ := Nat.exists_eq_add_of_le (Nat.le_of_not_lt inside)
      exact .inr ⟨later, rfl, (writtenAt_append_iff later).mp written⟩
  · rintro (same | ⟨later, rfl, written⟩)
    · obtain ⟨rfl, rfl⟩ := Prod.mk.inj same
      exact List.prefix_append _ _
    · exact (writtenAt_append_iff later).mpr written

theorem writtenAt_brace_iff
    {rest : List Char} (unknown : ∀ other : Placeholder, ¬ other.text <+: '{' :: rest) :
    placeholder.WrittenAt ('{' :: rest) place ↔
      ∃ later, place = 1 + later ∧ placeholder.WrittenAt rest later := by
  cases place with
  | zero =>
      have notHere : ¬ placeholder.WrittenAt ('{' :: rest) 0 := unknown placeholder
      simp [notHere]
      omega
  | succ place =>
      have same : ∀ later, place + 1 = 1 + later ↔ place = later := by omega
      simp [WrittenAt, same]

end Placeholder

/-! ## Segments -/

/-- A stretch of a pattern that the scan puts out at once. -/
inductive Segment where
  | literal (text : List Char)
  | hole (placeholder : Placeholder)
deriving DecidableEq, Repr

namespace Segment

def text : Segment → List Char
  | .literal text => text
  | .hole placeholder => placeholder.text

def pieces : Segment → List Piece
  | .literal text => text.map .literal
  | .hole placeholder => [.hole placeholder]

/-- The placeholders among segments of which the first stands at an offset, each with its
own offset. -/
def places (offset : Nat) : List Segment → List (Nat × Placeholder)
  | [] => []
  | .literal text :: segments => places (offset + text.length) segments
  | .hole placeholder :: segments =>
      (offset, placeholder) :: places (offset + placeholder.text.length) segments

theorem places_append (offset : Nat) (first second : List Segment) :
    places offset (first ++ second) =
      places offset first ++ places (offset + (first.flatMap text).length) second := by
  induction first generalizing offset with
  | nil => rfl
  | cons segment first inductionHypothesis =>
      cases segment with
      | literal chars | hole placeholder =>
          simp [places, inductionHypothesis, text, Nat.add_assoc]

theorem places_add (offset place : Nat) (segments : List Segment) :
    places (offset + place) segments =
      (places place segments).map fun found => (offset + found.1, found.2) := by
  induction segments generalizing place with
  | nil => rfl
  | cons segment segments inductionHypothesis =>
      cases segment with
      | literal chars | hole placeholder =>
          simp [places, Nat.add_assoc, inductionHypothesis]

theorem mem_places_shifted_iff
    (offset : Nat) {place : Nat} {placeholder : Placeholder} {segments : List Segment} :
    (place, placeholder) ∈ places offset segments ↔
      ∃ later, place = offset + later ∧ (later, placeholder) ∈ places 0 segments := by
  have shifted := places_add offset 0 segments
  rw [Nat.add_zero] at shifted
  rw [shifted, List.mem_map]
  constructor
  · rintro ⟨⟨later, found⟩, member, same⟩
    obtain ⟨rfl, rfl⟩ := Prod.mk.inj same
    exact ⟨later, rfl, member⟩
  · rintro ⟨later, rfl, member⟩
    exact ⟨(later, placeholder), member, rfl⟩

theorem map_snd_places (offset : Nat) (segments : List Segment) :
    (places offset segments).map Prod.snd =
      (segments.flatMap pieces).filterMap Piece.placeholder? := by
  induction segments generalizing offset with
  | nil => rfl
  | cons segment segments inductionHypothesis =>
      cases segment with
      | literal chars => simp [places, inductionHypothesis, pieces, Piece.placeholder?]
      | hole placeholder => simp [places, inductionHypothesis, pieces, Piece.placeholder?]

theorem le_of_mem_places
    {offset : Nat} {segments : List Segment} {found : Nat × Placeholder}
    (member : found ∈ places offset segments) : offset ≤ found.1 := by
  induction segments generalizing offset with
  | nil => exact absurd member List.not_mem_nil
  | cons segment segments inductionHypothesis =>
      cases segment with
      | literal chars => exact Nat.le_of_add_right_le (inductionHypothesis member)
      | hole placeholder =>
          rcases List.mem_cons.mp member with rfl | later
          · exact Nat.le_refl _
          · exact Nat.le_of_add_right_le (inductionHypothesis later)

theorem places_pairwise (offset : Nat) (segments : List Segment) :
    (places offset segments).Pairwise fun a b => a.1 < b.1 := by
  induction segments generalizing offset with
  | nil => exact .nil
  | cons segment segments inductionHypothesis =>
      cases segment with
      | literal chars => exact inductionHypothesis _
      | hole placeholder =>
          refine List.pairwise_cons.mpr ⟨?_, inductionHypothesis _⟩
          intro found later
          have behind := le_of_mem_places later
          have nonempty : 0 < placeholder.text.length := by simp [Placeholder.text]
          omega

/-- The segments of a pattern: nothing is lost, they come to the pieces of the pattern, and
placeholders stand at exactly the places at which they are written. -/
structure AreOf (segments : List Segment) (pattern : List Char) : Prop where
  text_eq : segments.flatMap text = pattern
  pieces_eq : segments.flatMap pieces = Piece.ofText pattern
  increasing : (places 0 segments).Pairwise fun a b => a.1 < b.1
  mem_places_iff : ∀ (place : Nat) (placeholder : Placeholder),
    (place, placeholder) ∈ places 0 segments ↔ placeholder.WrittenAt pattern place

end Segment

/-! ## The scan -/

/-- The state between two rounds: what was put out so far, and the unread rest. -/
structure Scan where
  segments : List Segment
  rest : List Char
deriving DecidableEq, Repr

namespace Scan

def start (pattern : List Char) : Scan :=
  ⟨[], pattern⟩

/-- One round: puts out what stands before the next opening brace, and the placeholder that
opens with it, or else the brace alone. Without a brace there is no round. -/
def next? (scan : Scan) : Option Scan :=
  (Text.cutAt? '{' scan.rest).map fun cut =>
    let tail := '{' :: cut.2
    match Placeholder.all.find? fun placeholder => placeholder.text.isPrefixOf tail with
    | some placeholder =>
        ⟨scan.segments ++ [.literal cut.1, .hole placeholder],
          tail.drop placeholder.text.length⟩
    | none => ⟨scan.segments ++ [.literal cut.1, .literal ['{']], cut.2⟩

/-- All that is put out when the scan ends here: the rest is one more literal. -/
def output (scan : Scan) : List Segment :=
  scan.segments ++ [.literal scan.rest]

/-- The rounds from a state on end in another. -/
inductive EndsIn : Scan → Scan → Prop where
  | done {scan : Scan} (ended : scan.next? = none) : EndsIn scan scan
  | round {scan later last : Scan} (next : scan.next? = some later)
      (further : EndsIn later last) : EndsIn scan last

/-- What a round does. -/
inductive Round : Scan → Scan → Prop where
  | placeholder {segments : List Segment} {literal rest : List Char} (found : Placeholder)
      (braceFree : '{' ∉ literal) :
      Round ⟨segments, literal ++ (found.text ++ rest)⟩
        ⟨segments ++ [.literal literal, .hole found], rest⟩
  | brace {segments : List Segment} {literal rest : List Char}
      (braceFree : '{' ∉ literal)
      (unknown : ∀ placeholder : Placeholder, ¬ placeholder.text <+: '{' :: rest) :
      Round ⟨segments, literal ++ ('{' :: rest)⟩
        ⟨segments ++ [.literal literal, .literal ['{']], rest⟩

theorem round_of_next? {scan later : Scan} (next : scan.next? = some later) :
    Round scan later := by
  obtain ⟨segments, unread⟩ := scan
  obtain ⟨⟨literal, rest⟩, cut, rfl⟩ := Option.map_eq_some_iff.mp next
  obtain ⟨rfl, braceFree⟩ := Text.cutAt?_eq_some cut
  show Round ⟨segments, literal ++ '{' :: rest⟩ (match Placeholder.all.find? _ with
    | some _ => _
    | none => _)
  split
  · next placeholder found =>
      have written : placeholder.text <+: '{' :: rest := by
        simpa using List.find?_some found
      obtain ⟨behind, split⟩ := written
      simp only [← split, List.drop_left]
      exact .placeholder placeholder braceFree
  · next missed =>
      refine .brace braceFree ?_
      intro placeholder written
      have tried := List.find?_eq_none.mp missed placeholder placeholder.mem_all
      exact tried (List.isPrefixOf_iff_prefix.mpr written)

theorem braceFree_of_next? {scan : Scan} (ended : scan.next? = none) : '{' ∉ scan.rest := by
  intro brace
  obtain ⟨literal, behind, split, braceFree⟩ := List.eq_append_cons_of_mem brace
  have cut := Text.cutAt?_append braceFree behind
  rw [← split] at cut
  rw [next?, cut] at ended
  contradiction

theorem Round.shorter {scan later : Scan} (round : Round scan later) :
    later.rest.length < scan.rest.length := by
  cases round with
  | placeholder found braceFree =>
      simp [Placeholder.text]
      omega
  | brace braceFree unknown =>
      simp
      omega

/-- Each round leaves less to read, so the scan ends. -/
theorem exists_endsIn (scan : Scan) : ∃ last, EndsIn scan last := by
  induction size : scan.rest.length using Nat.strongRecOn generalizing scan with
  | ind bound inductionHypothesis =>
      cases next : scan.next? with
      | none => exact ⟨scan, .done next⟩
      | some later =>
          have shorter := (round_of_next? next).shorter
          obtain ⟨last, further⟩ := inductionHypothesis later.rest.length (by omega) later rfl
          exact ⟨last, .round next further⟩

/-! ## What a round keeps -/

/-- What the scan has put out and the unread rest make up the pattern, and each placeholder
of the pattern was put out or is written in the rest. -/
structure Holds (pattern : List Char) (scan : Scan) : Prop where
  text_eq : scan.segments.flatMap Segment.text ++ scan.rest = pattern
  pieces_eq :
    scan.segments.flatMap Segment.pieces ++ Piece.ofText scan.rest = Piece.ofText pattern
  writtenAt_iff : ∀ (place : Nat) (placeholder : Placeholder),
    placeholder.WrittenAt pattern place ↔
      (place, placeholder) ∈ Segment.places 0 scan.segments ∨
        ∃ later, place = (scan.segments.flatMap Segment.text).length + later ∧
          placeholder.WrittenAt scan.rest later

theorem holds_start (pattern : List Char) : Holds pattern (start pattern) where
  text_eq := rfl
  pieces_eq := rfl
  writtenAt_iff := by
    intro place placeholder
    simp [start, Segment.places]

theorem free_of_braceFree {literal : List Char} (braceFree : '{' ∉ literal) :
    Cut.Free literal := by
  intro placeholder written
  apply braceFree
  apply written.subset
  exact List.mem_cons_self

variable {pattern : List Char}

/-- What the rest holds is what the pattern holds behind all that was put out. -/
theorem Holds.append
    {segments further : List Segment} {rest behind : List Char}
    (first : Holds pattern ⟨segments, rest⟩) (second : Holds rest ⟨further, behind⟩) :
    Holds pattern ⟨segments ++ further, behind⟩ where
  text_eq := by
    rw [← first.text_eq, ← second.text_eq]
    simp
  pieces_eq := by
    rw [← first.pieces_eq, ← second.pieces_eq]
    simp
  writtenAt_iff := by
    intro place placeholder
    rw [first.writtenAt_iff, Segment.places_append, List.mem_append, or_assoc, Nat.zero_add,
      Segment.mem_places_shifted_iff (segments.flatMap Segment.text).length]
    simp only [second.writtenAt_iff]
    constructor
    · rintro (putOut | ⟨later, rfl, putOutNext | ⟨beyond, rfl, written⟩⟩)
      · exact .inl putOut
      · exact .inr (.inl ⟨later, rfl, putOutNext⟩)
      · exact .inr (.inr ⟨beyond, by simp [Nat.add_assoc], written⟩)
    · rintro (putOut | ⟨later, rfl, putOutNext⟩ | ⟨beyond, rfl, written⟩)
      · exact .inl putOut
      · exact .inr ⟨later, rfl, .inl putOutNext⟩
      · exact .inr ⟨_, by simp [Nat.add_assoc], .inr ⟨beyond, rfl, written⟩⟩

theorem holds_literal
    {literal : List Char} (braceFree : '{' ∉ literal)
    (rest : List Char) (opens : ∀ c ∈ rest.head?, c = '{') :
    Holds (literal ++ rest) ⟨[.literal literal], rest⟩ where
  text_eq := by simp [Segment.text]
  pieces_eq := by
    rw [Piece.ofText_literal_append (free_of_braceFree braceFree) opens]
    simp [Segment.pieces]
  writtenAt_iff := by
    intro place placeholder
    rw [Placeholder.writtenAt_literal_iff braceFree]
    simp [Segment.places, Segment.text]

theorem holds_placeholder (placeholder : Placeholder) (rest : List Char) :
    Holds (placeholder.text ++ rest) ⟨[.hole placeholder], rest⟩ where
  text_eq := by simp [Segment.text]
  pieces_eq := by
    rw [Piece.ofText_placeholder]
    simp [Segment.pieces]
  writtenAt_iff := by
    intro place other
    rw [Placeholder.writtenAt_placeholder_iff]
    simp [Segment.places, Segment.text]

theorem holds_brace
    {rest : List Char}
    (unknown : ∀ placeholder : Placeholder, ¬ placeholder.text <+: '{' :: rest) :
    Holds ('{' :: rest) ⟨[.literal ['{']], rest⟩ where
  text_eq := rfl
  pieces_eq := by
    rw [Piece.ofText_character unknown]
    rfl
  writtenAt_iff := by
    intro place placeholder
    rw [Placeholder.writtenAt_brace_iff unknown]
    simp [Segment.places, Segment.text]

theorem Holds.round {scan later : Scan} (holds : Holds pattern scan) (round : Round scan later) :
    Holds pattern later := by
  cases round with
  | @placeholder segments literal rest found braceFree =>
      have passed := holds_literal braceFree (found.text ++ rest) (by simp [Placeholder.text])
      exact holds.append (passed.append (holds_placeholder found rest))
  | @brace segments literal rest braceFree unknown =>
      have passed := holds_literal braceFree ('{' :: rest) (by simp)
      exact holds.append (passed.append (holds_brace unknown))

theorem Holds.endsIn
    {scan last : Scan} (holds : Holds pattern scan) (endsIn : EndsIn scan last) :
    Holds pattern last ∧ '{' ∉ last.rest := by
  induction endsIn with
  | done ended => exact ⟨holds, braceFree_of_next? ended⟩
  | round next further inductionHypothesis =>
      exact inductionHypothesis (holds.round (round_of_next? next))

/-- Where no brace is left, all placeholders were put out. -/
theorem Holds.output
    {last : Scan} (holds : Holds pattern last) (braceFree : '{' ∉ last.rest) :
    Segment.AreOf last.output pattern := by
  have literal := holds_literal braceFree [] (by simp)
  rw [List.append_nil] at literal
  have all : Holds pattern ⟨last.output, []⟩ := holds.append literal
  refine ⟨?_, ?_, Segment.places_pairwise 0 _, ?_⟩
  · rw [← all.text_eq, List.append_nil]
  · rw [← all.pieces_eq]
    exact (List.append_nil _).symm
  · intro place placeholder
    have nothing : ∀ later, ¬ placeholder.WrittenAt [] later := by
      intro later written
      simpa using written.brace
    rw [all.writtenAt_iff]
    simp [nothing]

/-- The scan of a pattern ends, and has put out the segments of the pattern. -/
theorem exists_ended (pattern : List Char) :
    ∃ last, EndsIn (start pattern) last ∧ Segment.AreOf last.output pattern := by
  obtain ⟨last, endsIn⟩ := exists_endsIn (start pattern)
  obtain ⟨holds, braceFree⟩ := (holds_start pattern).endsIn endsIn
  exact ⟨last, endsIn, holds.output braceFree⟩

end Scan

end Gherkin

import Gherkin.Proofs.Text.Splitting
import Gherkin.Text.Slice

/-!
Contract: which stretches of a text there are.

Owns: that a text is cut at the bytes of the part in front, and that there is a stretch just
between two places that stand between characters, one not behind the other.
Does not own: the cutting itself (`Gherkin.Text.Slice`).
Main statements: `slice?_eq_some_iff` and `isSome_slice?_iff`.
-/

set_option autoImplicit false

namespace Gherkin.Text

theorem utf8ByteSize_ofList_cons (c : Char) (cs : List Char) :
    (String.ofList (c :: cs)).utf8ByteSize = c.utf8Size + (String.ofList cs).utf8ByteSize := by
  simp

theorem ofList_utf8ByteSize_eq_zero {cs : List Char} (zero : (String.ofList cs).utf8ByteSize = 0) :
    cs = [] := by
  simpa using zero

/-- A text is cut at the offset that the part in front takes up, and at no other. -/
theorem cutAtOffset?_eq_some_iff {offset : Nat} {cs front rest : List Char} :
    cutAtOffset? offset cs = some (front, rest) ↔
      cs = front ++ rest ∧ (String.ofList front).utf8ByteSize = offset := by
  fun_induction cutAtOffset? offset cs generalizing front with
  | case1 cs =>
      constructor
      · rintro same
        obtain ⟨rfl, rfl⟩ := Prod.mk.inj (Option.some.inj same)
        exact ⟨rfl, rfl⟩
      · rintro ⟨rfl, zero⟩
        obtain rfl := ofList_utf8ByteSize_eq_zero zero
        rfl
  | case2 offset =>
      constructor
      · rintro ⟨⟩
      · rintro ⟨none, size⟩
        obtain ⟨rfl, rfl⟩ := List.append_eq_nil_iff.mp none.symm
        cases size
  | case3 offset c cs fits inductionHypothesis =>
      constructor
      · intro found
        obtain ⟨cut, isCut, same⟩ := Option.map_eq_some_iff.mp found
        obtain ⟨rfl, rfl⟩ := Prod.mk.inj same
        obtain ⟨rfl, size⟩ := inductionHypothesis.mp isCut
        refine ⟨rfl, ?_⟩
        rw [utf8ByteSize_ofList_cons, size]
        omega
      · rintro ⟨whole, size⟩
        cases front with
        | nil => cases size
        | cons d front =>
            obtain ⟨rfl, rfl⟩ := List.cons.inj whole
            rw [utf8ByteSize_ofList_cons] at size
            rw [inductionHypothesis.mpr ⟨rfl, by omega⟩]
            rfl
  | case4 offset c cs tooLong =>
      constructor
      · rintro ⟨⟩
      · rintro ⟨whole, size⟩
        cases front with
        | nil => cases size
        | cons d front =>
            obtain ⟨rfl, rfl⟩ := List.cons.inj whole
            rw [utf8ByteSize_ofList_cons] at size
            omega

/-- The stretches of a text are its parts, each between the bytes that end in front of it and
those that end with it. -/
theorem slice?_eq_some_iff {start stop : Nat} {cs inside : List Char} :
    slice? start stop cs = some inside ↔
      ∃ front back, cs = front ++ inside ++ back ∧
        (String.ofList front).utf8ByteSize = start ∧
        (String.ofList (front ++ inside)).utf8ByteSize = stop := by
  unfold slice?
  rw [Option.bind_eq_some_iff]
  constructor
  · rintro ⟨⟨before, back⟩, isBefore, found⟩
    obtain ⟨⟨front, rest⟩, isFront, rfl⟩ := Option.map_eq_some_iff.mp found
    obtain ⟨rfl, stops⟩ := cutAtOffset?_eq_some_iff.mp isBefore
    obtain ⟨rfl, starts⟩ := cutAtOffset?_eq_some_iff.mp isFront
    exact ⟨front, back, rfl, starts, stops⟩
  · rintro ⟨front, back, rfl, starts, stops⟩
    refine ⟨(front ++ inside, back), cutAtOffset?_eq_some_iff.mpr ⟨rfl, stops⟩, ?_⟩
    rw [cutAtOffset?_eq_some_iff.mpr ⟨rfl, starts⟩]
    rfl

/-- The part of a text in front of a place between two characters is a row of them. -/
theorem exists_append_of_isValid
    {s : String} {offset : Nat} (valid : (String.Pos.Raw.mk offset).IsValid s) :
    ∃ front rest, s.toList = front ++ rest ∧ (String.ofList front).utf8ByteSize = offset := by
  obtain ⟨front, rest, rfl, isOffset⟩ := String.Pos.Raw.isValid_iff_exists_append.mp valid
  refine ⟨front.toList, rest.toList, String.toList_append, ?_⟩
  rw [String.ofList_toList]
  exact (congrArg String.Pos.Raw.byteIdx isOffset).symm

theorem isValid_of_append
    {s : String} {front rest : List Char} (whole : s.toList = front ++ rest) :
    (String.Pos.Raw.mk (String.ofList front).utf8ByteSize).IsValid s := by
  rw [String.Pos.Raw.isValid_iff_exists_append]
  refine ⟨String.ofList front, String.ofList rest, ?_, rfl⟩
  rw [← String.ofList_append, ← whole, String.ofList_toList]

/-- There is a stretch between two offsets unless one of them is behind the end or inside a
character, or the second comes before the first. -/
theorem isSome_slice?_iff {start stop : Nat} {s : String} :
    (slice? start stop s.toList).isSome = true ↔
      start ≤ stop ∧ (String.Pos.Raw.mk start).IsValid s ∧
        (String.Pos.Raw.mk stop).IsValid s := by
  rw [Option.isSome_iff_exists]
  constructor
  · rintro ⟨inside, found⟩
    obtain ⟨front, back, whole, rfl, rfl⟩ := slice?_eq_some_iff.mp found
    refine ⟨?_, ?_, isValid_of_append whole⟩
    · rw [String.ofList_append, String.utf8ByteSize_append]
      exact Nat.le_add_right _ _
    · exact isValid_of_append (whole.trans (List.append_assoc ..))
  · rintro ⟨inOrder, validStart, validStop⟩
    obtain ⟨front, rest, whole, rfl⟩ := exists_append_of_isValid validStart
    obtain ⟨before, back, sameWhole, rfl⟩ := exists_append_of_isValid validStop
    rw [whole] at sameWhole
    rcases List.append_eq_append_iff.mp sameWhole with ⟨inside, rfl, -⟩ | ⟨inside, rfl, rfl⟩
    · exact ⟨inside, slice?_eq_some_iff.mpr ⟨front, back, by rw [whole, sameWhole], rfl, rfl⟩⟩
    · -- The offsets are in order, so nothing of the front stands behind the second one.
      rw [String.ofList_append, String.utf8ByteSize_append] at inOrder ⊢
      have none : (String.ofList inside).utf8ByteSize = 0 := by omega
      obtain rfl := ofList_utf8ByteSize_eq_zero none
      exact ⟨[], slice?_eq_some_iff.mpr ⟨before, rest, by simpa using whole, by simp, by simp⟩⟩

end Gherkin.Text

import Mathlib.Data.List.DropRight
import Gherkin.Text.Blank

/-!
Contract: what trimming leaves of a text.

Owns: which texts are left as they are, which are trimmed away as a whole, and that blank
space around a text makes no difference.
Does not own: the class of blank characters (`Gherkin.Text.Blank`).
Main statement: `trim_eq_self_iff`.
-/

set_option autoImplicit false

namespace Gherkin.Text

theorem dropEndWhile_eq_rdropWhile (p : Char → Bool) (cs : List Char) :
    dropEndWhile p cs = cs.rdropWhile p := rfl

theorem dropEndWhile_prefix (p : Char → Bool) (cs : List Char) : dropEndWhile p cs <+: cs :=
  cs.rdropWhile_prefix p

/-- What is removed consists of characters in the class. -/
theorem exists_dropEndWhile (p : Char → Bool) (cs : List Char) :
    ∃ removed, dropEndWhile p cs ++ removed = cs ∧ ∀ c ∈ removed, p c = true := by
  refine ⟨cs.rtakeWhile p, ?_, fun c member => List.mem_rtakeWhile_imp member⟩
  rw [dropEndWhile_eq_rdropWhile]
  exact List.rdropWhile_append_rtakeWhile

/-- Nothing is removed just when the last character, if any, is not in the class. -/
theorem dropEndWhile_eq_self_iff {p : Char → Bool} {cs : List Char} :
    dropEndWhile p cs = cs ↔ ∀ c ∈ cs.getLast?, p c = false := by
  rw [dropEndWhile_eq_rdropWhile, List.rdropWhile_eq_self_iff]
  constructor
  · intro kept c last
    obtain ⟨nonempty, rfl⟩ := List.mem_getLast?_eq_getLast last
    simpa using kept nonempty
  · intro ends nonempty
    simpa using ends _ (List.getLast?_eq_some_getLast nonempty)

/-- A character that stays keeps all that stands before it. -/
theorem dropEndWhile_append_of_exists
    {p : Char → Bool} (front : List Char) {rest : List Char}
    (stops : ∃ c ∈ rest, p c = false) :
    dropEndWhile p (front ++ rest) = front ++ dropEndWhile p rest := by
  have kept : ¬ (rest.reverse.dropWhile p).isEmpty = true := by
    simpa [List.dropWhile_eq_nil_iff] using stops
  unfold dropEndWhile
  rw [List.reverse_append, List.dropWhile_append, if_neg kept, List.reverse_append,
    List.reverse_reverse]

/-- Of one character all that stand at the end go. -/
theorem dropEndWhile_eq_iff {c : Char} {cs front : List Char} :
    dropEndWhile (· == c) cs = front ↔
      ∃ count, cs = front ++ List.replicate count c ∧ front.getLast? ≠ some c := by
  constructor
  · rintro rfl
    have ends := dropEndWhile_eq_self_iff.mp (List.rdropWhile_idempotent (· == c) cs)
    obtain ⟨removed, whole, inClass⟩ := exists_dropEndWhile (· == c) cs
    have same : removed = List.replicate removed.length c :=
      List.eq_replicate_of_mem fun d member => by simpa using inClass d member
    refine ⟨removed.length, ?_, ?_⟩
    · rw [← same, whole]
    · intro last
      have different := ends c last
      simp at different
  · rintro ⟨count, rfl, last⟩
    induction count with
    | zero =>
        rw [List.replicate_zero, List.append_nil, dropEndWhile_eq_self_iff]
        intro d isLast
        have different : d ≠ c := fun same => last (same ▸ isLast)
        simpa using different
    | succ count inductionHypothesis =>
        rw [List.replicate_succ', ← List.append_assoc, dropEndWhile_append_singleton,
          if_pos (beq_self_eq_true c), inductionHypothesis]

theorem trim_infix (cs : List Char) : trim cs <:+: cs := by
  have front := dropEndWhile_prefix isBlank (trimStart cs)
  have back := List.dropWhile_suffix (l := cs) isBlank
  exact front.isInfix.trans back.isInfix

theorem head?_trim (cs : List Char) : ∀ c ∈ (trim cs).head?, isBlank c = false := by
  intro c first
  have starts := List.head?_dropWhile_not isBlank cs
  have sameStart : (cs.dropWhile isBlank).head? = some c := by
    obtain ⟨after, whole⟩ := dropEndWhile_prefix isBlank (trimStart cs)
    have isFirst : (dropEndWhile isBlank (trimStart cs)).head? = some c := first
    rw [trimStart] at whole isFirst
    rw [← whole, List.head?_append, isFirst]
    rfl
  rw [sameStart] at starts
  exact starts

theorem getLast?_trim (cs : List Char) : ∀ c ∈ (trim cs).getLast?, isBlank c = false := by
  apply dropEndWhile_eq_self_iff.mp
  exact List.rdropWhile_idempotent isBlank (trimStart cs)

/-- A text is left as it is just when neither end is blank. -/
theorem trim_eq_self_iff {cs : List Char} :
    trim cs = cs ↔
      (∀ c ∈ cs.head?, isBlank c = false) ∧ ∀ c ∈ cs.getLast?, isBlank c = false := by
  constructor
  · intro kept
    have starts := head?_trim cs
    have ends := getLast?_trim cs
    rw [kept] at starts ends
    exact ⟨starts, ends⟩
  · intro bare
    have keepsStart : trimStart cs = cs := by
      cases cs with
      | nil => rfl
      | cons c cs =>
          have notBlank : ¬ isBlank c = true := by simp [bare.1 c rfl]
          rw [trimStart, List.dropWhile_cons_of_neg notBlank]
    rw [trim, keepsStart]
    exact dropEndWhile_eq_self_iff.mpr bare.2

theorem trim_trim (cs : List Char) : trim (trim cs) = trim cs :=
  trim_eq_self_iff.mpr ⟨head?_trim cs, getLast?_trim cs⟩

theorem trimmed_ofList_trim (cs : List Char) :
    trimmed (String.ofList (trim cs)) = String.ofList (trim cs) := by
  rw [trimmed, String.toList_ofList, trim_trim]

theorem trim_toList_of_trimmed {s : String} (isTrimmed : trimmed s = s) :
    trim s.toList = s.toList := by
  have kept := congrArg String.toList isTrimmed
  rw [trimmed, String.toList_ofList] at kept
  exact kept

/-- Only blanks go, at the front and at the back. -/
theorem exists_trim (cs : List Char) :
    ∃ front back, (∀ c ∈ front, isBlank c = true) ∧ (∀ c ∈ back, isBlank c = true) ∧
      cs = front ++ trim cs ++ back := by
  obtain ⟨back, whole, blank⟩ := exists_dropEndWhile isBlank (trimStart cs)
  refine ⟨cs.takeWhile isBlank, back, fun c member => List.mem_takeWhile_imp member, blank, ?_⟩
  rw [List.append_assoc, trim, trimEnd, whole]
  exact List.takeWhile_append_dropWhile.symm

theorem trim_eq_nil_iff {cs : List Char} : trim cs = [] ↔ ∀ c ∈ cs, isBlank c = true := by
  show (trimStart cs).rdropWhile isBlank = [] ↔ _
  rw [List.rdropWhile_eq_nil_iff]
  constructor
  · intro blank
    -- What is left at the start does not begin with a blank, so nothing is left there.
    have gone : trimStart cs = [] := by
      by_contra nonempty
      have first := List.head_dropWhile_not isBlank nonempty
      have blankFirst := blank _ (List.head_mem nonempty)
      exact absurd (first.symm.trans blankFirst) Bool.false_ne_true
    exact List.dropWhile_eq_nil_iff.mp gone
  · intro blank c member
    exact blank c (List.dropWhile_subset isBlank member)

theorem trim_blank_append
    {front : List Char} (blank : ∀ c ∈ front, isBlank c = true) (cs : List Char) :
    trim (front ++ cs) = trim cs := by
  rw [trim, trimStart, List.dropWhile_append_of_pos blank]
  rfl

theorem trim_append_blank
    (cs : List Char) {back : List Char} (blank : ∀ c ∈ back, isBlank c = true) :
    trim (cs ++ back) = trim cs := by
  by_cases allBlank : ∀ c ∈ cs, isBlank c = true
  · have wholeBlank : ∀ c ∈ cs ++ back, isBlank c = true := by
      intro c member
      exact (List.mem_append.mp member).elim (allBlank c) (blank c)
    rw [trim_eq_nil_iff.mpr allBlank, trim_eq_nil_iff.mpr wholeBlank]
  · have kept : trimStart (cs ++ back) = trimStart cs ++ back := by
      unfold trimStart
      rw [List.dropWhile_append, if_neg (by simpa using allBlank)]
    have blankReversed : ∀ c ∈ back.reverse, isBlank c = true := by
      intro c member
      exact blank c (List.mem_reverse.mp member)
    rw [trim, trim, kept, trimEnd, trimEnd, dropEndWhile, dropEndWhile, List.reverse_append,
      List.dropWhile_append_of_pos blankReversed]

/-- What is left starts as the text does behind its first blanks. -/
theorem head?_trim_of_ne_nil {cs : List Char} (nonempty : trim cs ≠ []) :
    (trim cs).head? = (trimStart cs).head? := by
  obtain ⟨after, whole⟩ := dropEndWhile_prefix isBlank (trimStart cs)
  have front : trim cs ++ after = trimStart cs := whole
  rw [← front, List.head?_append_of_ne_nil _ nonempty]

/-- A character that is not blank keeps the blanks inside from the two ends. -/
theorem trim_append_cons
    {c : Char} (notBlank : isBlank c = false) (front rest : List Char) :
    trim (front ++ c :: rest) = trimStart front ++ c :: trimEnd rest := by
  have stops (back : List Char) : (c :: back).dropWhile isBlank = c :: back :=
    List.dropWhile_cons_of_neg (by simp [notBlank])
  have start : trimStart (front ++ c :: rest) = trimStart front ++ c :: rest := by
    unfold trimStart
    rw [List.dropWhile_append, stops]
    split
    · next gone => rw [List.isEmpty_iff.mp gone, List.nil_append]
    · rfl
  rw [trim, start]
  generalize trimStart front = front
  unfold trimEnd dropEndWhile
  rw [List.reverse_append, List.reverse_cons, List.append_assoc, List.singleton_append,
    List.dropWhile_append, stops]
  split
  · next gone => simp [List.isEmpty_iff.mp gone]
  · simp

theorem trim_trimStart (cs : List Char) : trim (trimStart cs) = trim cs := by
  rw [trim, trim, trimStart, trimStart, List.dropWhile_idempotent]

/-- Blank characters that go from the end are trimmed anyway. -/
theorem trim_dropEndWhile
    {p : Char → Bool} (onlyBlank : ∀ c, p c = true → isBlank c = true) (cs : List Char) :
    trim (dropEndWhile p cs) = trim cs := by
  obtain ⟨removed, whole, inClass⟩ := exists_dropEndWhile p cs
  have kept := trim_append_blank (dropEndWhile p cs) fun c member =>
    onlyBlank c (inClass c member)
  rw [whole] at kept
  exact kept.symm

end Gherkin.Text

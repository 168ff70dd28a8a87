import Mathlib.Data.List.Basic
import Gherkin.Text.Pieces

/-!
Contract: what the pieces of a text consist of.

Owns: that no piece holds the separator, that pieces are parts of the text, and that
joined lines are split as they were.
Does not own: the cutting itself (`Gherkin.Text.Pieces`).
Main statement: `split_join`.
-/

set_option autoImplicit false

namespace Gherkin.Text

theorem after?_eq_some_iff {beginning : String} {cs rest : List Char} :
    after? beginning cs = some rest ↔ cs = beginning.toList ++ rest := by
  rw [after?, List.isPrefixOf?_eq_some_iff_append_eq, eq_comm]

/-- The first separator stands in one place only. -/
theorem append_separator_inj
    {separator : Char} {before before' rest rest' : List Char}
    (absent : separator ∉ before) (absent' : separator ∉ before')
    (same : before ++ separator :: rest = before' ++ separator :: rest') :
    before = before' ∧ rest = rest' := by
  have first := cutAt?_append absent rest
  rw [same, cutAt?_append absent' rest'] at first
  obtain ⟨sameBefore, sameRest⟩ := Prod.mk.inj (Option.some.inj first)
  exact ⟨sameBefore.symm, sameRest.symm⟩

theorem not_mem_of_mem_splitOn
    {separator : Char} {cs piece : List Char} (member : piece ∈ cs.splitOn separator) :
    separator ∉ piece := by
  induction cs generalizing piece with
  | nil =>
      rw [List.mem_singleton.mp member]
      exact List.not_mem_nil
  | cons c cs inductionHypothesis =>
      rw [List.splitOn_cons_eq_if_modifyHead] at member
      split at member
      · rcases List.mem_cons.mp member with rfl | later
        · exact List.not_mem_nil
        · exact inductionHypothesis later
      · next different =>
          obtain ⟨first, others, pieces⟩ :=
            List.exists_cons_of_ne_nil (List.splitOn_ne_nil separator cs)
          rw [pieces] at inductionHypothesis member
          rcases List.mem_cons.mp member with rfl | later
          · have notBehind := inductionHypothesis List.mem_cons_self
            have notHere : separator ≠ c := fun same => different (by simp [same])
            exact List.not_mem_cons_of_ne_of_not_mem notHere notBehind
          · exact inductionHypothesis (List.mem_cons_of_mem first later)

theorem infix_intercalate
    {separator piece : List Char} {pieces : List (List Char)} (member : piece ∈ pieces) :
    piece <:+: separator.intercalate pieces := by
  induction pieces with
  | nil => exact absurd member List.not_mem_nil
  | cons first pieces inductionHypothesis =>
      by_cases single : pieces = []
      · subst single
        have whole : separator.intercalate [first] = piece := by
          rw [List.intercalate_singleton, List.mem_singleton.mp member]
        exact whole ▸ List.infix_refl _
      · rw [List.intercalate_cons_of_ne_nil single, List.append_assoc]
        rcases List.mem_cons.mp member with rfl | later
        · exact (List.prefix_append _ _).isInfix
        · have behind := inductionHypothesis later
          exact behind.trans ((List.suffix_append _ _).trans (List.suffix_append _ _)).isInfix

theorem not_mem_intercalate
    {c : Char} {separator : List Char} {pieces : List (List Char)} (between : c ∉ separator)
    (inside : ∀ piece ∈ pieces, c ∉ piece) : c ∉ separator.intercalate pieces := by
  induction pieces with
  | nil => exact List.not_mem_nil
  | cons first pieces inductionHypothesis =>
      have here := inside first List.mem_cons_self
      have behind := inductionHypothesis fun piece member =>
        inside piece (List.mem_cons_of_mem first member)
      by_cases single : pieces = []
      · subst single
        rw [List.intercalate_singleton]
        exact here
      · rw [List.intercalate_cons_of_ne_nil single, List.mem_append, List.mem_append]
        exact fun member => member.elim (fun front => front.elim here between) behind

theorem infix_of_mem_splitOn
    {separator : Char} {cs piece : List Char} (member : piece ∈ cs.splitOn separator) :
    piece <:+: cs := by
  have inside : piece <:+: [separator].intercalate (cs.splitOn separator) :=
    infix_intercalate member
  rw [List.intercalate_splitOn] at inside
  exact inside

theorem splitOn_separator (separator : Char) (cs : List Char) :
    (separator :: cs).splitOn separator = [] :: cs.splitOn separator := by
  have pieces := List.splitOn_append_cons_self (a := separator) [] cs
  rw [List.nil_append, List.splitOn_nil] at pieces
  exact pieces

theorem length_splitOn (separator : Char) (cs : List Char) :
    (cs.splitOn separator).length = cs.count separator + 1 := by
  induction cs with
  | nil => rfl
  | cons c cs inductionHypothesis =>
      by_cases same : c = separator
      · subst same
        rw [splitOn_separator, List.length_cons, inductionHypothesis, List.count_cons_self]
      · rw [List.splitOn_cons_eq_if_modifyHead, if_neg (by simpa using same),
          List.length_modifyHead, inductionHypothesis, List.count_cons_of_ne same]

/-- The last piece stands behind the last separator. -/
theorem exists_last_piece (separator : Char) (cs : List Char) :
    ∃ front last, separator :: cs = front ++ separator :: last ∧ separator ∉ last := by
  have member : separator ∈ (separator :: cs).reverse := by simp
  obtain ⟨before, behind, split, absent⟩ := List.eq_append_cons_of_mem member
  refine ⟨behind.reverse, before.reverse, ?_, by simpa using absent⟩
  have whole := congrArg List.reverse split
  simpa using whole

theorem splitOn_last
    {separator : Char} {cs front last : List Char}
    (whole : separator :: cs = front ++ separator :: last) (absent : separator ∉ last) :
    [] :: cs.splitOn separator = front.splitOn separator ++ [last] := by
  rw [← splitOn_separator, whole, List.splitOn_append_cons_self,
    List.splitOn_eq_singleton absent]

/-- Each piece stands before a separator or at the end. -/
theorem ends_of_mem_splitOn
    {separator : Char} {cs piece : List Char} (member : piece ∈ cs.splitOn separator) :
    piece ++ [separator] <:+: cs ∨ piece <:+ cs := by
  have whole : [separator].intercalate (cs.splitOn separator) = cs :=
    List.intercalate_splitOn separator
  rw [← whole]
  generalize cs.splitOn separator = pieces at member
  induction pieces with
  | nil => exact absurd member List.not_mem_nil
  | cons first pieces inductionHypothesis =>
      by_cases single : pieces = []
      · subst single
        rw [List.mem_singleton.mp member, List.intercalate_singleton]
        exact .inr List.suffix_rfl
      · rw [List.intercalate_cons_of_ne_nil single]
        rcases List.mem_cons.mp member with rfl | later
        · exact .inl (List.prefix_append _ _).isInfix
        · have behind : [separator].intercalate pieces <:+
              first ++ [separator] ++ [separator].intercalate pieces := List.suffix_append _ _
          exact (inductionHypothesis later).imp
            (fun inside => inside.trans behind.isInfix) (fun last => last.trans behind)

/-- Two texts with a line feed between them have the lines of one and then of the other. -/
theorem splitOn_feed (first second : String) :
    (first ++ "\n" ++ second).toList.splitOn '\n' =
      first.toList.splitOn '\n' ++ second.toList.splitOn '\n' := by
  have feed : "\n".toList = ['\n'] := rfl
  rw [String.toList_append, String.toList_append, feed, List.append_assoc,
    List.singleton_append, List.splitOn_append_cons_self]

theorem ofList_comp_toList : String.ofList ∘ String.toList = id :=
  funext fun _ => String.ofList_toList

theorem splitOn_join
    {parts : List String} (nonempty : parts ≠ [])
    (oneLine : ∀ part ∈ parts, '\n' ∉ part.toList) :
    (join "\n" parts).toList.splitOn '\n' = parts.map String.toList := by
  have feed : "\n".toList = ['\n'] := rfl
  rw [join, String.toList_ofList, feed]
  apply List.splitOn_intercalate
  · intro piece member
    obtain ⟨part, isPart, rfl⟩ := List.mem_map.mp member
    exact oneLine part isPart
  · exact fun empty => nonempty (List.map_eq_nil_iff.mp empty)

/-- Lines that are joined with line feeds are split as they were. -/
theorem split_join
    {parts : List String} (nonempty : parts ≠ [])
    (oneLine : ∀ part ∈ parts, '\n' ∉ part.toList) :
    split '\n' (join "\n" parts) = parts := by
  rw [split, splitOn_join nonempty oneLine, List.map_map, ofList_comp_toList, List.map_id]

theorem not_mem_of_mem_split
    {separator : Char} {s part : String} (member : part ∈ split separator s) :
    separator ∉ part.toList := by
  obtain ⟨piece, isPiece, rfl⟩ := List.mem_map.mp member
  rw [String.toList_ofList]
  exact not_mem_of_mem_splitOn isPiece

end Gherkin.Text

import Gherkin.Feature.Line
import Gherkin.Proofs.Text.Splitting
import Mathlib.Data.List.Nodup

/-!
Contract: the tests that decide the kind of a line.

Owns: the eight tests that a trimmed line is put to, that no line passes two of them, and
that the kind of a line does not depend on their order.
Does not own: the cells of a row (`Gherkin.Proofs.Feature.Rows`).
Main statements: `Test.unique`, `ofTrimmed_of_kind?` and `ofTrimmed_in_order`.
-/

set_option autoImplicit false

namespace Gherkin.LineKind

/-- A header word, a keyword with a space, a whole fence, or a pipe in front. -/
inductive Test where
  | header
  | step (keyword : Keyword)
  | fence
  | row
deriving DecidableEq

namespace Test

/-- The kind of a trimmed line that passes the test. -/
def kind? : Test → List Char → Option LineKind
  | header, line =>
      (Text.after? headerWord line).map fun name => .header (String.ofList (Text.trim name))
  | step keyword, line =>
      (Text.after? (keyword.word ++ " ") line).map fun text =>
        .step keyword (String.ofList (Text.trim text))
  | fence, line => if line = fenceText.toList then some .fence else none
  | row, line => if line.head? = some '|' then some (.row (cellsOf line)) else none

/-- The test that lines of a kind pass; the kind of the others passes none. -/
def for? : LineKind → Option Test
  | .header _ => some header
  | .step keyword _ => some (step keyword)
  | .fence => some fence
  | .row _ => some row
  | .other => none

theorem for?_eq_none_iff {kind : LineKind} : for? kind = none ↔ kind = .other := by
  cases kind <;> simp [for?]

/-- The tests in the order in which a line is put to them. -/
def all : List Test :=
  header :: (Keyword.all.map step ++ [fence, row])

theorem mem_all (test : Test) : test ∈ all := by
  cases test with
  | header => exact List.mem_cons_self
  | step keyword =>
      apply List.mem_cons_of_mem
      exact List.mem_append_left _ (List.mem_map_of_mem keyword.mem_all)
  | fence => simp [all]
  | row => simp [all]

/-- The character that a line has to start with. -/
def first : Test → Char
  | header => 'S'
  | step (.names .context) => 'G'
  | step (.names .action) => 'W'
  | step (.names .outcome) => 'T'
  | step .and => 'A'
  | step .but => 'B'
  | fence => '"'
  | row => '|'

theorem for?_of_kind?
    {test : Test} {line : List Char} {kind : LineKind} (passes : test.kind? line = some kind) :
    for? kind = some test := by
  cases test with
  | header =>
      obtain ⟨name, -, rfl⟩ := Option.map_eq_some_iff.mp passes
      rfl
  | step keyword =>
      obtain ⟨text, -, rfl⟩ := Option.map_eq_some_iff.mp passes
      rfl
  | fence =>
      rw [← Option.some.inj (Option.ite_none_right_eq_some.mp passes).2]
      rfl
  | row =>
      rw [← Option.some.inj (Option.ite_none_right_eq_some.mp passes).2]
      rfl

theorem head?_of_kind?
    {test : Test} {line : List Char} {kind : LineKind} (passes : test.kind? line = some kind) :
    line.head? = some test.first := by
  cases test with
  | header =>
      obtain ⟨name, after, -⟩ := Option.map_eq_some_iff.mp passes
      rw [Text.after?_eq_some_iff.mp after]
      rfl
  | step keyword =>
      obtain ⟨text, after, -⟩ := Option.map_eq_some_iff.mp passes
      rw [Text.after?_eq_some_iff.mp after]
      rcases keyword with kind | _ | _
      · cases kind <;> rfl
      · rfl
      · rfl
  | fence =>
      obtain ⟨rfl, -⟩ := Option.ite_none_right_eq_some.mp passes
      rfl
  | row => exact (Option.ite_none_right_eq_some.mp passes).1

theorem first_not_blank (test : Test) : Text.isBlank test.first = false := by
  have none : ∀ other ∈ all, Text.isBlank other.first = false := by decide
  exact none test test.mem_all

theorem first_injective : Function.Injective first := by
  intro test other same
  have distinct : (all.map first).Nodup := by decide
  exact List.inj_on_of_nodup_map distinct test.mem_all other.mem_all same

/-- No line passes two tests, since they differ in the first character. -/
theorem unique
    {test other : Test} {line : List Char} (passes : (test.kind? line).isSome = true)
    (passesOther : (other.kind? line).isSome = true) : test = other := by
  obtain ⟨kind, isKind⟩ := Option.isSome_iff_exists.mp passes
  obtain ⟨otherKind, isOther⟩ := Option.isSome_iff_exists.mp passesOther
  have sameStart := (head?_of_kind? isKind).symm.trans (head?_of_kind? isOther)
  exact first_injective (Option.some.inj sameStart)

end Test

theorem ofTrimmed_eq (line : List Char) :
    ofTrimmed line = (Test.all.findSome? (·.kind? line)).getD .other := by
  have steps : (Keyword.all.map Test.step).findSome? (·.kind? line) = stepOf? line := by
    rw [List.findSome?_map]
    rfl
  rw [ofTrimmed, Test.all, List.findSome?_cons, List.findSome?_append, steps]
  cases header : Text.after? headerWord line with
  | some name => simp [Test.kind?, header]
  | none =>
      cases stepOf? line with
      | some kind => simp [Test.kind?, header]
      | none =>
          by_cases isFence : line = fenceText.toList
          · subst isFence
            rfl
          · by_cases isRow : line.head? = some '|'
            · simp [Test.kind?, header, isFence, isRow]
            · simp [Test.kind?, header, isFence, isRow]

/-- A line that passes a test is of the kind of that test. -/
theorem ofTrimmed_of_kind?
    {test : Test} {line : List Char} {kind : LineKind} (passes : test.kind? line = some kind) :
    ofTrimmed line = kind := by
  rw [ofTrimmed_eq]
  cases found : Test.all.findSome? (·.kind? line) with
  | none =>
      rw [List.findSome?_eq_none_iff.mp found test test.mem_all] at passes
      cases passes
  | some firstKind =>
      obtain ⟨other, -, hits⟩ := List.exists_of_findSome?_eq_some found
      obtain rfl := Test.unique (Option.isSome_of_eq_some passes) (Option.isSome_of_eq_some hits)
      exact Option.some.inj (hits.symm.trans passes)

theorem ofTrimmed_of_none
    {line : List Char} (fails : ∀ test : Test, test.kind? line = none) :
    ofTrimmed line = .other := by
  rw [ofTrimmed_eq, List.findSome?_eq_none_iff.mpr fun test _ => fails test]
  rfl

/-- A line of a known kind has passed the test for it. -/
theorem kind?_of_ofTrimmed
    {test : Test} {line : List Char} {kind : LineKind} (isKind : ofTrimmed line = kind)
    (isFor : Test.for? kind = some test) : test.kind? line = some kind := by
  subst isKind
  by_cases passes : ∃ other kind, Test.kind? other line = some kind
  · obtain ⟨other, kind, hits⟩ := passes
    rw [ofTrimmed_of_kind? hits] at isFor ⊢
    obtain rfl := Option.some.inj ((Test.for?_of_kind? hits).symm.trans isFor)
    exact hits
  · have fails (other : Test) : other.kind? line = none :=
      Option.eq_none_iff_forall_ne_some.mpr fun kind hits => passes ⟨other, kind, hits⟩
    rw [ofTrimmed_of_none fails] at isFor
    cases isFor

/-- The tests may be tried in any order. -/
theorem ofTrimmed_in_order
    {order : List Test} (complete : ∀ test : Test, test ∈ order) (line : List Char) :
    (order.findSome? (·.kind? line)).getD .other = ofTrimmed line := by
  cases found : order.findSome? (·.kind? line) with
  | none =>
      have fails := List.findSome?_eq_none_iff.mp found
      exact (ofTrimmed_of_none fun test => fails test (complete test)).symm
  | some kind =>
      obtain ⟨test, -, passes⟩ := List.exists_of_findSome?_eq_some found
      exact (ofTrimmed_of_kind? passes).symm

end Gherkin.LineKind

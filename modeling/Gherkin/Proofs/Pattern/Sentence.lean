import Gherkin.Proofs.Pattern.Decomposition

/-!
Contract: sentences written along a pattern, and that the pattern captures what was written.

Owns: the values that may be written for a placeholder, the sentence that they make, and
the patterns in which no value runs into what stands behind it.
Does not own: which other pattern matches the same sentence.
Main statements: `captures?_of_filled`, `Pattern.captures?_sentence`.

A value that was written is the first part that the search tries: quotes are tried first,
and a run is as long as it can be if what stands behind it is of another class.
-/

set_option autoImplicit false

namespace Gherkin

namespace Placeholder

/-- A value that may be written for the placeholder: a string without quotes, a word
without blanks, or a number of sixty-three bits. -/
inductive Takes : Placeholder → Argument → Prop where
  | string {s : String} (quoteFree : '"' ∉ s.toList) : Takes .string (.text s)
  | word {s : String} (nonempty : s.toList ≠ [])
      (blankFree : ∀ c ∈ s.toList, Text.isBlank c = false) : Takes .word (.text s)
  | int {n : Nat} (inRange : n < Nat.pow 2 63) : Takes .int (.int n)

/-- What is written for a value: a string in quotes, a word as it is, a number in digits.
No other argument is ever written. -/
def part : Placeholder → Argument → Part
  | .string, .text s => .quoted s.toList
  | _, .text s => .run s.toList
  | _, .int n => .run (Text.signedNumeral n).toList
  | _, .docString _ | _, .table _ => .run []

/-- A run of the placeholder's class goes no further into this text. -/
def EndsBefore : Placeholder → List Char → Prop
  | .string, _ => True
  | .int, rest => ∀ c ∈ rest.head?, Text.isDecimalDigit c = false
  | .word, rest => ∀ c ∈ rest.head?, Text.isBlank c = true

instance decidableEndsBefore : (placeholder : Placeholder) → (rest : List Char) →
    Decidable (placeholder.EndsBefore rest)
  | .string, _ => .isTrue trivial
  | .int, rest => Option.decidableForallMem rest.head?
  | .word, rest => Option.decidableForallMem rest.head?

end Placeholder

namespace Cut

def sentence (cut : Cut) (values : List Argument) : List Char :=
  cut.fill (List.zipWith Placeholder.part cut.placeholders values)

/-- Each placeholder is kept apart from the next one by a literal that ends it. -/
def Separated : List (Placeholder × List Char) → Prop
  | [] => True
  | (placeholder, literal) :: holes =>
      (literal ≠ [] ∨ holes = []) ∧ placeholder.EndsBefore literal ∧ Separated holes

instance decidableSeparated : (holes : List (Placeholder × List Char)) →
    Decidable (Separated holes)
  | [] => .isTrue trivial
  | (placeholder, literal) :: holes =>
      have := decidableSeparated holes
      inferInstanceAs (Decidable ((literal ≠ [] ∨ holes = []) ∧
        placeholder.EndsBefore literal ∧ Separated holes))

end Cut

/-- What stands behind the placeholder ends its values: a word ends at a blank or with the
text, a number at any character but a digit, at a string, or with the text. A string brings
its own end. -/
def Placeholder.DelimitedBy :
    Placeholder → List Char → List (Placeholder × List Char) → Prop
  | .string, _, _ => True
  | .int, [], holes => ∀ next ∈ holes.head?, next.1 = .string
  | .int, c :: _, _ => Text.isDecimalDigit c = false
  | .word, [], holes => holes = []
  | .word, c :: _, _ => Text.isBlank c = true

/-- Each placeholder is delimited by the literal and the placeholders behind it. -/
def Cut.Delimited : List (Placeholder × List Char) → Prop
  | [] => True
  | (placeholder, literal) :: holes =>
      placeholder.DelimitedBy literal holes ∧ Delimited holes

/-- Placeholders that literals keep apart are delimited. -/
theorem Cut.Separated.delimited
    {holes : List (Placeholder × List Char)} (separated : Separated holes) :
    Delimited holes := by
  induction holes with
  | nil => trivial
  | cons hole holes inductionHypothesis =>
      obtain ⟨placeholder, literal⟩ := hole
      obtain ⟨apart, ends, later⟩ := separated
      refine ⟨?_, inductionHypothesis later⟩
      cases literal with
      | nil =>
          obtain rfl : holes = [] := apart.resolve_left fun nonempty => nonempty rfl
          cases placeholder with
          | string => trivial
          | int => exact nofun
          | word => rfl
      | cons c cs =>
          cases placeholder with
          | string => trivial
          | int => exact ends c rfl
          | word => exact ends c rfl

/-- The sentence in which values stand in the places of the placeholders. -/
def Pattern.sentence (pattern : Pattern) (values : List Argument) : String :=
  String.ofList ((Cut.ofPieces (Piece.ofText pattern.text.toList)).sentence values)

/-! ## The values of what is written -/

theorem isDecimalDigit_of_isDigit {c : Char} (digit : c.isDigit = true) :
    Text.isDecimalDigit c = true := by
  simp only [Char.isDigit, Bool.and_eq_true, decide_eq_true_eq, UInt32.le_iff_toNat_le] at digit
  apply List.any_eq_true.mpr
  refine ⟨0x30, by decide, ?_⟩
  have low : 48 ≤ c.toNat := digit.1
  have high : c.toNat ≤ 57 := digit.2
  simp only [Bool.and_eq_true, decide_eq_true_eq]
  omega

theorem Placeholder.part_int (n : Nat) :
    Placeholder.int.part (.int n) = .run (Nat.toDigits 10 n) :=
  congrArg Part.run String.toList_ofList

theorem isDigit_of_mem_numeral {n : Nat} {c : Char} (member : c ∈ Nat.toDigits 10 n) :
    c.isDigit = true :=
  Nat.isDigit_of_mem_toDigits (by decide) (by decide) member

theorem isNumeral_toDigits {n : Nat} (inRange : n < Nat.pow 2 63) :
    IsNumeral (Nat.toDigits 10 n) := by
  refine ⟨?_, ?_⟩
  · apply Pattern.all_isDigit_iff.mp
    exact List.all_eq_true.mpr fun c member => isDigit_of_mem_numeral member
  · rw [Nat.ofDigitChars_toDigits (by decide) (by decide)]
    exact inRange

theorem Placeholder.Takes.value?_part
    {placeholder : Placeholder} {value : Argument} (takes : placeholder.Takes value) :
    Pattern.value? placeholder (placeholder.part value) = some value := by
  cases takes with
  | @string s quoteFree => simp [Placeholder.part, Pattern.value?]
  | @word s nonempty blankFree => simp [Placeholder.part, Pattern.value?, Part.text]
  | @int n inRange =>
      rw [part_int, Pattern.value?_int_of_isNumeral Nat.toDigits_ne_nil
        (isNumeral_toDigits inRange), Nat.ofDigitChars_toDigits (by decide) (by decide)]

theorem values?_written
    {placeholders : List Placeholder} {values : List Argument}
    (take : List.Forall₂ Placeholder.Takes placeholders values) :
    Pattern.values? placeholders (List.zipWith Placeholder.part placeholders values) =
      some values := by
  induction take with
  | nil => rfl
  | cons takes _ inductionHypothesis =>
      rw [List.zipWith_cons_cons, Pattern.values?_cons, takes.value?_part, inductionHypothesis]
      rfl

/-! ## What is written is tried first -/

namespace Matching

theorem head?_runs
    {inClass : Char → Bool} {run rest : List Char} (nonempty : run ≠ [])
    (allIn : ∀ c ∈ run, inClass c = true) (ends : ∀ c ∈ rest.head?, inClass c = false) :
    (runs inClass (run ++ rest)).head? = some (run, rest) := by
  induction run with
  | nil => contradiction
  | cons c cs inductionHypothesis =>
      have first := allIn c List.mem_cons_self
      by_cases single : cs = []
      · subst single
        have noLonger : runs inClass rest = [] := by
          cases rest with
          | nil => rfl
          | cons d rest => simp [runs, ends d rfl]
        simp [runs, first, noLonger]
      · have later := inductionHypothesis single fun d member =>
          allIn d (List.mem_cons_of_mem c member)
        simp [runs, first, List.head?_append, List.head?_map, later]

theorem head?_parts_written
    {mode : StringMode} {placeholder : Placeholder} {value : Argument} {rest : List Char}
    (takes : placeholder.Takes value) (ends : placeholder.EndsBefore rest) :
    (parts mode placeholder ((placeholder.part value).text ++ rest)).head? =
      some (placeholder.part value, rest) := by
  cases takes with
  | @string s quoteFree =>
      have quoted : quotation? ((Part.quoted s.toList).text ++ rest) = some (s.toList, rest) :=
        quotation?_eq_some_iff.mpr ⟨quoteFree, rfl⟩
      cases mode <;> simp [parts, quotations, Placeholder.part, quoted]
  | @word s nonempty blankFree =>
      have longest : (runs notBlank (s.toList ++ rest)).head? = some (s.toList, rest) := by
        apply head?_runs nonempty
        · intro c member
          simp [notBlank, blankFree c member]
        · intro c isFirst
          simp [notBlank, ends c isFirst]
      simp [parts, runParts, Placeholder.part, Part.text, List.head?_map, longest]
  | @int n inRange =>
      have isDecimal : ∀ c ∈ Nat.toDigits 10 n, Text.isDecimalDigit c = true :=
        fun c member => isDecimalDigit_of_isDigit (isDigit_of_mem_numeral member)
      have longest := head?_runs Nat.toDigits_ne_nil isDecimal ends
      simp [parts, runParts, Placeholder.part_int, Part.text, List.head?_map, longest]

end Matching

namespace Cut

/-- No value goes further than it was written. -/
theorem Delimited.endsBefore
    {placeholder : Placeholder} {literal : List Char} {holes : List (Placeholder × List Char)}
    (delimited : Delimited ((placeholder, literal) :: holes)) {values : List Argument}
    (take : List.Forall₂ Placeholder.Takes (placeholders ⟨literal, holes⟩) values) :
    placeholder.EndsBefore (sentence ⟨literal, holes⟩ values) := by
  have ends := delimited.1
  cases literal with
  | cons c cs =>
      have first : (sentence ⟨c :: cs, holes⟩ values).head? = some c := rfl
      cases placeholder with
      | string => trivial
      | int =>
          intro d isFirst
          rw [← Option.some.inj (first.symm.trans isFirst)]
          exact ends
      | word =>
          intro d isFirst
          rw [← Option.some.inj (first.symm.trans isFirst)]
          exact ends
  | nil =>
      cases placeholder with
      | string => trivial
      | word =>
          obtain rfl : holes = [] := ends
          exact nofun
      | int =>
          cases holes with
          | nil => exact nofun
          | cons next holes =>
              -- The string behind the number starts with its quote.
              obtain ⟨following, literal⟩ := next
              obtain rfl : following = .string := ends _ rfl
              obtain ⟨value, later, takes, -, rfl⟩ := List.forall₂_cons_left_iff.mp take
              cases takes with
              | string quoteFree =>
                  intro d isFirst
                  obtain rfl : '"' = d := Option.some.inj isFirst
                  decide

/-- The search finds what was written. -/
theorem preferred?_sentence
    (mode : StringMode) {cut : Cut} {values : List Argument} (delimited : Delimited cut.holes)
    (take : List.Forall₂ Placeholder.Takes cut.placeholders values) :
    Matching.preferred? mode cut.pieces (cut.sentence values) =
      some (List.zipWith Placeholder.part cut.placeholders values) := by
  obtain ⟨front, holes⟩ := cut
  induction holes generalizing front values with
  | nil =>
      have ended := Matching.preferred?_literal_append mode front [] []
      rw [List.append_nil, List.append_nil] at ended
      simp [sentence, fill, pieces, piecesOfHoles, placeholders, ended, Matching.preferred?]
  | cons hole holes inductionHypothesis =>
      obtain ⟨placeholder, literal⟩ := hole
      obtain ⟨value, later, takes, takeLater, rfl⟩ := List.forall₂_cons_left_iff.mp take
      have found := inductionHypothesis literal delimited.2 takeLater
      have ends := delimited.endsBefore takeLater
      obtain ⟨others, tried⟩ := List.head?_eq_some_iff.mp
        (Matching.head?_parts_written takes ends)
      have written : sentence ⟨front, (placeholder, literal) :: holes⟩ (value :: later) =
          front ++ ((placeholder.part value).text ++ sentence ⟨literal, holes⟩ later) := by
        simp [sentence, fill, placeholders]
      rw [written, pieces, piecesOfHoles_cons, Matching.preferred?_literal_append,
        Matching.preferred?_hole, tried, List.findSome?_cons, found]
      rfl

end Cut

/-- A pattern captures the values that were written along its cut. -/
theorem Pattern.captures?_written
    (pattern : Pattern) {cut : Cut} (isOf : cut.IsOf pattern.text.toList)
    (delimited : Cut.Delimited cut.holes) {values : List Argument}
    (take : List.Forall₂ Placeholder.Takes cut.placeholders values) :
    pattern.captures? (String.ofList (cut.sentence values)) = some values := by
  have found := Cut.preferred?_sentence pattern.mode delimited take
  rw [pattern.captures?_eq isOf, String.toList_ofList, found]
  exact values?_written take

/-- A pattern that keeps its placeholders apart captures the values that were written. -/
theorem Pattern.captures?_sentence
    {pattern : Pattern} {values : List Argument}
    (separated : Cut.Separated (Cut.ofPieces (Piece.ofText pattern.text.toList)).holes)
    (take : List.Forall₂ Placeholder.Takes pattern.placeholders values) :
    pattern.captures? (pattern.sentence values) = some values := by
  have isOf := Cut.ofPieces_isOf pattern.text.toList
  rw [pattern.placeholders_eq isOf] at take
  exact pattern.captures?_written isOf separated.delimited take

/-- Values that are written in the places of delimited placeholders are matched, and
captured as they were. -/
theorem captures?_of_filled
    {text : String} {mode : StringMode} {refuses : Pattern → Bool} {pattern : Pattern}
    (compiled : Pattern.ofText text mode refuses = .ok pattern) {cut : Cut}
    (isOf : cut.IsOf text.toList)
    (delimited : Cut.Delimited cut.holes) {values : List Argument}
    (take : List.Forall₂ Placeholder.Takes cut.placeholders values) :
    pattern.isMatch (String.ofList (cut.sentence values)) = true ∧
      pattern.captures? (String.ofList (cut.sentence values)) = some values := by
  obtain ⟨rfl, -⟩ := Pattern.text_of_ofText compiled
  have captured := pattern.captures?_written isOf delimited take
  refine ⟨?_, captured⟩
  rw [Pattern.isMatch, captured]
  rfl

/-- A number and strings without anything between them, and a string that looks like a
placeholder. -/
theorem captures?_of_filled_adjacent :
    ∃ (pattern : Pattern) (cut : Cut),
      Pattern.ofText "{int}{string}{string}* {word} \x7b" .lenient = .ok pattern ∧
        cut.IsOf "{int}{string}{string}* {word} \x7b".toList ∧ Cut.Delimited cut.holes ∧
        List.Forall₂ Placeholder.Takes cut.placeholders
          [.int 7, .text "a\n{int}", .text "", .text "x\"y"] ∧
        pattern.isMatch "7\"a\n{int}\"\"\"* x\"y \x7b" = true ∧
        pattern.captures? "7\"a\n{int}\"\"\"* x\"y \x7b" =
          some [.int 7, .text "a\n{int}", .text "", .text "x\"y"] := by
  obtain ⟨pattern, compiled⟩ :
      ∃ pattern, Pattern.ofText "{int}{string}{string}* {word} \x7b" .lenient = .ok pattern :=
    ⟨_, rfl⟩
  let cut : Cut :=
    ⟨[], [(.int, []), (.string, []), (.string, ['*', ' ']), (.word, [' ', '\x7b'])]⟩
  have isOf : cut.IsOf "{int}{string}{string}* {word} \x7b".toList :=
    Cut.isOf_of_eq (by decide +kernel)
  have delimited : Cut.Delimited cut.holes :=
    ⟨fun next isNext => by rw [← Option.some.inj isNext], trivial, trivial, rfl, trivial⟩
  have take : List.Forall₂ Placeholder.Takes cut.placeholders
      [.int 7, .text "a\n{int}", .text "", .text "x\"y"] :=
    .cons (.int (n := 7) (by decide)) (.cons (.string (by decide)) (.cons (.string (by decide))
      (.cons (.word (by decide) (by simp [Text.isBlank])) .nil)))
  have sentence : String.ofList (cut.sentence
      [.int 7, .text "a\n{int}", .text "", .text "x\"y"]) =
        "7\"a\n{int}\"\"\"* x\"y \x7b" := by
    decide +kernel
  have filled := captures?_of_filled compiled isOf delimited take
  rw [sentence] at filled
  exact ⟨pattern, cut, compiled, isOf, delimited, take, filled⟩

end Gherkin

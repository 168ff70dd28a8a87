import Gherkin.Proofs.Pattern.Decomposition

/-!
Contract: what a pattern captures with strict strings it captures with lenient ones, too.

Owns: texts that pieces match, and that lenient strings change nothing where strict ones
match and no word is captured.
Does not own: the search (`Gherkin.Pattern.Matching`).
Main statement: `captures?_lenient`.

A lenient string may be a bare token, so more texts match behind a number, and the search
might stop at a longer number than before. It does not: where digits are left to the
pieces behind the number, these take them up to the same place in both ways, for a strict
string starts with a quote, and what is no string reads digits the same in both modes.
-/

set_option autoImplicit false

namespace Gherkin

namespace Matching

/-- The pieces match the text as a whole. -/
def Matches (mode : StringMode) (pieces : List Piece) (cs : List Char) : Prop :=
  preferred? mode pieces cs ≠ none

theorem matches_literal_iff
    {mode : StringMode} {c : Char} {pieces : List Piece} {cs : List Char} :
    Matches mode (.literal c :: pieces) cs ↔ ∃ rest, cs = c :: rest ∧ Matches mode pieces rest := by
  cases cs with
  | nil => simp [Matches, preferred?]
  | cons d cs =>
      by_cases same : d = c
      · simp [Matches, preferred?, same]
      · simp [Matches, preferred?, same]

theorem matches_hole_iff
    {mode : StringMode} {placeholder : Placeholder} {pieces : List Piece} {cs : List Char} :
    Matches mode (.hole placeholder :: pieces) cs ↔
      ∃ (part : Part) (rest : List Char), part.Fits mode placeholder ∧ cs = part.text ++ rest ∧
        Matches mode pieces rest := by
  rw [Matches, preferred?_hole, Ne, List.findSome?_eq_none_iff]
  constructor
  · intro someWay
    push Not at someWay
    obtain ⟨⟨part, rest⟩, tried, leads⟩ := someWay
    obtain ⟨fits, whole⟩ := mem_parts_iff.mp tried
    exact ⟨part, rest, fits, whole, fun missed => leads (Option.map_eq_none_iff.mpr missed)⟩
  · intro way noWay
    obtain ⟨part, rest, fits, whole, leads⟩ := way
    have missed := noWay (part, rest) (mem_parts_iff.mpr ⟨fits, whole⟩)
    exact leads (Option.map_eq_none_iff.mp missed)

theorem matches_int_iff
    {mode : StringMode} {pieces : List Piece} {cs : List Char} :
    Matches mode (.hole .int :: pieces) cs ↔
      ∃ digits rest, digits ≠ [] ∧ (∀ c ∈ digits, Text.isDecimalDigit c = true) ∧
        cs = digits ++ rest ∧ Matches mode pieces rest := by
  rw [matches_hole_iff]
  constructor
  · intro way
    obtain ⟨part, rest, fits, whole, leads⟩ := way
    cases fits with
    | int nonempty decimal => exact ⟨_, rest, nonempty, decimal, whole, leads⟩
  · intro way
    obtain ⟨digits, rest, nonempty, decimal, whole, leads⟩ := way
    exact ⟨.run digits, rest, .int nonempty decimal, whole, leads⟩

/-- Pieces that match with digits in front of a text, and with lenient strings without these
digits, match with strict strings without them. What stands in front of the first string
takes the digits, and it reads the rest alike in both modes. -/
theorem Matches.without_digits
    {pieces : List Piece} (wordless : .hole .word ∉ pieces) {digits cs : List Char}
    (decimal : ∀ c ∈ digits, Text.isDecimalDigit c = true)
    (strict : Matches .strict pieces (digits ++ cs)) (lenient : Matches .lenient pieces cs) :
    Matches .strict pieces cs := by
  induction pieces generalizing digits cs with
  | nil =>
      cases cs with
      | nil => exact nofun
      | cons c cs => exact absurd rfl lenient
  | cons piece pieces inductionHypothesis =>
      have wordlessLater : .hole .word ∉ pieces :=
        fun member => wordless (List.mem_cons_of_mem piece member)
      rcases digits with _ | ⟨digit, digits⟩
      · exact strict
      · cases piece with
        | literal c =>
            -- The digit in front is the literal, so the literal in the text is a digit, too.
            obtain ⟨rest, whole, later⟩ := matches_literal_iff.mp strict
            obtain ⟨rest', rfl, later'⟩ := matches_literal_iff.mp lenient
            obtain ⟨rfl, rfl⟩ := List.cons.inj whole
            obtain ⟨decimalFirst, decimalLater⟩ := List.forall_mem_cons.mp decimal
            have decimalHere : ∀ c ∈ digits ++ [digit], Text.isDecimalDigit c = true :=
              List.forall_mem_append.mpr ⟨decimalLater, List.forall_mem_singleton.mpr decimalFirst⟩
            have further : Matches .strict pieces ((digits ++ [digit]) ++ rest') := by
              simpa using later
            have fromHere := inductionHypothesis wordlessLater decimalHere further later'
            exact matches_literal_iff.mpr ⟨rest', rfl, fromHere⟩
        | hole placeholder =>
            cases placeholder with
            | word => exact absurd List.mem_cons_self wordless
            | string =>
                obtain ⟨part, rest, fits, whole, -⟩ := matches_hole_iff.mp strict
                cases fits with
                | quoted quoteFree =>
                    obtain ⟨rfl, -⟩ := List.cons.inj whole
                    exact absurd (decimal '"' List.mem_cons_self) (by decide)
                | bare notLenient => contradiction
            | int =>
                obtain ⟨run, rest, nonempty, allDigits, whole, later⟩ :=
                  matches_int_iff.mp strict
                obtain ⟨run', rest', nonempty', allDigits', rfl, later'⟩ :=
                  matches_int_iff.mp lenient
                have regrouped : (digit :: digits ++ run') ++ rest' = run ++ rest := by
                  rw [List.append_assoc]
                  exact whole
                rcases List.append_eq_append_iff.mp regrouped with
                  ⟨more, rfl, rfl⟩ | ⟨more, sameDigits, rfl⟩
                · -- The strict number ends further on; it does so from here, too.
                  rw [List.append_assoc] at allDigits
                  exact matches_int_iff.mpr ⟨run' ++ more, rest, by simp [nonempty'],
                    (List.forall_mem_append.mp allDigits).2, by simp, later⟩
                · -- The lenient number ends further on, behind digits that the strict one left.
                  have decimalBoth := List.forall_mem_append.mpr ⟨decimal, allDigits'⟩
                  rw [sameDigits] at decimalBoth
                  have decimalMore := (List.forall_mem_append.mp decimalBoth).2
                  have fromHere := inductionHypothesis wordlessLater decimalMore later later'
                  exact matches_int_iff.mpr ⟨run', rest', nonempty', allDigits', rfl, fromHere⟩

theorem quotations_eq_of_mem
    {cs : List Char} {way : Part × List Char} (tried : way ∈ quotations cs) :
    quotations cs = [way] := by
  unfold quotations at tried ⊢
  cases quoted : quotation? cs with
  | none => simp [quoted] at tried
  | some found =>
      rw [quoted] at tried
      rw [List.mem_singleton.mp tried]
      rfl

/-- A longer number than the one found leads nowhere, with lenient strings either. -/
theorem not_matches_longer
    {pieces : List Piece} (wordless : .hole .word ∉ pieces) {cs : List Char}
    {part part' : Part} {rest rest' : List Char} (before : part'.Before part)
    (tried : (part, rest) ∈ parts .strict .int cs)
    (tried' : (part', rest') ∈ parts .strict .int cs)
    (leads : Matches .strict pieces rest) (missed : ¬ Matches .strict pieces rest') :
    ¬ Matches .lenient pieces rest' := by
  intro lenient
  obtain ⟨fits, whole⟩ := mem_parts_iff.mp tried
  obtain ⟨fits', rfl⟩ := mem_parts_iff.mp tried'
  cases fits with
  | @int run nonempty decimal =>
      cases fits' with
      | @int longer nonempty' decimal' =>
          cases before with
          | longerFirst isLonger =>
              change longer ++ rest' = run ++ rest at whole
              rcases List.append_eq_append_iff.mp whole with
                ⟨more, isRun, -⟩ | ⟨more, isRun, rfl⟩
              · have noLonger := congrArg List.length isRun
                rw [List.length_append] at noLonger
                omega
              · rw [isRun] at decimal'
                have decimalMore := (List.forall_mem_append.mp decimal').2
                exact missed (leads.without_digits wordless decimalMore lenient)

/-- The numbers that strict strings rule out, in front of the first that they allow, are
ruled out by lenient ones, too. -/
theorem missed_lenient
    {pieces : List Piece} (wordless : .hole .word ∉ pieces) {cs : List Char}
    {earlier later : List (Part × List Char)} {part : Part} {rest : List Char}
    (tried : parts .strict .int cs = earlier ++ (part, rest) :: later)
    (leads : Matches .strict pieces rest)
    (missed : ∀ way ∈ earlier, preferred? .strict pieces way.2 = none) :
    ∀ way ∈ earlier, preferred? .lenient pieces way.2 = none := by
  intro way inEarlier
  have ordered := parts_pairwise .strict .int cs
  rw [tried] at ordered
  have before : way.1.Before part :=
    (List.pairwise_append.mp ordered).2.2 _ inEarlier _ List.mem_cons_self
  have isTried : (part, rest) ∈ parts .strict .int cs := by
    rw [tried]
    exact List.mem_append_right _ List.mem_cons_self
  have isTriedEarlier : way ∈ parts .strict .int cs := by
    rw [tried]
    exact List.mem_append_left _ inEarlier
  have noWay := not_matches_longer wordless before isTried isTriedEarlier leads
    fun matched => matched (missed way inEarlier)
  exact not_not.mp noWay

/-- Where strict strings match, lenient ones match in the same way. -/
theorem preferred?_lenient
    {pieces : List Piece} (wordless : .hole .word ∉ pieces) {cs : List Char} {found : List Part}
    (strict : preferred? .strict pieces cs = some found) :
    preferred? .lenient pieces cs = some found := by
  induction pieces generalizing cs found with
  | nil =>
      cases cs with
      | nil => exact strict
      | cons c cs => exact strict
  | cons piece pieces inductionHypothesis =>
      have wordlessLater : .hole .word ∉ pieces :=
        fun member => wordless (List.mem_cons_of_mem piece member)
      cases piece with
      | literal c =>
          cases cs with
          | nil => exact strict
          | cons d cs =>
              by_cases same : d = c
              · simp only [preferred?, same, ↓reduceIte] at strict ⊢
                exact inductionHypothesis wordlessLater strict
              · simp [preferred?, same] at strict
      | hole placeholder =>
          rw [preferred?_hole] at strict ⊢
          cases placeholder with
          | word => exact absurd List.mem_cons_self wordless
          | string =>
              -- There is one quoted text at most, and it comes first in both modes.
              obtain ⟨⟨part, rest⟩, tried, taken⟩ := List.exists_of_findSome?_eq_some strict
              obtain ⟨later, behind, rfl⟩ := Option.map_eq_some_iff.mp taken
              have sameBehind := inductionHypothesis wordlessLater behind
              show (quotations cs ++ runParts notBlank cs).findSome? _ = _
              rw [quotations_eq_of_mem tried, List.singleton_append, List.findSome?_cons,
                sameBehind]
              rfl
          | int =>
              obtain ⟨earlier, ⟨part, rest⟩, others, tried, taken, missed⟩ :=
                List.findSome?_eq_some_iff.mp strict
              obtain ⟨later, behind, rfl⟩ := Option.map_eq_some_iff.mp taken
              have leads : Matches .strict pieces rest := by simp [Matches, behind]
              have missedHere := missed_lenient wordlessLater tried leads
                fun way inEarlier => Option.map_eq_none_iff.mp (missed way inEarlier)
              refine List.findSome?_eq_some_iff.mpr ⟨earlier, (part, rest), others, tried, ?_,
                fun way inEarlier => Option.map_eq_none_iff.mpr (missedHere way inEarlier)⟩
              rw [inductionHypothesis wordlessLater behind]
              rfl

end Matching

/-- Whatever a pattern without words captures with strict strings, it captures with
lenient ones. -/
theorem captures?_lenient
    {text : String} {refuses : Pattern → Bool} {strict lenient : Pattern}
    (compiled : Pattern.ofText text .strict refuses = .ok strict)
    (compiledLenient : Pattern.ofText text .lenient refuses = .ok lenient)
    (wordless : .word ∉ strict.placeholders) {subject : String} {arguments : List Argument}
    (captured : strict.captures? subject = some arguments) :
    lenient.captures? subject = some arguments := by
  obtain ⟨sameText, isStrict⟩ := Pattern.text_of_ofText compiled
  obtain ⟨sameText', isLenient⟩ := Pattern.text_of_ofText compiledLenient
  have samePieces : lenient.pieces = strict.pieces := by
    rw [lenient.pieces_eq, strict.pieces_eq, sameText, sameText']
  have wordlessPieces : .hole .word ∉ strict.pieces := by
    intro member
    exact wordless (List.mem_filterMap.mpr ⟨_, member, rfl⟩)
  rw [Pattern.captures?, Matching.match?_eq_preferred?, isStrict] at captured
  obtain ⟨parts, found, valued⟩ := Option.bind_eq_some_iff.mp captured
  rw [Pattern.captures?, Matching.match?_eq_preferred?, isLenient, Pattern.placeholders,
    samePieces, Matching.preferred?_lenient wordlessPieces found]
  exact valued

/-- Digits that a lenient string could take, behind a literal that is a digit. -/
theorem captures?_lenient_of_digits :
    ∃ strict lenient,
      Pattern.ofText "{int}2{int}{string}" .strict = .ok strict ∧
        Pattern.ofText "{int}2{int}{string}" .lenient = .ok lenient ∧
        .word ∉ strict.placeholders ∧
        strict.captures? "12223\"4\"" = some [.int 122, .int 3, .text "4"] ∧
        lenient.captures? "12223\"4\"" = some [.int 122, .int 3, .text "4"] := by
  have compiled : ∀ mode, ∃ pattern, Pattern.ofText "{int}2{int}{string}" mode = .ok pattern ∧
      pattern = ⟨"{int}2{int}{string}", mode, _, rfl⟩ :=
    fun mode => ⟨_, rfl, rfl⟩
  obtain ⟨strict, compiles, isStrict⟩ := compiled .strict
  obtain ⟨lenient, compilesLenient, -⟩ := compiled .lenient
  have wordless : .word ∉ strict.placeholders := by
    rw [isStrict]
    decide +kernel
  have captured : strict.captures? "12223\"4\"" = some [.int 122, .int 3, .text "4"] := by
    rw [isStrict]
    decide +kernel
  exact ⟨strict, lenient, compiles, compilesLenient, wordless, captured,
    captures?_lenient compiles compilesLenient wordless captured⟩

/-- A word may take the quote of a string that follows it. -/
example :
    Matching.preferred? .strict [.hole .word, .hole .string] "a\"b\"".toList =
        some [.run ['a'], .quoted ['b']] ∧
      Matching.preferred? .lenient [.hole .word, .hole .string] "a\"b\"".toList =
        some [.run ['a', '"', 'b'], .run ['"']] := by
  decide +kernel

end Gherkin

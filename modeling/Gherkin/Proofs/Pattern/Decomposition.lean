import Mathlib.Data.List.Forall2
import Mathlib.Data.List.Lex
import Gherkin.Pattern.Captures
import Gherkin.Proofs.Pattern.Cut

/-!
Contract: what it means that a pattern matches a text, and that matching finds it.

Owns: decompositions of a text along a cut pattern, the order of preference among them,
the value of a part, and the agreement of `Pattern.captures?` with all three.
Does not own: how the search runs (`Gherkin.Pattern.Matching`), nor the cutting of
patterns (`Gherkin.Proofs.Pattern.Cut`).
Main statement: `captures?_of_preferred_decomposition`.

A decomposition says for each placeholder which stretch of the text it stands for. The
preferred one is the first in the lexicographic order: the leftmost placeholder whose
parts differ decides.
-/

set_option autoImplicit false

namespace Gherkin

/-! ## Decompositions -/

inductive Part.Fits (mode : StringMode) : Placeholder → Part → Prop where
  | quoted {inside : List Char} (quoteFree : '"' ∉ inside) : Fits mode .string (.quoted inside)
  | bare {token : List Char} (lenient : mode = .lenient) (nonempty : token ≠ [])
      (blankFree : ∀ c ∈ token, Text.isBlank c = false) : Fits mode .string (.run token)
  | int {digits : List Char} (nonempty : digits ≠ [])
      (decimal : ∀ c ∈ digits, Text.isDecimalDigit c = true) : Fits mode .int (.run digits)
  | word {token : List Char} (nonempty : token ≠ [])
      (blankFree : ∀ c ∈ token, Text.isBlank c = false) : Fits mode .word (.run token)

/-- Which of two parts in the same place is preferred: quoted before bare, longer before
shorter. -/
inductive Part.Before : Part → Part → Prop where
  | quotedFirst (inside token : List Char) : Before (.quoted inside) (.run token)
  | longerFirst {longer shorter : List Char} (longer_length : shorter.length < longer.length) :
      Before (.run longer) (.run shorter)

namespace Cut

/-- The text in which each placeholder gives way to a part. -/
def fill (cut : Cut) (parts : List Part) : List Char :=
  cut.front ++
    (List.zipWith (fun part hole => part.text ++ hole.2) parts cut.holes).flatten

/-- The parts make the whole text along the cut, and each fits its placeholder. -/
structure IsDecomposition (mode : StringMode) (cut : Cut) (parts : List Part)
    (text : List Char) : Prop where
  fits : List.Forall₂ (Part.Fits mode) cut.placeholders parts
  fill_eq : cut.fill parts = text

structure IsPreferred (mode : StringMode) (cut : Cut) (parts : List Part)
    (text : List Char) : Prop where
  isDecomposition : cut.IsDecomposition mode parts text
  first : ∀ other, cut.IsDecomposition mode other text →
    other = parts ∨ List.Lex Part.Before parts other

end Cut

/-! ## Values -/

/-- What is left of a token without one quote at its start and then one at its end. -/
def IsUnquoted (token inner : List Char) : Prop :=
  ∃ opened,
    (token = '"' :: opened ∨ token.head? ≠ some '"' ∧ opened = token) ∧
      (opened = inner ++ ['"'] ∨ opened.getLast? ≠ some '"' ∧ inner = opened)

/-- The digits are those of a number of sixty-three bits in the usual decimal script. -/
def IsNumeral (digits : List Char) : Prop :=
  (∀ c ∈ digits, '0' ≤ c ∧ c ≤ '9') ∧ Nat.ofDigitChars 10 digits 0 < Nat.pow 2 63

/-- The argument that a part is worth. Leading zeros of a number play no part. -/
inductive Part.Denotes : Placeholder → Part → Argument → Prop where
  | int {digits : List Char} (numeral : IsNumeral digits) :
      Denotes .int (.run digits) (.int (Nat.ofDigitChars 10 digits 0))
  | quoted (inside : List Char) : Denotes .string (.quoted inside) (.text (String.ofList inside))
  | bare {token inner : List Char} (unquoted : IsUnquoted token inner) :
      Denotes .string (.run token) (.text (String.ofList inner))
  | word (token : List Char) : Denotes .word (.run token) (.text (String.ofList token))

/-- The kind of the arguments that a placeholder gives. -/
inductive Placeholder.Gives : Placeholder → Argument → Prop where
  | string (s : String) : Gives .string (.text s)
  | word (s : String) : Gives .word (.text s)
  | int (n : Nat) : Gives .int (.int n)

/-- What a pattern with this cut and mode captures from a text. -/
structure Cut.Captures (cut : Cut) (mode : StringMode) (text : List Char)
    (captured : Option (List Argument)) : Prop where
  /-- A text without decomposition does not match. -/
  none_of_no_decomposition :
    (¬ ∃ parts, cut.IsDecomposition mode parts text) → captured = none
  /-- Any other text has one preferred decomposition. -/
  preferred :
    (∃ parts, cut.IsDecomposition mode parts text) → ∃! parts, cut.IsPreferred mode parts text
  /-- The arguments are the values of its parts, one for each placeholder in order. -/
  some_iff :
    ∀ parts, cut.IsPreferred mode parts text → ∀ arguments,
      captured = some arguments ↔
        List.Forall₂ (fun (hole : Placeholder × Part) argument =>
          Part.Denotes hole.1 hole.2 argument) (cut.placeholders.zip parts) arguments
  /-- Only a number that is too great or in another script has no value, and then
  nothing is captured: the other decompositions are not looked at. -/
  none_iff :
    ∀ parts, cut.IsPreferred mode parts text →
      (captured = none ↔
        ∃ digits, (Placeholder.int, Part.run digits) ∈ cut.placeholders.zip parts ∧
          ¬ IsNumeral digits)

/-! ## The parts that the search tries -/

namespace Matching

theorem mem_runs_iff
    {inClass : Char → Bool} {cs run rest : List Char} :
    (run, rest) ∈ runs inClass cs ↔
      run ≠ [] ∧ (∀ c ∈ run, inClass c = true) ∧ cs = run ++ rest := by
  induction cs generalizing run rest with
  | nil =>
      simp only [runs, List.not_mem_nil, false_iff]
      intro isRun
      obtain ⟨nonempty, -, whole⟩ := isRun
      exact nonempty (List.append_eq_nil_iff.mp whole.symm).1
  | cons c cs inductionHypothesis =>
      by_cases member : inClass c
      · simp only [runs, member, ↓reduceIte, List.mem_append, List.mem_map, Prod.mk.injEq,
          Prod.exists, List.mem_singleton]
        constructor
        · intro tried
          rcases tried with ⟨later, others, found, rfl, rfl⟩ | ⟨rfl, rfl⟩
          · obtain ⟨nonempty, allIn, rfl⟩ := inductionHypothesis.mp found
            refine ⟨by simp, ?_, by simp⟩
            simpa [member] using allIn
          · simp [member]
        · intro isRun
          obtain ⟨nonempty, allIn, whole⟩ := isRun
          obtain ⟨d, later, rfl⟩ := List.exists_cons_of_ne_nil nonempty
          obtain ⟨rfl, rfl⟩ := List.cons.inj whole
          by_cases single : later = []
          · exact .inr ⟨by rw [single], by simp [single]⟩
          · refine .inl ⟨later, rest, inductionHypothesis.mpr ⟨single, ?_, rfl⟩, rfl, rfl⟩
            exact fun e inLater => allIn e (List.mem_cons_of_mem c inLater)
      · simp only [runs, member, Bool.false_eq_true, ↓reduceIte, List.not_mem_nil, false_iff]
        intro isRun
        obtain ⟨nonempty, allIn, whole⟩ := isRun
        obtain ⟨d, later, rfl⟩ := List.exists_cons_of_ne_nil nonempty
        obtain ⟨rfl, -⟩ := List.cons.inj whole
        exact member (allIn c List.mem_cons_self)

theorem runs_pairwise (inClass : Char → Bool) (cs : List Char) :
    (runs inClass cs).Pairwise fun a b => b.1.length < a.1.length := by
  induction cs with
  | nil => exact .nil
  | cons c cs inductionHypothesis =>
      by_cases member : inClass c
      · simp only [runs, member, ↓reduceIte]
        refine List.pairwise_append.mpr ⟨?_, List.pairwise_singleton _ _, ?_⟩
        · rw [List.pairwise_map]
          exact inductionHypothesis.imp fun shorter => by simpa using shorter
        · intro longer inLonger single isSingle
          obtain ⟨⟨run, rest⟩, found, rfl⟩ := List.mem_map.mp inLonger
          have nonempty := (mem_runs_iff.mp found).1
          rw [List.mem_singleton.mp isSingle]
          simpa [List.length_pos_iff] using nonempty
      · simp [runs, member]

theorem quotation?_eq_some_iff {cs inside rest : List Char} :
    quotation? cs = some (inside, rest) ↔
      '"' ∉ inside ∧ cs = (Part.quoted inside).text ++ rest := by
  constructor
  · intro found
    unfold quotation? at found
    split at found
    · obtain ⟨rfl, quoteFree⟩ := Text.cutAt?_eq_some found
      exact ⟨quoteFree, by simp [Part.text]⟩
    · contradiction
  · intro written
    obtain ⟨quoteFree, rfl⟩ := written
    have closes := Text.cutAt?_append quoteFree rest
    simpa [Part.text, quotation?] using closes

theorem mem_runParts_iff
    {inClass : Char → Bool} {cs rest : List Char} {part : Part} :
    (part, rest) ∈ runParts inClass cs ↔
      ∃ run, part = .run run ∧ run ≠ [] ∧ (∀ c ∈ run, inClass c = true) ∧
        cs = part.text ++ rest := by
  simp only [runParts, List.mem_map, Prod.exists, Prod.mk.injEq, mem_runs_iff]
  constructor
  · intro tried
    obtain ⟨run, others, ⟨nonempty, allIn, whole⟩, rfl, rfl⟩ := tried
    exact ⟨run, rfl, nonempty, allIn, whole⟩
  · intro fits
    obtain ⟨run, rfl, nonempty, allIn, whole⟩ := fits
    exact ⟨run, rest, ⟨nonempty, allIn, whole⟩, rfl, rfl⟩

theorem mem_quotations_iff {cs rest : List Char} {part : Part} :
    (part, rest) ∈ quotations cs ↔
      ∃ inside, part = .quoted inside ∧ '"' ∉ inside ∧ cs = part.text ++ rest := by
  simp only [quotations, List.mem_map, Option.mem_toList, Prod.exists, Prod.mk.injEq,
    quotation?_eq_some_iff]
  constructor
  · intro tried
    obtain ⟨inside, others, ⟨quoteFree, whole⟩, rfl, rfl⟩ := tried
    exact ⟨inside, rfl, quoteFree, whole⟩
  · intro fits
    obtain ⟨inside, rfl, quoteFree, whole⟩ := fits
    exact ⟨inside, rest, ⟨quoteFree, whole⟩, rfl, rfl⟩

/-- The search tries exactly the parts that fit, each with what it leaves. -/
theorem mem_parts_iff
    {mode : StringMode} {placeholder : Placeholder} {cs rest : List Char} {part : Part} :
    (part, rest) ∈ parts mode placeholder cs ↔
      part.Fits mode placeholder ∧ cs = part.text ++ rest := by
  have blankFree : ∀ c, notBlank c = true ↔ Text.isBlank c = false := by
    simp [notBlank]
  constructor
  · intro tried
    cases placeholder with
    | string =>
        cases mode with
        | strict =>
            obtain ⟨inside, rfl, quoteFree, whole⟩ := mem_quotations_iff.mp tried
            exact ⟨.quoted quoteFree, whole⟩
        | lenient =>
            rcases List.mem_append.mp tried with quoted | bare
            · obtain ⟨inside, rfl, quoteFree, whole⟩ := mem_quotations_iff.mp quoted
              exact ⟨.quoted quoteFree, whole⟩
            · obtain ⟨run, rfl, nonempty, allIn, whole⟩ := mem_runParts_iff.mp bare
              exact ⟨.bare rfl nonempty fun c member => (blankFree c).mp (allIn c member), whole⟩
    | int =>
        obtain ⟨run, rfl, nonempty, allIn, whole⟩ := mem_runParts_iff.mp tried
        exact ⟨.int nonempty allIn, whole⟩
    | word =>
        obtain ⟨run, rfl, nonempty, allIn, whole⟩ := mem_runParts_iff.mp tried
        exact ⟨.word nonempty fun c member => (blankFree c).mp (allIn c member), whole⟩
  · intro allowed
    obtain ⟨fits, whole⟩ := allowed
    cases fits with
    | @quoted inside quoteFree =>
        have quoted := mem_quotations_iff.mpr ⟨inside, rfl, quoteFree, whole⟩
        cases mode with
        | strict => exact quoted
        | lenient => exact List.mem_append_left _ quoted
    | @bare token lenient nonempty free =>
        subst lenient
        exact List.mem_append_right _ (mem_runParts_iff.mpr
          ⟨token, rfl, nonempty, fun c member => (blankFree c).mpr (free c member), whole⟩)
    | @int digits nonempty decimal =>
        exact mem_runParts_iff.mpr ⟨digits, rfl, nonempty, decimal, whole⟩
    | @word token nonempty free =>
        exact mem_runParts_iff.mpr
          ⟨token, rfl, nonempty, fun c member => (blankFree c).mpr (free c member), whole⟩

theorem runParts_pairwise (inClass : Char → Bool) (cs : List Char) :
    (runParts inClass cs).Pairwise fun a b => a.1.Before b.1 := by
  rw [runParts, List.pairwise_map]
  exact (runs_pairwise inClass cs).imp .longerFirst

theorem quotations_pairwise (cs : List Char) :
    (quotations cs).Pairwise fun a b => a.1.Before b.1 := by
  rw [quotations, List.pairwise_map]
  cases quotation? cs with
  | none => exact .nil
  | some way => exact List.pairwise_singleton _ way

/-- The search tries the parts in the order of preference. -/
theorem parts_pairwise (mode : StringMode) (placeholder : Placeholder) (cs : List Char) :
    (parts mode placeholder cs).Pairwise fun a b => a.1.Before b.1 := by
  cases placeholder with
  | string =>
      cases mode with
      | strict => exact quotations_pairwise cs
      | lenient =>
          refine List.pairwise_append.mpr
            ⟨quotations_pairwise cs, runParts_pairwise notBlank cs, ?_⟩
          intro first quoted second bare
          obtain ⟨part, afterFirst⟩ := first
          obtain ⟨other, afterSecond⟩ := second
          obtain ⟨inside, rfl, -⟩ := mem_quotations_iff.mp quoted
          obtain ⟨run, rfl, -⟩ := mem_runParts_iff.mp bare
          exact .quotedFirst inside run
  | int => exact runParts_pairwise Text.isDecimalDigit cs
  | word => exact runParts_pairwise notBlank cs

/-! ## The search along a cut -/

theorem preferred?_literal_append
    (mode : StringMode) (literal cs : List Char) (pieces : List Piece) :
    preferred? mode (literal.map .literal ++ pieces) (literal ++ cs) =
      preferred? mode pieces cs := by
  induction literal with
  | nil => rfl
  | cons c literal inductionHypothesis => simp [preferred?, inductionHypothesis]

theorem starts_of_preferred?_literal
    {mode : StringMode} {literal text : List Char} {pieces : List Piece} {parts : List Part}
    (found : preferred? mode (literal.map .literal ++ pieces) text = some parts) :
    ∃ cs, text = literal ++ cs ∧ preferred? mode pieces cs = some parts := by
  induction literal generalizing text with
  | nil => exact ⟨text, rfl, found⟩
  | cons c literal inductionHypothesis =>
      cases text with
      | nil => simp [preferred?] at found
      | cons d text =>
          by_cases same : d = c
          · subst same
            simp only [List.map_cons, List.cons_append, preferred?, ↓reduceIte] at found
            obtain ⟨cs, rfl, later⟩ := inductionHypothesis found
            exact ⟨cs, rfl, later⟩
          · simp [preferred?, same] at found

theorem preferred?_hole
    (mode : StringMode) (placeholder : Placeholder) (pieces : List Piece) (cs : List Char) :
    preferred? mode (.hole placeholder :: pieces) cs =
      (parts mode placeholder cs).findSome? fun way =>
        (preferred? mode pieces way.2).map (way.1 :: ·) := by
  cases cs <;> rfl

end Matching

namespace Cut

theorem isDecomposition_nil_iff
    {mode : StringMode} {front text : List Char} {parts : List Part} :
    IsDecomposition mode ⟨front, []⟩ parts text ↔ parts = [] ∧ text = front := by
  constructor
  · intro decomposition
    obtain ⟨fits, whole⟩ := decomposition
    have noParts : parts = [] := List.forall₂_nil_left_iff.mp fits
    exact ⟨noParts, by simpa [fill] using whole.symm⟩
  · intro single
    obtain ⟨rfl, rfl⟩ := single
    exact ⟨.nil, by simp [fill]⟩

/-- A decomposition starts with the first literal and a part for the first placeholder,
and goes on as a decomposition along the rest of the cut. -/
theorem isDecomposition_cons_iff
    {mode : StringMode} {front literal text : List Char} {placeholder : Placeholder}
    {holes : List (Placeholder × List Char)} {parts : List Part} :
    IsDecomposition mode ⟨front, (placeholder, literal) :: holes⟩ parts text ↔
      ∃ part later rest, parts = part :: later ∧ part.Fits mode placeholder ∧
        text = front ++ (part.text ++ rest) ∧ IsDecomposition mode ⟨literal, holes⟩ later rest := by
  constructor
  · intro decomposition
    obtain ⟨fits, whole⟩ := decomposition
    obtain ⟨part, later, fitsFirst, fitsLater, rfl⟩ := List.forall₂_cons_left_iff.mp fits
    refine ⟨part, later, fill ⟨literal, holes⟩ later, rfl, fitsFirst, ?_, fitsLater, rfl⟩
    rw [← whole]
    simp [fill]
  · intro split
    obtain ⟨part, later, rest, rfl, fitsFirst, rfl, fitsLater, rfl⟩ := split
    exact ⟨.cons fitsFirst fitsLater, by simp [fill]⟩

/-- The search misses no decomposition. -/
theorem IsDecomposition.preferred?_ne_none
    {mode : StringMode} {cut : Cut} {parts : List Part} {text : List Char}
    (decomposition : cut.IsDecomposition mode parts text) :
    Matching.preferred? mode cut.pieces text ≠ none := by
  obtain ⟨front, holes⟩ := cut
  induction holes generalizing front parts text with
  | nil =>
      obtain ⟨rfl, rfl⟩ := isDecomposition_nil_iff.mp decomposition
      have ended := Matching.preferred?_literal_append mode text [] []
      rw [List.append_nil, List.append_nil] at ended
      simp [pieces, piecesOfHoles, ended, Matching.preferred?]
  | cons hole holes inductionHypothesis =>
      obtain ⟨placeholder, literal⟩ := hole
      obtain ⟨part, later, rest, rfl, fits, rfl, behind⟩ :=
        isDecomposition_cons_iff.mp decomposition
      have tried : (part, rest) ∈ Matching.parts mode placeholder (part.text ++ rest) :=
        Matching.mem_parts_iff.mpr ⟨fits, rfl⟩
      have reached := inductionHypothesis literal behind
      rw [pieces, piecesOfHoles_cons, Matching.preferred?_literal_append,
        Matching.preferred?_hole]
      intro missed
      have noWay := List.findSome?_eq_none_iff.mp missed (part, rest) tried
      exact reached (Option.map_eq_none_iff.mp noWay)

/-- The search finds the preferred decomposition. -/
theorem isPreferred_of_preferred?
    {mode : StringMode} {cut : Cut} {parts : List Part} {text : List Char}
    (found : Matching.preferred? mode cut.pieces text = some parts) :
    cut.IsPreferred mode parts text := by
  obtain ⟨front, holes⟩ := cut
  induction holes generalizing front parts text with
  | nil =>
      obtain ⟨cs, rfl, ended⟩ := Matching.starts_of_preferred?_literal found
      cases cs with
      | cons c cs => simp [piecesOfHoles, Matching.preferred?] at ended
      | nil =>
          obtain rfl : [] = parts := Option.some.inj ended
          rw [List.append_nil]
          refine ⟨isDecomposition_nil_iff.mpr ⟨rfl, rfl⟩, ?_⟩
          intro other isOther
          exact .inl (isDecomposition_nil_iff.mp isOther).1
  | cons hole holes inductionHypothesis =>
      obtain ⟨placeholder, literal⟩ := hole
      rw [pieces, piecesOfHoles_cons] at found
      obtain ⟨cs, rfl, chosen⟩ := Matching.starts_of_preferred?_literal found
      rw [Matching.preferred?_hole] at chosen
      -- The ways before the one taken lead nowhere, so another decomposition takes the
      -- same way, and is compared behind it, or one that comes later.
      obtain ⟨earlier, ⟨part, rest⟩, others, tried, taken, missed⟩ :=
        List.findSome?_eq_some_iff.mp chosen
      obtain ⟨later, behind, rfl⟩ := Option.map_eq_some_iff.mp taken
      obtain ⟨decomposed, first⟩ := inductionHypothesis literal behind
      have ordered := Matching.parts_pairwise mode placeholder cs
      rw [tried] at ordered
      have fits : part.Fits mode placeholder ∧ cs = part.text ++ rest := by
        apply Matching.mem_parts_iff.mp
        rw [tried]
        simp
      refine ⟨isDecomposition_cons_iff.mpr
        ⟨part, later, rest, rfl, fits.1, by rw [fits.2], decomposed⟩, ?_⟩
      intro other isOther
      obtain ⟨part', later', rest', rfl, fits', whole, decomposed'⟩ :=
        isDecomposition_cons_iff.mp isOther
      have tried' := Matching.mem_parts_iff.mpr ⟨fits', List.append_cancel_left whole⟩
      rw [tried] at tried'
      rcases List.mem_append.mp tried' with inEarlier | inLater
      · have noWay := Option.map_eq_none_iff.mp (missed (part', rest') inEarlier)
        exact absurd noWay decomposed'.preferred?_ne_none
      · rcases List.mem_cons.mp inLater with same | inOthers
        · obtain ⟨rfl, rfl⟩ := Prod.mk.inj same
          rcases first later' decomposed' with rfl | after
          · exact .inl rfl
          · exact .inr (.cons after)
        · have laterOrdered := (List.pairwise_append.mp ordered).2.1
          exact .inr (.rel (List.rel_of_pairwise_cons laterOrdered inOthers))

instance : Std.Asymm Part.Before where
  asymm := by
    intro a b before after
    cases before with
    | quotedFirst inside token => cases after
    | longerFirst longer =>
        cases after with
        | longerFirst shorter => omega

/-- No second decomposition comes before all others. -/
theorem IsPreferred.unique
    {mode : StringMode} {cut : Cut} {parts other : List Part} {text : List Char}
    (preferred : cut.IsPreferred mode parts text) (isOther : cut.IsPreferred mode other text) :
    other = parts := by
  rcases preferred.first other isOther.isDecomposition with same | after
  · exact same
  · rcases isOther.first parts preferred.isDecomposition with same | before
    · exact same.symm
    · exact absurd before (Std.Asymm.asymm _ _ after)

end Cut

/-! ## The values that are captured -/

namespace Pattern

theorem isUnquoted_iff {token inner : List Char} :
    IsUnquoted token inner ↔ inner = unquoted token := by
  have closing : ∀ opened : List Char,
      (opened = inner ++ ['"'] ∨ opened.getLast? ≠ some '"' ∧ inner = opened) ↔
        inner = if opened.getLast? = some '"' then opened.dropLast else opened := by
    intro opened
    by_cases closed : opened.getLast? = some '"'
    · obtain ⟨before, rfl⟩ := List.getLast?_eq_some_iff.mp closed
      simp [eq_comm]
    · have notAppended : opened ≠ inner ++ ['"'] := by
        intro appended
        subst appended
        simp at closed
      simp [closed, notAppended]
  simp only [IsUnquoted, closing]
  cases token with
  | nil => simp [unquoted]
  | cons c cs =>
      by_cases quote : c = '"'
      · subst quote
        simp [unquoted]
      · simp [unquoted, quote]

theorem all_isDigit_iff {digits : List Char} :
    digits.all Char.isDigit = true ↔ ∀ c ∈ digits, '0' ≤ c ∧ c ≤ '9' := by
  simp [Char.isDigit, Char.le_def]

theorem value?_int_of_isNumeral
    {digits : List Char} (nonempty : digits ≠ []) (numeral : IsNumeral digits) :
    value? .int (.run digits) = some (.int (Nat.ofDigitChars 10 digits 0)) := by
  obtain ⟨ascii, small⟩ := numeral
  have read : Text.readNumeral? digits = some (Nat.ofDigitChars 10 digits 0) := by
    simp [Text.readNumeral?, nonempty, all_isDigit_iff.mpr ascii]
  have inRange : Nat.ofDigitChars 10 digits 0 ≤ greatestInt := Nat.le_of_lt_succ small
  simp [value?, Part.text, read, inRange]

theorem value?_int_of_not_isNumeral
    {digits : List Char} (notNumeral : ¬ IsNumeral digits) :
    value? .int (.run digits) = none := by
  by_cases ascii : digits.all Char.isDigit = true
  · have great : ¬ Nat.ofDigitChars 10 digits 0 ≤ greatestInt := by
      intro inRange
      exact notNumeral ⟨all_isDigit_iff.mp ascii, Nat.lt_succ_of_le inRange⟩
    by_cases empty : digits.isEmpty
    · simp [value?, Part.text, Text.readNumeral?, empty]
    · simp [value?, Part.text, Text.readNumeral?, empty, ascii, great]
  · simp [value?, Part.text, Text.readNumeral?, ascii]

/-- A part that fits its placeholder has the value that it denotes, or none. -/
theorem value?_eq_some_iff
    {mode : StringMode} {placeholder : Placeholder} {part : Part} {argument : Argument}
    (fits : part.Fits mode placeholder) :
    value? placeholder part = some argument ↔ part.Denotes placeholder argument := by
  cases fits with
  | @quoted inside quoteFree =>
      constructor
      · intro valued
        obtain rfl := Option.some.inj valued
        exact .quoted inside
      · intro denotes
        cases denotes
        rfl
  | @bare token lenient nonempty blankFree =>
      constructor
      · intro valued
        obtain rfl := Option.some.inj valued
        exact .bare (isUnquoted_iff.mpr rfl)
      · intro denotes
        cases denotes with
        | bare stripped => rw [isUnquoted_iff.mp stripped]; rfl
  | @int digits nonempty decimal =>
      constructor
      · intro valued
        by_cases numeral : IsNumeral digits
        · rw [value?_int_of_isNumeral nonempty numeral] at valued
          obtain rfl := Option.some.inj valued
          exact .int numeral
        · rw [value?_int_of_not_isNumeral numeral] at valued
          contradiction
      · intro denotes
        cases denotes with
        | int numeral => exact value?_int_of_isNumeral nonempty numeral
  | @word token nonempty blankFree =>
      constructor
      · intro valued
        obtain rfl := Option.some.inj valued
        exact .word token
      · intro denotes
        cases denotes
        rfl

/-- Only the numbers out of range and those in other scripts have no value. -/
theorem value?_eq_none_iff
    {mode : StringMode} {placeholder : Placeholder} {part : Part}
    (fits : part.Fits mode placeholder) :
    value? placeholder part = none ↔
      ∃ digits, (Placeholder.int, Part.run digits) = (placeholder, part) ∧
        ¬ IsNumeral digits := by
  cases fits with
  | @int digits nonempty decimal =>
      by_cases numeral : IsNumeral digits
      · simp [value?_int_of_isNumeral nonempty numeral, numeral]
      · simp [value?_int_of_not_isNumeral numeral, numeral]
  | quoted quoteFree => simp [value?]
  | bare lenient nonempty blankFree => simp [value?]
  | word nonempty blankFree => simp [value?]

theorem values?_cons
    (placeholder : Placeholder) (placeholders : List Placeholder) (part : Part)
    (parts : List Part) :
    values? (placeholder :: placeholders) (part :: parts) =
      (value? placeholder part).bind fun value =>
        (values? placeholders parts).map (value :: ·) :=
  rfl

theorem values?_eq_some_iff
    {mode : StringMode} {placeholders : List Placeholder} {parts : List Part}
    (fits : List.Forall₂ (Part.Fits mode) placeholders parts) (arguments : List Argument) :
    values? placeholders parts = some arguments ↔
      List.Forall₂ (fun (hole : Placeholder × Part) argument =>
        Part.Denotes hole.1 hole.2 argument) (placeholders.zip parts) arguments := by
  induction fits generalizing arguments with
  | nil => simp [values?, eq_comm]
  | @cons placeholder part placeholders parts fitsFirst fitsLater inductionHypothesis =>
      rw [values?_cons, List.zip_cons_cons, List.forall₂_cons_left_iff]
      simp only [Option.bind_eq_some_iff, Option.map_eq_some_iff, value?_eq_some_iff fitsFirst,
        inductionHypothesis]
      constructor
      · intro valued
        obtain ⟨value, denotes, values, denote, rfl⟩ := valued
        exact ⟨value, values, denotes, denote, rfl⟩
      · intro valued
        obtain ⟨value, values, denotes, denote, rfl⟩ := valued
        exact ⟨value, denotes, values, denote, rfl⟩

theorem values?_eq_none_iff
    {mode : StringMode} {placeholders : List Placeholder} {parts : List Part}
    (fits : List.Forall₂ (Part.Fits mode) placeholders parts) :
    values? placeholders parts = none ↔
      ∃ digits, (Placeholder.int, Part.run digits) ∈ placeholders.zip parts ∧
        ¬ IsNumeral digits := by
  induction fits with
  | nil => simp [values?]
  | @cons placeholder part placeholders parts fitsFirst fitsLater inductionHypothesis =>
      have eitherFails :
          values? (placeholder :: placeholders) (part :: parts) = none ↔
            value? placeholder part = none ∨ values? placeholders parts = none := by
        rw [values?_cons]
        cases value? placeholder part <;> simp
      rw [eitherFails, value?_eq_none_iff fitsFirst, inductionHypothesis, List.zip_cons_cons]
      simp only [List.mem_cons, or_and_right, exists_or]

theorem placeholders_eq
    (pattern : Pattern) {cut : Cut} (isOf : cut.IsOf pattern.text.toList) :
    pattern.placeholders = cut.placeholders := by
  rw [placeholders, pattern.pieces_eq, isOf.pieces_eq, cut.filterMap_placeholder?_pieces]

theorem captures?_eq
    (pattern : Pattern) {cut : Cut} (isOf : cut.IsOf pattern.text.toList) (subject : String) :
    pattern.captures? subject =
      (Matching.preferred? pattern.mode cut.pieces subject.toList).bind
        (values? cut.placeholders) := by
  rw [captures?, Matching.match?_eq_preferred?, pattern.pieces_eq, isOf.pieces_eq,
    pattern.placeholders_eq isOf]

/-- A pattern captures along each cut of its text. -/
theorem captures
    (pattern : Pattern) {cut : Cut} (isOf : cut.IsOf pattern.text.toList) (subject : String) :
    cut.Captures pattern.mode subject.toList (pattern.captures? subject) := by
  rw [pattern.captures?_eq isOf]
  cases found : Matching.preferred? pattern.mode cut.pieces subject.toList with
  | none =>
      have noDecomposition : ∀ parts, ¬ cut.IsDecomposition pattern.mode parts subject.toList :=
        fun parts decomposition => decomposition.preferred?_ne_none found
      refine ⟨fun _ => rfl, ?_, ?_, ?_⟩
      · intro decomposed
        obtain ⟨parts, decomposition⟩ := decomposed
        exact absurd decomposition (noDecomposition parts)
      · intro parts preferred
        exact absurd preferred.isDecomposition (noDecomposition parts)
      · intro parts preferred
        exact absurd preferred.isDecomposition (noDecomposition parts)
  | some parts =>
      have preferred := Cut.isPreferred_of_preferred? found
      have fits := preferred.isDecomposition.fits
      refine ⟨?_, ?_, ?_, ?_⟩
      · intro noDecomposition
        exact absurd ⟨parts, preferred.isDecomposition⟩ noDecomposition
      · intro _
        exact ⟨parts, preferred, fun other isOther => preferred.unique isOther⟩
      · intro other isOther arguments
        rw [preferred.unique isOther]
        exact values?_eq_some_iff fits arguments
      · intro other isOther
        rw [preferred.unique isOther]
        exact values?_eq_none_iff fits

/-! ## The kinds of values -/

theorem gives_of_value?
    {mode : StringMode} {placeholder : Placeholder} {part : Part} {argument : Argument}
    (fits : part.Fits mode placeholder) (valued : value? placeholder part = some argument) :
    placeholder.Gives argument := by
  cases (value?_eq_some_iff fits).mp valued with
  | int numeral => exact .int _
  | quoted inside => exact .string _
  | bare unquoted => exact .string _
  | word token => exact .word _

theorem gives_of_values?
    {mode : StringMode} {placeholders : List Placeholder} {parts : List Part}
    (fits : List.Forall₂ (Part.Fits mode) placeholders parts) {arguments : List Argument}
    (valued : values? placeholders parts = some arguments) :
    List.Forall₂ Placeholder.Gives placeholders arguments := by
  induction fits generalizing arguments with
  | nil =>
      obtain rfl := Option.some.inj valued
      exact .nil
  | cons fitsFirst _ inductionHypothesis =>
      rw [values?_cons] at valued
      obtain ⟨value, valuedFirst, behind⟩ := Option.bind_eq_some_iff.mp valued
      obtain ⟨values, valuedLater, rfl⟩ := Option.map_eq_some_iff.mp behind
      exact .cons (gives_of_value? fitsFirst valuedFirst) (inductionHypothesis valuedLater)

/-- What is captured has the kinds of the placeholders, one value for each. -/
theorem gives_of_captures?
    {pattern : Pattern} {subject : String} {arguments : List Argument}
    (captured : pattern.captures? subject = some arguments) :
    List.Forall₂ Placeholder.Gives pattern.placeholders arguments := by
  have isOf := Cut.ofPieces_isOf pattern.text.toList
  rw [pattern.captures?_eq isOf] at captured
  obtain ⟨parts, found, valued⟩ := Option.bind_eq_some_iff.mp captured
  rw [pattern.placeholders_eq isOf]
  exact gives_of_values? (Cut.isPreferred_of_preferred? found).isDecomposition.fits valued

end Pattern

/-- Matching means looking at the preferred decomposition along the cut of the pattern:
its parts have the arguments as values, and a text without decomposition does not match. -/
theorem captures?_of_preferred_decomposition
    {text : String} {mode : StringMode} {refuses : Pattern → Bool} {pattern : Pattern}
    (compiled : Pattern.ofText text mode refuses = .ok pattern) :
    ∃ cut : Cut,
      cut.IsOf text.toList ∧ (∀ other : Cut, other.IsOf text.toList → other = cut) ∧
        ∀ subject : String, cut.Captures mode subject.toList (pattern.captures? subject) := by
  obtain ⟨rfl, rfl⟩ := Pattern.text_of_ofText compiled
  have isOf := Cut.ofPieces_isOf pattern.text.toList
  exact ⟨_, isOf, fun other isOther => isOther.eq_ofPieces, pattern.captures isOf⟩

theorem captures?_of_adjacent_placeholders :
    ∃ pattern, Pattern.ofText "{{int}} is {string}{int}" .lenient = .ok pattern ∧
      ∃ cut : Cut,
        cut.IsOf "{{int}} is {string}{int}".toList ∧
          (∀ other : Cut, other.IsOf "{{int}} is {string}{int}".toList → other = cut) ∧
          ∀ subject : String,
            cut.Captures .lenient subject.toList (pattern.captures? subject) := by
  have compiled : Pattern.ofText "{{int}} is {string}{int}" .lenient =
      .ok (.of "{{int}} is {string}{int}" .lenient) :=
    rfl
  exact ⟨_, compiled, captures?_of_preferred_decomposition compiled⟩

end Gherkin

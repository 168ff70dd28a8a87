import Gherkin.Pattern.Piece

/-!
Contract: patterns cut at the places where a placeholder is written.

Owns: cuts, which of them belong to a pattern, and that each pattern has exactly one.
Does not own: how a cut pattern matches a text (`Gherkin.Proofs.Pattern.Decomposition`).
Main statements: `Cut.ofPieces_isOf`, the pieces of a pattern give its cut, and
`Cut.IsOf.pieces_eq`, every cut of the pattern gives its pieces.

A placeholder holds no second opening brace, so two placeholders never overlap and none
reaches from a literal into the placeholder behind it. This is why a cut is unique.
-/

set_option autoImplicit false

namespace Gherkin

/-- A pattern in literals and placeholders: the literal in front, then each placeholder
with the literal behind it. Literals may be empty. -/
structure Cut where
  front : List Char
  holes : List (Placeholder × List Char)
deriving DecidableEq, Repr

namespace Cut

def placeholders (cut : Cut) : List Placeholder :=
  cut.holes.map Prod.fst

/-- The literals, one more than there are placeholders. -/
def literals (cut : Cut) : List (List Char) :=
  cut.front :: cut.holes.map Prod.snd

def textOfHoles (holes : List (Placeholder × List Char)) : List Char :=
  holes.flatMap fun hole => hole.1.text ++ hole.2

/-- The placeholders and literals written behind each other. -/
def text (cut : Cut) : List Char :=
  cut.front ++ textOfHoles cut.holes

/-- No placeholder is written in the literal. -/
def Free (literal : List Char) : Prop :=
  ∀ placeholder : Placeholder, ¬ placeholder.text <:+: literal

/-- The cut of a pattern: nothing is lost, and every place where a placeholder is
written is a place of the cut. -/
structure IsOf (cut : Cut) (pattern : List Char) : Prop where
  text_eq : cut.text = pattern
  literals_free : ∀ literal ∈ cut.literals, Free literal

def piecesOfHoles (holes : List (Placeholder × List Char)) : List Piece :=
  holes.flatMap fun hole => .hole hole.1 :: hole.2.map .literal

def pieces (cut : Cut) : List Piece :=
  cut.front.map .literal ++ piecesOfHoles cut.holes

/-- Gathers pieces into literals and placeholders. -/
def ofPieces : List Piece → Cut
  | [] => ⟨[], []⟩
  | .literal c :: pieces => ⟨c :: (ofPieces pieces).front, (ofPieces pieces).holes⟩
  | .hole placeholder :: pieces =>
      ⟨[], (placeholder, (ofPieces pieces).front) :: (ofPieces pieces).holes⟩

end Cut

/-! ## Reading the pieces of a pattern -/

namespace Piece

theorem ofText_placeholder (placeholder : Placeholder) (rest : List Char) :
    ofText (placeholder.text ++ rest) = .hole placeholder :: ofText rest := by
  cases placeholder <;> rfl

/-- Where no placeholder is written, a character stands for itself. -/
theorem ofText_character
    {c : Char} {cs : List Char}
    (free : ∀ placeholder : Placeholder, ¬ placeholder.text <+: c :: cs) :
    ofText (c :: cs) = .literal c :: ofText cs := by
  rw [ofText.eq_def]
  split
  · next rest written => exact absurd ⟨rest, written.symm⟩ (free .string)
  · next rest written => exact absurd ⟨rest, written.symm⟩ (free .int)
  · next rest written => exact absurd ⟨rest, written.symm⟩ (free .word)
  · next written =>
      obtain ⟨rfl, rfl⟩ := List.cons.inj written
      rfl
  · next written => exact absurd written (List.cons_ne_nil c cs)

/-- A placeholder that is written at the start of a literal and what follows it lies in
the literal, if what follows is another placeholder or nothing. -/
theorem placeholder_prefix_literal
    {placeholder : Placeholder} {c : Char} {cs rest : List Char}
    (opens : ∀ d ∈ rest.head?, d = '{')
    (written : placeholder.text <+: c :: (cs ++ rest)) :
    placeholder.text <+: c :: cs := by
  have literalFirst : c :: cs <+: c :: (cs ++ rest) := ⟨rest, rfl⟩
  rcases List.prefix_or_prefix_of_prefix written literalFirst with inside | ⟨reached, beyond⟩
  · exact inside
  · cases reached with
    | nil => exact ⟨[], by simpa using beyond.symm⟩
    | cons d ds =>
        obtain ⟨after, whole⟩ := written
        have follows : rest = d :: (ds ++ after) := by
          rw [← beyond] at whole
          simpa using whole.symm
        have brace : d = '{' := opens d (by simp [follows])
        have second : '{' ∈ placeholder.text.tail := by
          rw [← beyond, brace]
          simp
        cases placeholder <;> exact absurd second (by decide)

theorem ofText_literal_append
    {literal rest : List Char}
    (free : Cut.Free literal)
    (opens : ∀ d ∈ rest.head?, d = '{') :
    ofText (literal ++ rest) = literal.map .literal ++ ofText rest := by
  induction literal with
  | nil => rfl
  | cons c cs inductionHypothesis =>
      have here : ∀ placeholder : Placeholder, ¬ placeholder.text <+: c :: (cs ++ rest) := by
        intro placeholder written
        exact free placeholder (placeholder_prefix_literal opens written).isInfix
      have later : Cut.Free cs := by
        intro placeholder written
        exact free placeholder (List.infix_cons written)
      rw [List.cons_append, ofText_character here, inductionHypothesis later]
      rfl

end Piece

/-! ## The cut of a pattern -/

namespace Cut

@[simp] theorem textOfHoles_cons
    (placeholder : Placeholder) (literal : List Char) (holes : List (Placeholder × List Char)) :
    textOfHoles ((placeholder, literal) :: holes) =
      placeholder.text ++ text ⟨literal, holes⟩ := by
  simp [textOfHoles, text]

@[simp] theorem piecesOfHoles_cons
    (placeholder : Placeholder) (literal : List Char) (holes : List (Placeholder × List Char)) :
    piecesOfHoles ((placeholder, literal) :: holes) =
      .hole placeholder :: pieces ⟨literal, holes⟩ := by
  simp [piecesOfHoles, pieces]

/-- What is written behind a literal starts with a brace. -/
theorem head?_textOfHoles (holes : List (Placeholder × List Char)) :
    ∀ d ∈ (textOfHoles holes).head?, d = '{' := by
  cases holes with
  | nil => simp [textOfHoles]
  | cons hole holes => simp [textOfHoles, Placeholder.text]

/-- Reading a pattern gives the pieces of its cut. -/
theorem IsOf.pieces_eq
    {cut : Cut} {pattern : List Char} (isOf : cut.IsOf pattern) :
    Piece.ofText pattern = cut.pieces := by
  obtain ⟨rfl, free⟩ := isOf
  obtain ⟨front, holes⟩ := cut
  induction holes generalizing front with
  | nil =>
      rw [text, Piece.ofText_literal_append (free front (by simp [literals]))
        (head?_textOfHoles [])]
      rfl
  | cons hole holes inductionHypothesis =>
      obtain ⟨placeholder, literal⟩ := hole
      have behind : Piece.ofText (text ⟨literal, holes⟩) = pieces ⟨literal, holes⟩ := by
        apply inductionHypothesis
        intro other member
        exact free other (List.mem_cons_of_mem front member)
      rw [text, Piece.ofText_literal_append (free front (by simp [literals]))
        (head?_textOfHoles _)]
      rw [textOfHoles_cons, Piece.ofText_placeholder, behind]
      simp [pieces]

theorem text_ofPieces (given : List Piece) :
    (ofPieces given).text = given.flatMap Piece.text := by
  induction given with
  | nil => rfl
  | cons piece given inductionHypothesis =>
      rw [List.flatMap_cons, ← inductionHypothesis]
      cases piece with
      | literal c => rfl
      | hole placeholder => rw [ofPieces, text, textOfHoles_cons]; rfl

theorem ofPieces_literal_append (literal : List Char) (given : List Piece) :
    ofPieces (literal.map .literal ++ given) =
      ⟨literal ++ (ofPieces given).front, (ofPieces given).holes⟩ := by
  induction literal with
  | nil => rfl
  | cons c cs inductionHypothesis => simp [ofPieces, inductionHypothesis]

theorem ofPieces_pieces (cut : Cut) : ofPieces cut.pieces = cut := by
  obtain ⟨front, holes⟩ := cut
  induction holes generalizing front with
  | nil =>
      rw [pieces, ofPieces_literal_append]
      simp [piecesOfHoles, ofPieces]
  | cons hole holes inductionHypothesis =>
      obtain ⟨placeholder, literal⟩ := hole
      rw [pieces, ofPieces_literal_append, piecesOfHoles_cons, ofPieces, inductionHypothesis]
      simp

theorem pattern_starts_with_front (pattern : List Char) :
    (ofPieces (Piece.ofText pattern)).front <+: pattern := by
  have whole := text_ofPieces (Piece.ofText pattern)
  rw [Piece.text_ofText] at whole
  exact ⟨_, whole⟩

theorem free_nil : Free [] := by
  simp [Free, Placeholder.text]

theorem free_ofPieces_hole
    {given : List Piece} (free : ∀ literal ∈ (ofPieces given).literals, Free literal)
    (placeholder : Placeholder) :
    ∀ literal ∈ (ofPieces (.hole placeholder :: given)).literals, Free literal := by
  intro literal member
  rcases List.mem_cons.mp member with rfl | later
  · exact free_nil
  · exact free literal later

theorem free_ofPieces_ofText (pattern : List Char) :
    ∀ literal ∈ (ofPieces (Piece.ofText pattern)).literals, Free literal := by
  fun_induction Piece.ofText pattern with
  | case1 rest inductionHypothesis => exact free_ofPieces_hole inductionHypothesis .string
  | case2 rest inductionHypothesis => exact free_ofPieces_hole inductionHypothesis .int
  | case3 rest inductionHypothesis => exact free_ofPieces_hole inductionHypothesis .word
  | case4 c rest notString notInt notWord inductionHypothesis =>
      have notHere : ∀ placeholder : Placeholder, ¬ placeholder.text <+: c :: rest := by
        intro placeholder written
        obtain ⟨after, whole⟩ := written
        obtain ⟨brace, behind⟩ := List.cons.inj whole
        cases placeholder with
        | string => exact notString after brace.symm behind.symm
        | int => exact notInt after brace.symm behind.symm
        | word => exact notWord after brace.symm behind.symm
      have first : c :: (ofPieces (Piece.ofText rest)).front <+: c :: rest :=
        List.prefix_cons_inj c |>.mpr (pattern_starts_with_front rest)
      intro literal member
      rcases List.mem_cons.mp member with rfl | later
      · intro placeholder written
        rcases List.infix_cons_iff.mp written with atStart | behind
        · exact notHere placeholder (atStart.trans first)
        · exact inductionHypothesis _ List.mem_cons_self placeholder behind
      · exact inductionHypothesis literal (List.mem_cons_of_mem _ later)
  | case5 =>
      intro literal member
      rw [List.mem_singleton.mp member]
      exact free_nil

/-- The pieces of a pattern give its cut. -/
theorem ofPieces_isOf (pattern : List Char) : (ofPieces (Piece.ofText pattern)).IsOf pattern where
  text_eq := by rw [text_ofPieces, Piece.text_ofText]
  literals_free := free_ofPieces_ofText pattern

theorem isOf_of_eq
    {cut : Cut} {pattern : List Char} (same : cut = ofPieces (Piece.ofText pattern)) :
    cut.IsOf pattern := by
  rw [same]
  exact ofPieces_isOf pattern

/-- A pattern has no second cut. -/
theorem IsOf.eq_ofPieces
    {cut : Cut} {pattern : List Char} (isOf : cut.IsOf pattern) :
    cut = ofPieces (Piece.ofText pattern) := by
  rw [isOf.pieces_eq, ofPieces_pieces]

theorem filterMap_placeholder?_pieces (cut : Cut) :
    cut.pieces.filterMap Piece.placeholder? = cut.placeholders := by
  obtain ⟨front, holes⟩ := cut
  have noneInLiteral : ∀ literal : List Char,
      (literal.map Piece.literal).filterMap Piece.placeholder? = [] := by
    simp [Piece.placeholder?]
  induction holes generalizing front with
  | nil => simp [pieces, piecesOfHoles, placeholders, noneInLiteral]
  | cons hole holes inductionHypothesis =>
      obtain ⟨placeholder, literal⟩ := hole
      have first : (Piece.hole placeholder).placeholder? = some placeholder := rfl
      rw [pieces, List.filterMap_append, noneInLiteral, piecesOfHoles_cons, List.nil_append,
        List.filterMap_cons_some first, inductionHypothesis]
      rfl

end Cut

end Gherkin

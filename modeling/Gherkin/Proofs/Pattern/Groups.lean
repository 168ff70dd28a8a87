import Gherkin.Proofs.Pattern.Decomposition
import Gherkin.Proofs.Pattern.Segments

/-!
Contract: the capture groups of a pattern's expression, and the arguments read off them.

Owns: the groups that an expression opens and their numbers, what the groups hold after a
match, and the reading of the arguments by group numbers.
Does not own: the segments of a pattern (`Gherkin.Proofs.Pattern.Segments`) and the
preferred way to match (`Gherkin.Proofs.Pattern.Decomposition`).
Main statement: `segments_and_groups`.

Groups are numbered from one in the order in which they open. A literal is escaped and opens
none, so the number of groups in front of a placeholder depends on the placeholders before
it alone.
-/

set_option autoImplicit false

namespace Gherkin

/-! ## The groups of an expression -/

namespace Expression

/-- The places at which an expression opens capture groups. A parenthesis opens one unless
it is escaped, stands in brackets, or has a question mark behind it. -/
def openings (inBrackets : Bool) (place : Nat) : List Char → List Nat
  | [] => []
  | '\\' :: _ :: rest => openings inBrackets (place + 2) rest
  | c :: rest =>
      if inBrackets then openings (c != ']') (place + 1) rest
      else if c = '(' ∧ rest.head? ≠ some '?' then place :: openings false (place + 1) rest
      else openings (c == '[') (place + 1) rest

/-- Where the group with this number opens. The number zero stands for the whole match,
which no parenthesis opens. -/
def groupPlace? (expression : List Char) : Nat → Option Nat
  | 0 => none
  | number + 1 => (openings false 0 expression)[number]?

/-- The stretch opens so many groups, and leaves it to what follows to open others. -/
def Opens (stretch : List Char) (count : Nat) : Prop :=
  ∀ (place : Nat) (rest : List Char), ∃ own : List Nat,
    openings false place (stretch ++ rest) =
      own ++ openings false (place + stretch.length) rest ∧
    own.length = count ∧
    ∀ opening ∈ own, place ≤ opening ∧ opening < place + stretch.length

theorem opens_nil : Opens [] 0 := by
  intro place rest
  exact ⟨[], rfl, rfl, by simp⟩

theorem Opens.append
    {first second : List Char} {m n : Nat} (opens : Opens first m) (further : Opens second n) :
    Opens (first ++ second) (m + n) := by
  intro place rest
  obtain ⟨own, split, count, inside⟩ := opens place (second ++ rest)
  obtain ⟨others, splitLater, countLater, insideLater⟩ :=
    further (place + first.length) rest
  refine ⟨own ++ others, ?_, by simp [count, countLater], ?_⟩
  · rw [List.append_assoc, split, splitLater, List.append_assoc, List.length_append,
      Nat.add_assoc]
  · intro opening member
    rw [List.length_append]
    rcases List.mem_append.mp member with here | later
    · have bounds := inside opening here
      omega
    · have bounds := insideLater opening later
      omega

theorem Opens.length_openings {stretch : List Char} {count : Nat} (opens : Opens stretch count) :
    (openings false 0 stretch).length = count := by
  obtain ⟨own, split, counted, _⟩ := opens 0 []
  rw [List.append_nil, openings, List.append_nil] at split
  rw [split, counted]

/-- A character without a meaning of its own opens nothing. -/
theorem opens_plain {c : Char} (backslash : c ≠ '\\') (parenthesis : c ≠ '(')
    (bracket : c ≠ '[') : Opens [c] 0 := by
  intro place rest
  refine ⟨[], ?_, rfl, by simp⟩
  rw [List.cons_append, List.nil_append, List.nil_append, openings.eq_def]
  split
  · next written => contradiction
  · next escaped behind written => exact absurd (List.cons.inj written).1 backslash
  · next other behind _ written =>
      obtain ⟨rfl, rfl⟩ := List.cons.inj written
      have plain : (c == '[') = false := beq_false_of_ne bracket
      simp [parenthesis, plain]

theorem opens_escaped (c : Char) : Opens ['\\', c] 0 := by
  intro place rest
  exact ⟨[], rfl, rfl, by simp⟩

theorem le_of_mem_openings
    {inBrackets : Bool} {place opening : Nat} {expression : List Char}
    (member : opening ∈ openings inBrackets place expression) : place ≤ opening := by
  fun_induction openings inBrackets place expression with
  | case1 => exact absurd member List.not_mem_nil
  | case2 inBrackets place escaped rest inductionHypothesis =>
      have behind := inductionHypothesis member
      omega
  | case3 place c rest _ inductionHypothesis =>
      have behind := inductionHypothesis member
      omega
  | case4 _ place c rest _ _ _ inductionHypothesis =>
      rcases List.mem_cons.mp member with rfl | later
      · exact Nat.le_refl _
      · have behind := inductionHypothesis later
        omega
  | case5 _ place c rest _ _ _ inductionHypothesis =>
      have behind := inductionHypothesis member
      omega

/-- The groups that open in a stretch have the numbers that follow those in front of it. -/
theorem exists_groupPlace?_iff
    {front stretch : List Char} {before count : Nat} (opensFront : Opens front before)
    (opens : Opens stretch count) (back : List Char) (number : Nat) :
    (∃ place, groupPlace? (front ++ (stretch ++ back)) number = some place ∧
        front.length ≤ place ∧ place < front.length + stretch.length) ↔
      before + 1 ≤ number ∧ number < before + 1 + count := by
  obtain ⟨earlier, splitFront, rfl, insideFront⟩ := opensFront 0 (stretch ++ back)
  obtain ⟨own, split, rfl, inside⟩ := opens (0 + front.length) back
  have numbered : ∀ index, groupPlace? (front ++ (stretch ++ back)) (index + 1) =
      (earlier ++ (own ++ openings false (0 + front.length + stretch.length) back))[index]? := by
    intro index
    rw [groupPlace?, splitFront, split]
  cases number with
  | zero => simp [groupPlace?]
  | succ index =>
      simp only [numbered]
      rcases Nat.lt_or_ge index earlier.length with isEarlier | beyond
      · rw [List.getElem?_append_left isEarlier]
        constructor
        · rintro ⟨place, isPlace, _, _⟩
          have bounds := insideFront place (List.mem_of_getElem? isPlace)
          omega
        · omega
      · rw [List.getElem?_append_right beyond]
        rcases Nat.lt_or_ge (index - earlier.length) own.length with isOwn | behind
        · rw [List.getElem?_append_left isOwn, List.getElem?_eq_getElem isOwn]
          have bounds := inside _ (List.getElem_mem isOwn)
          constructor
          · omega
          · intro _
            exact ⟨_, rfl, by omega, by omega⟩
        · rw [List.getElem?_append_right behind]
          constructor
          · rintro ⟨place, isPlace, _, _⟩
            have farther := le_of_mem_openings (List.mem_of_getElem? isPlace)
            omega
          · omega

end Expression

/-! ## The groups of a pattern -/

namespace Placeholder

/-- As many groups as the expression of a placeholder has. -/
def groups : StringMode → Placeholder → Nat
  | .lenient, .string => 2
  | _, _ => 1

/-- As many groups as some placeholders have together. -/
def groupsOf (mode : StringMode) : List Placeholder → Nat
  | [] => 0
  | placeholder :: placeholders => placeholder.groups mode + groupsOf mode placeholders

open Expression

theorem opens_expression (mode : StringMode) (placeholder : Placeholder) :
    Opens (placeholder.expression mode).toList (placeholder.groups mode) := by
  intro place rest
  cases placeholder with
  | string =>
      cases mode with
      | strict => exact ⟨[place + 1], rfl, rfl, by simp [expression]⟩
      | lenient => exact ⟨[place + 4, place + 13], rfl, rfl, by simp [expression]⟩
  | int => exact ⟨[place], by cases mode <;> rfl, by cases mode <;> rfl, by simp [expression]⟩
  | word => exact ⟨[place], by cases mode <;> rfl, by cases mode <;> rfl, by simp [expression]⟩

end Placeholder

namespace Piece

open Expression

theorem opens_literal (mode : StringMode) (c : Char) :
    Opens ((Piece.literal c).expression mode) 0 := by
  show Opens (if c ∈ escapedLiterals then ['\\', c] else [c]) 0
  split
  · exact opens_escaped c
  · next plain =>
      refine opens_plain ?_ ?_ ?_
      all_goals
        rintro rfl
        exact plain (by decide)

theorem opens_flatMap (mode : StringMode) (pieces : List Piece) :
    Opens (pieces.flatMap (expression mode))
      (Placeholder.groupsOf mode (pieces.filterMap placeholder?)) := by
  induction pieces with
  | nil => exact opens_nil
  | cons piece pieces inductionHypothesis =>
      rw [List.flatMap_cons]
      cases piece with
      | literal c =>
          have both := (opens_literal mode c).append inductionHypothesis
          rwa [Nat.zero_add] at both
      | hole placeholder =>
          exact (placeholder.opens_expression mode).append inductionHypothesis

end Piece

namespace Pattern

/-- The number of the first group of the placeholder with this index. -/
def firstGroup (pattern : Pattern) (index : Nat) : Nat :=
  Placeholder.groupsOf pattern.mode (pattern.placeholders.take index) + 1

/-- The expression up to the end of these pieces, if they are the first ones. -/
def expressionBefore (pattern : Pattern) (before : List Piece) : List Char :=
  '^' :: before.flatMap (Piece.expression pattern.mode)

open Expression

theorem opens_expressionBefore (pattern : Pattern) (before : List Piece) :
    Opens (pattern.expressionBefore before)
      (Placeholder.groupsOf pattern.mode (before.filterMap Piece.placeholder?)) := by
  have anchor : Opens ['^'] 0 := opens_plain (by decide) (by decide) (by decide)
  have all := anchor.append (Piece.opens_flatMap pattern.mode before)
  rwa [Nat.zero_add] at all

theorem expression_eq
    {pattern : Pattern} {before after : List Piece} {placeholder : Placeholder}
    (split : pattern.pieces = before ++ .hole placeholder :: after) :
    pattern.expression.toList = pattern.expressionBefore before ++
      ((placeholder.expression pattern.mode).toList ++
        (after.flatMap (Piece.expression pattern.mode) ++ ['$'])) := by
  simp [expression, expressionBefore, split, Piece.expression]

theorem placeholders_take
    {pattern : Pattern} {before after : List Piece} {placeholder : Placeholder}
    (split : pattern.pieces = before ++ .hole placeholder :: after) :
    pattern.placeholders.take (before.filterMap Piece.placeholder?).length =
      before.filterMap Piece.placeholder? := by
  rw [placeholders, split, List.filterMap_append, List.take_left]

end Pattern

/-! ## What the groups hold -/

/-- The groups of a placeholder behind a match, in which it stood for a part. Of the two
groups of a lenient string one took no part in the match. -/
def Placeholder.contents : StringMode → Placeholder → Part → List (Option (List Char))
  | .lenient, .string, .quoted inside => [some inside, none]
  | .lenient, .string, .run chars => [none, some chars]
  | _, _, .quoted inside => [some inside]
  | _, _, .run chars => [some chars]

theorem Placeholder.length_contents (mode : StringMode) (placeholder : Placeholder) (part : Part) :
    (placeholder.contents mode part).length = placeholder.groups mode := by
  cases mode <;> cases placeholder <;> cases part <;> rfl

namespace Pattern

/-- All groups behind a match of the whole text, the whole match as the first of them. -/
def matchGroups? (pattern : Pattern) (subject : String) : Option (List (Option (List Char))) :=
  (Matching.match? pattern.mode pattern.pieces subject.toList).map fun parts =>
    some subject.toList ::
      (List.zipWith (Placeholder.contents pattern.mode) pattern.placeholders parts).flatten

/-- The text of the first of some groups in a row that took part in a match. If none did, it
is empty. -/
def rawText (contents : Nat → Option (List Char)) (first width : Nat) : List Char :=
  ((List.range' first width).findSome? contents).getD []

/-- The argument that a captured text is worth, by the kind of the placeholder. -/
def coerce? : Placeholder → List Char → Option Argument
  | .string, raw => some (.text (String.ofList (unquoted raw)))
  | .word, raw => some (.text (String.ofList raw))
  | .int, raw =>
      (Text.readNumeral? raw).bind fun n => if n ≤ greatestInt then some (.int n) else none

/-- The arguments read off numbered groups: each placeholder takes as many groups as it has,
from the first one on that was not taken. -/
def readArguments (mode : StringMode) (contents : Nat → Option (List Char)) :
    Nat → List Placeholder → Option (List Argument)
  | _, [] => some []
  | group, placeholder :: placeholders =>
      (coerce? placeholder (rawText contents group (placeholder.groups mode))).bind fun value =>
        (readArguments mode contents (group + placeholder.groups mode) placeholders).map
          (value :: ·)

theorem readArguments_eq_some_iff
    {mode : StringMode} {contents : Nat → Option (List Char)} {group : Nat}
    {placeholders : List Placeholder} {arguments : List Argument} :
    readArguments mode contents group placeholders = some arguments ↔
      arguments.length = placeholders.length ∧
        ∀ index placeholder, placeholders[index]? = some placeholder →
          ∃ argument, arguments[index]? = some argument ∧
            coerce? placeholder (rawText contents
              (group + Placeholder.groupsOf mode (placeholders.take index))
              (placeholder.groups mode)) = some argument := by
  induction placeholders generalizing group arguments with
  | nil => simp [readArguments, eq_comm]
  | cons first placeholders inductionHypothesis =>
      rw [readArguments, Option.bind_eq_some_iff]
      simp only [Option.map_eq_some_iff, inductionHypothesis]
      constructor
      · rintro ⟨value, coerced, values, ⟨sameLength, each⟩, rfl⟩
        refine ⟨by simp [sameLength], ?_⟩
        intro index placeholder isPlaceholder
        cases index with
        | zero =>
            obtain rfl := Option.some.inj isPlaceholder
            exact ⟨value, rfl, coerced⟩
        | succ index =>
            obtain ⟨argument, isArgument, coercedLater⟩ := each index placeholder isPlaceholder
            refine ⟨argument, isArgument, ?_⟩
            rwa [Nat.add_assoc] at coercedLater
      · rintro ⟨sameLength, each⟩
        obtain ⟨value, values, rfl⟩ := List.exists_cons_of_length_eq_add_one sameLength
        obtain ⟨argument, isArgument, coerced⟩ := each 0 first rfl
        obtain rfl := Option.some.inj isArgument
        refine ⟨value, coerced, values, ⟨by simpa using sameLength, ?_⟩, rfl⟩
        intro index placeholder isPlaceholder
        obtain ⟨argument, isArgument, coercedLater⟩ := each (index + 1) placeholder isPlaceholder
        refine ⟨argument, isArgument, ?_⟩
        rw [Nat.add_assoc]
        exact coercedLater

/-- The groups behind some others hold what they hold by themselves. -/
theorem rawText_own (front own behind : List (Option (List Char))) :
    rawText (fun number => (front ++ (own ++ behind))[number]?.join) front.length own.length =
      (own.findSome? id).getD [] := by
  unfold rawText
  congr 1
  induction own generalizing front with
  | nil => rfl
  | cons content own inductionHypothesis =>
      have later := inductionHypothesis (front ++ [content])
      simp only [List.append_assoc, List.singleton_append, List.length_append,
        List.length_singleton] at later
      rw [List.length_cons, List.range'_succ, List.findSome?_cons, List.cons_append, later,
        List.findSome?_cons]
      simp

/-- A part that fits is worth what its groups hold. -/
theorem value?_eq_coerce?
    {mode : StringMode} {placeholder : Placeholder} {part : Part}
    (fits : part.Fits mode placeholder) :
    value? placeholder part =
      coerce? placeholder (((placeholder.contents mode part).findSome? id).getD []) := by
  cases fits with
  | @quoted inside quoteFree =>
      have noOpening : inside.head? ≠ some '"' := fun first =>
        quoteFree (List.mem_of_mem_head? first)
      have noClosing : inside.getLast? ≠ some '"' := fun last =>
        quoteFree (List.mem_of_getLast? last)
      have kept : inside = unquoted inside :=
        isUnquoted_iff.mp ⟨inside, .inr ⟨noOpening, rfl⟩, .inr ⟨noClosing, rfl⟩⟩
      cases mode <;> simp [value?, coerce?, Placeholder.contents, ← kept]
  | bare lenient nonempty blankFree =>
      subst lenient
      rfl
  | int nonempty decimal => cases mode <;> rfl
  | word nonempty blankFree => cases mode <;> rfl

theorem readArguments_of_parts
    {mode : StringMode} {placeholders : List Placeholder} {parts : List Part}
    (fits : List.Forall₂ (Part.Fits mode) placeholders parts)
    (front : List (Option (List Char))) :
    readArguments mode
        (fun number => (front ++
          (List.zipWith (Placeholder.contents mode) placeholders parts).flatten)[number]?.join)
        front.length placeholders =
      values? placeholders parts := by
  induction fits generalizing front with
  | nil => rfl
  | @cons placeholder part placeholders parts fitsFirst _ inductionHypothesis =>
      have later := inductionHypothesis (front ++ placeholder.contents mode part)
      rw [List.length_append, Placeholder.length_contents, List.append_assoc] at later
      rw [readArguments, values?_cons, List.zipWith_cons_cons, List.flatten_cons, later,
        ← Placeholder.length_contents mode placeholder part, rawText_own,
        value?_eq_coerce? fitsFirst]

/-- Reading the groups of a match by their numbers gives what the pattern captures. -/
theorem captures?_eq_readArguments (pattern : Pattern) (subject : String) :
    pattern.captures? subject =
      (pattern.matchGroups? subject).bind fun groups =>
        readArguments pattern.mode (fun number => groups[number]?.join) 1
          pattern.placeholders := by
  have isOf := Cut.ofPieces_isOf pattern.text.toList
  unfold captures? matchGroups?
  cases found : Matching.match? pattern.mode pattern.pieces subject.toList with
  | none => rfl
  | some parts =>
      rw [Matching.match?_eq_preferred?, pattern.pieces_eq, isOf.pieces_eq] at found
      have fits := (Cut.isPreferred_of_preferred? found).isDecomposition.fits
      rw [← pattern.placeholders_eq isOf] at fits
      exact (readArguments_of_parts fits [some subject.toList]).symm

/-! ## Each argument has its own groups -/

/-- How the groups of a pattern are numbered, and that the arguments are read by these
numbers. -/
structure ReadsByGroup (pattern : Pattern) : Prop where
  /-- Exactly the groups from its first one on open in the expression of a placeholder. -/
  own : ∀ (before after : List Piece) (placeholder : Placeholder),
    pattern.pieces = before ++ .hole placeholder :: after →
      let index := (before.filterMap Piece.placeholder?).length
      let start := (pattern.expressionBefore before).length
      (placeholder.expression pattern.mode).toList <+: pattern.expression.toList.drop start ∧
        ∀ number : Nat,
          (∃ place, Expression.groupPlace? pattern.expression.toList number = some place ∧
              start ≤ place ∧ place < start + (placeholder.expression pattern.mode).length) ↔
            pattern.firstGroup index ≤ number ∧
              number < pattern.firstGroup index + placeholder.groups pattern.mode
  /-- No literal opens a group. -/
  count : (Expression.openings false 0 pattern.expression.toList).length =
    Placeholder.groupsOf pattern.mode pattern.placeholders
  /-- Whatever the groups hold, each argument comes from the groups of its placeholder. -/
  reads : ∀ (contents : Nat → Option (List Char)) (arguments : List Argument),
    readArguments pattern.mode contents 1 pattern.placeholders = some arguments ↔
      arguments.length = pattern.placeholders.length ∧
        ∀ index placeholder, pattern.placeholders[index]? = some placeholder →
          ∃ argument, arguments[index]? = some argument ∧
            coerce? placeholder (rawText contents (pattern.firstGroup index)
              (placeholder.groups pattern.mode)) = some argument
  captures : ∀ subject : String,
    pattern.captures? subject =
      (pattern.matchGroups? subject).bind fun groups =>
        readArguments pattern.mode (fun number => groups[number]?.join) 1 pattern.placeholders

theorem readsByGroup (pattern : Pattern) : pattern.ReadsByGroup where
  own := by
    intro before after placeholder split
    have expression := expression_eq split
    refine ⟨?_, ?_⟩
    · rw [expression, List.drop_left]
      exact List.prefix_append _ _
    · intro number
      rw [expression, firstGroup, placeholders_take split, ← String.length_toList]
      exact Expression.exists_groupPlace?_iff (pattern.opens_expressionBefore before)
        (placeholder.opens_expression pattern.mode) _ number
  count := by
    have last : Expression.Opens ['$'] 0 :=
      Expression.opens_plain (by decide) (by decide) (by decide)
    have whole : pattern.expression.toList =
        pattern.expressionBefore pattern.pieces ++ ['$'] := by
      simp [expression, expressionBefore]
    rw [whole]
    exact ((pattern.opens_expressionBefore pattern.pieces).append last).length_openings
  reads := by
    intro contents arguments
    rw [readArguments_eq_some_iff]
    simp only [firstGroup, Nat.add_comm 1]
  captures := pattern.captures?_eq_readArguments

end Pattern

/-- The scan of a pattern ends. It has cut the pattern into segments that make it up, with a
placeholder at exactly the places at which one is written, and these are, in order, the
placeholders of the pattern. Each has as its first group the one behind the groups of those
before it, and each argument is read from the groups of its own placeholder. -/
theorem segments_and_groups (pattern : Pattern) :
    (∃ last, Scan.EndsIn (.start pattern.text.toList) last ∧
      Segment.AreOf last.output pattern.text.toList ∧
      pattern.pieces = last.output.flatMap Segment.pieces ∧
      pattern.placeholders = (Segment.places 0 last.output).map Prod.snd) ∧
    pattern.ReadsByGroup := by
  obtain ⟨last, endsIn, areOf⟩ := Scan.exists_ended pattern.text.toList
  have pieces : pattern.pieces = last.output.flatMap Segment.pieces := by
    rw [pattern.pieces_eq, areOf.pieces_eq]
  refine ⟨⟨last, endsIn, areOf, pieces, ?_⟩, pattern.readsByGroup⟩
  rw [Segment.map_snd_places, ← pieces, Pattern.placeholders]

/-- Braces that open no placeholder do not hide the ones that are written behind them. -/
example : (Pattern.lenient "{{int}} {id} {str{word}}").placeholders = [.int, .word] := by
  decide

end Gherkin

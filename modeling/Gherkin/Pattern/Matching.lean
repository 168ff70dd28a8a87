import Gherkin.Pattern.Piece
import Gherkin.Text.Blank
import Gherkin.Text.Digits
import Gherkin.Text.Pieces

/-!
Contract: which part of a text each placeholder of a pattern matches.

Owns: the parts that a placeholder may match at the start of a text, in order of
preference; the preferred way to match a whole text (`preferred?`); and a table by
which it is found in time proportional to pattern and text (`match?`).
Does not own: what a part is worth as an argument (`Gherkin.Pattern.Captures`).
Main statement: `match?_eq_preferred?`, the table finds the preferred way.
-/

set_option autoImplicit false

namespace Gherkin

/-- What a placeholder matched: a quoted text, of which the inside is kept, or a
run of characters. -/
inductive Part where
  | quoted (inside : List Char)
  | run (chars : List Char)
deriving DecidableEq, Repr

def Part.text : Part → List Char
  | .quoted inside => '"' :: (inside ++ ['"'])
  | .run chars => chars

namespace Matching

def notBlank (c : Char) : Bool :=
  !Text.isBlank c

/-- The non-empty runs of a class at the start of a text, the longest one first,
each with what follows it. -/
def runs (inClass : Char → Bool) : List Char → List (List Char × List Char)
  | [] => []
  | c :: cs =>
      if inClass c then
        (runs inClass cs).map (fun (run, rest) => (c :: run, rest)) ++ [([c], cs)]
      else []

/-- The quoted text at the start of a text. It ends at the next quote. -/
def quotation? : List Char → Option (List Char × List Char)
  | '"' :: cs => Text.cutAt? '"' cs
  | _ => none

def quotations (cs : List Char) : List (Part × List Char) :=
  (quotation? cs).toList.map fun (inside, rest) => (.quoted inside, rest)

def runParts (inClass : Char → Bool) (cs : List Char) : List (Part × List Char) :=
  (runs inClass cs).map fun (run, rest) => (.run run, rest)

/-- The parts that a placeholder may match at the start of a text, the preferred
one first: quoted before bare, longer before shorter. -/
def parts (mode : StringMode) : Placeholder → List Char → List (Part × List Char)
  | .string, cs =>
      match mode with
      | .strict => quotations cs
      | .lenient => quotations cs ++ runParts notBlank cs
  | .int, cs => runParts Text.isDecimalDigit cs
  | .word, cs => runParts notBlank cs

/-- The preferred way to match a whole text, as the parts that the placeholders
match. Earlier placeholders choose first, and nothing may be left over. -/
def preferred? (mode : StringMode) : List Piece → List Char → Option (List Part)
  | [], [] => some []
  | [], _ :: _ => none
  | .literal _ :: _, [] => none
  | .literal c :: pieces, c' :: cs => if c' = c then preferred? mode pieces cs else none
  | .hole placeholder :: pieces, cs =>
      (parts mode placeholder cs).findSome? fun (part, rest) =>
        (preferred? mode pieces rest).map (part :: ·)

/-! The table. A row holds the value of a function for a text and for each of its
ends, the empty one last. -/

def rowOf {α : Type} (f : List Char → α) : List Char → List α
  | [] => [f []]
  | c :: cs => f (c :: cs) :: rowOf f cs

def first {α : Type} : List (Option α) → Option α
  | [] => none
  | entry :: _ => entry

/-- The row for no pieces: only the empty end matches. -/
def endRow : List Char → List (Option (List Part))
  | [] => [some []]
  | _ :: cs => none :: endRow cs

/-- The row for a character in front of pieces that have the row given. -/
def literalRow (c : Char) : List Char → List (Option (List Part)) → List (Option (List Part))
  | [], _ => [none]
  | c' :: cs, row => (if c' = c then first row.tail else none) :: literalRow c cs row.tail

/-- The row for a run in front of such pieces: the run, and the parts behind it. -/
def runRow (inClass : Char → Bool) :
    List Char → List (Option (List Part)) → List (Option (List Char × List Part))
  | [], _ => [none]
  | c :: cs, row =>
      let later := runRow inClass cs row.tail
      let here :=
        if inClass c then
          ((first later).map fun (run, parts) => (c :: run, parts)).or
            ((first row.tail).map fun parts => ([c], parts))
        else none
      here :: later

/-- The row for the rest of a quoted text in front of such pieces. -/
def insideRow :
    List Char → List (Option (List Part)) → List (Option (List Char × List Part))
  | [], _ => [none]
  | c :: cs, row =>
      let later := insideRow cs row.tail
      let here :=
        if c = '"' then (first row.tail).map fun parts => ([], parts)
        else (first later).map fun (inside, parts) => (c :: inside, parts)
      here :: later

/-- The row for a quoted text, from the row for the rest of one. -/
def quotationRow :
    List Char → List (Option (List Char × List Part)) → List (Option (List Part))
  | [], _ => [none]
  | c :: cs, row =>
      (if c = '"' then (first row.tail).map fun (inside, parts) => .quoted inside :: parts
        else none) :: quotationRow cs row.tail

def partRow (row : List (Option (List Char × List Part))) : List (Option (List Part)) :=
  row.map fun entry => entry.map fun (run, parts) => .run run :: parts

/-- The row for a placeholder in front of such pieces. -/
def holeRow (mode : StringMode) (placeholder : Placeholder) (cs : List Char)
    (row : List (Option (List Part))) : List (Option (List Part)) :=
  match placeholder with
  | .string =>
      let quotations := quotationRow cs (insideRow cs row)
      match mode with
      | .strict => quotations
      | .lenient => List.zipWith Option.or quotations (partRow (runRow notBlank cs row))
  | .int => partRow (runRow Text.isDecimalDigit cs row)
  | .word => partRow (runRow notBlank cs row)

def table (mode : StringMode) : List Piece → List Char → List (Option (List Part))
  | [], cs => endRow cs
  | .literal c :: pieces, cs => literalRow c cs (table mode pieces cs)
  | .hole placeholder :: pieces, cs => holeRow mode placeholder cs (table mode pieces cs)

/-- The preferred way to match a whole text, read off the table. -/
def match? (mode : StringMode) (pieces : List Piece) (cs : List Char) : Option (List Part) :=
  first (table mode pieces cs)

/-! Why the table is right: each row is the row of the function it stands for. -/

@[simp] theorem first_rowOf {α : Type} (f : List Char → Option α) (cs : List Char) :
    first (rowOf f cs) = f cs := by
  cases cs <;> rfl

theorem endRow_eq (mode : StringMode) (cs : List Char) :
    endRow cs = rowOf (preferred? mode []) cs := by
  induction cs with
  | nil => rfl
  | cons c cs inductionHypothesis => simp [endRow, rowOf, preferred?, inductionHypothesis]

theorem literalRow_eq (mode : StringMode) (c : Char) (pieces : List Piece) (cs : List Char) :
    literalRow c cs (rowOf (preferred? mode pieces) cs) =
      rowOf (preferred? mode (.literal c :: pieces)) cs := by
  induction cs with
  | nil => rfl
  | cons c' cs inductionHypothesis =>
      simp [literalRow, rowOf, preferred?, inductionHypothesis]

/-- The first of some ways to go on, with the part that was chosen. -/
def firstWay {β γ : Type} (ways : List (β × List Char)) (next : List Char → Option γ) :
    Option (β × γ) :=
  ways.findSome? fun (choice, rest) => (next rest).map fun found => (choice, found)

theorem firstWay_runs_cons
    {γ : Type} (inClass : Char → Bool) (next : List Char → Option γ) (c : Char) (cs : List Char) :
    firstWay (runs inClass (c :: cs)) next =
      if inClass c then
        ((firstWay (runs inClass cs) next).map fun (run, found) => (c :: run, found)).or
          ((next cs).map fun found => ([c], found))
      else none := by
  by_cases member : inClass c
  · have longer : ∀ ways : List (List Char × List Char),
        (ways.findSome? fun way => (next way.2).map fun found => (c :: way.1, found)) =
          (firstWay ways next).map fun way => (c :: way.1, way.2) := by
      intro ways
      induction ways with
      | nil => rfl
      | cons way ways inductionHypothesis =>
          simp only [List.findSome?_cons, firstWay, inductionHypothesis]
          cases next way.2 <;> rfl
    simp only [firstWay, runs, member, ↓reduceIte, List.findSome?_append, List.findSome?_map,
      Function.comp_def, longer, List.findSome?_cons, List.findSome?_nil]
    cases next cs <;> rfl
  · simp [firstWay, runs, member]

theorem runRow_eq
    (inClass : Char → Bool) (next : List Char → Option (List Part)) (cs : List Char) :
    runRow inClass cs (rowOf next cs) =
      rowOf (fun cs => firstWay (runs inClass cs) next) cs := by
  induction cs with
  | nil => rfl
  | cons c cs inductionHypothesis =>
      simp only [runRow, rowOf, List.tail_cons, first_rowOf, inductionHypothesis]
      rw [firstWay_runs_cons]

theorem insideRow_eq (next : List Char → Option (List Part)) (cs : List Char) :
    insideRow cs (rowOf next cs) =
      rowOf (fun cs => firstWay (Text.cutAt? '"' cs).toList next) cs := by
  induction cs with
  | nil => rfl
  | cons c cs inductionHypothesis =>
      simp only [insideRow, rowOf, List.tail_cons, first_rowOf, inductionHypothesis]
      congr 1
      by_cases quote : c = '"'
      · simp only [Text.cutAt?, quote, ↓reduceIte, firstWay, Option.toList_some,
          List.findSome?_cons, List.findSome?_nil]
        cases next cs <;> rfl
      · simp only [Text.cutAt?, quote, ↓reduceIte, firstWay]
        cases Text.cutAt? '"' cs with
        | none => rfl
        | some way =>
            simp only [Option.map_some, Option.toList_some, List.findSome?_cons,
              List.findSome?_nil]
            cases next way.2 <;> rfl

theorem quotationRow_eq (next : List Char → Option (List Part)) (cs : List Char) :
    quotationRow cs (rowOf (fun cs => firstWay (Text.cutAt? '"' cs).toList next) cs) =
      rowOf (fun cs => (firstWay (quotation? cs).toList next).map
        fun (inside, parts) => .quoted inside :: parts) cs := by
  induction cs with
  | nil => rfl
  | cons c cs inductionHypothesis =>
      simp only [quotationRow, rowOf, List.tail_cons, first_rowOf, inductionHypothesis]
      congr 1
      by_cases quote : c = '"'
      · simp [quotation?, quote]
      · simp [quotation?, quote, firstWay]

theorem partRow_eq
    (ways : List Char → List (List Char × List Char))
    (next : List Char → Option (List Part)) (cs : List Char) :
    partRow (rowOf (fun cs => firstWay (ways cs) next) cs) =
      rowOf (fun cs => (firstWay (ways cs) next).map fun (run, parts) => .run run :: parts)
        cs := by
  induction cs with
  | nil => rfl
  | cons c cs inductionHypothesis =>
      simpa [partRow, rowOf] using inductionHypothesis

theorem zipWith_or_rowOf {α : Type} (f g : List Char → Option α) (cs : List Char) :
    List.zipWith Option.or (rowOf f cs) (rowOf g cs) = rowOf (fun cs => (f cs).or (g cs)) cs := by
  induction cs with
  | nil => rfl
  | cons c cs inductionHypothesis => simp [rowOf, inductionHypothesis]

/-- Choosing among ways that are made into parts. -/
theorem findSome?_ways
    {β : Type} (part : β → Part) (ways : List (β × List Char))
    (next : List Char → Option (List Part)) :
    ((ways.map fun (choice, rest) => (part choice, rest)).findSome? fun (part, rest) =>
        (next rest).map (part :: ·)) =
      (firstWay ways next).map fun (choice, parts) => part choice :: parts := by
  induction ways with
  | nil => rfl
  | cons way ways inductionHypothesis =>
      simp only [List.map_cons, List.findSome?_cons, firstWay, inductionHypothesis]
      cases next way.2 <;> rfl

theorem holeRow_eq
    (mode : StringMode) (placeholder : Placeholder) (pieces : List Piece) (cs : List Char) :
    holeRow mode placeholder cs (rowOf (preferred? mode pieces) cs) =
      rowOf (preferred? mode (.hole placeholder :: pieces)) cs := by
  have quotationWays := fun cs =>
    findSome?_ways Part.quoted (quotation? cs).toList (preferred? mode pieces)
  have runWays := fun inClass cs =>
    findSome?_ways Part.run (runs inClass cs) (preferred? mode pieces)
  have unfolded : preferred? mode (.hole placeholder :: pieces) = fun cs =>
      (parts mode placeholder cs).findSome? fun (part, rest) =>
        (preferred? mode pieces rest).map (part :: ·) := by
    funext cs
    cases cs <;> rfl
  rw [unfolded]
  cases placeholder with
  | string =>
      cases mode <;>
        simp only [holeRow, parts, quotations, runParts, runRow_eq, insideRow_eq,
          quotationRow_eq, partRow_eq, zipWith_or_rowOf, List.findSome?_append,
          quotationWays, runWays]
  | int => simp only [holeRow, parts, runParts, runRow_eq, partRow_eq, runWays]
  | word => simp only [holeRow, parts, runParts, runRow_eq, partRow_eq, runWays]

theorem table_eq (mode : StringMode) (pieces : List Piece) (cs : List Char) :
    table mode pieces cs = rowOf (preferred? mode pieces) cs := by
  induction pieces with
  | nil => exact endRow_eq mode cs
  | cons piece pieces inductionHypothesis =>
      cases piece with
      | literal c => rw [table, inductionHypothesis, literalRow_eq]
      | hole placeholder => rw [table, inductionHypothesis, holeRow_eq]

/-- The table finds the preferred way. -/
theorem match?_eq_preferred? (mode : StringMode) (pieces : List Piece) (cs : List Char) :
    match? mode pieces cs = preferred? mode pieces cs := by
  rw [match?, table_eq, first_rowOf]

end Matching

end Gherkin

import Gherkin.Text.Blank
import Gherkin.Text.Pieces
import Gherkin.Text.Slice

/-!
Contract: a named text as a sequence of numbered lines.

Owns: the lines of a text, their numbers from one on, and the offsets in bytes at
which they start, by which one line is found without cutting the others.
Main statement: `startsOf_length`, a text has as many line starts as pieces
between line feeds.
-/

set_option autoImplicit false

namespace Gherkin

structure Document where
  name : String
  text : String
deriving DecidableEq, Repr

namespace Document

/-- A line as it is read: carriage returns at its end belong to the line break. -/
def withoutReturns (cs : List Char) : List Char :=
  Text.dropEndWhile (· == '\r') cs

/-- The offsets that stand right behind a line feed, counted from `offset`. -/
def startsAfterFeeds (offset : Nat) : List Char → List Nat
  | [] => []
  | c :: cs =>
      let next := offset + c.utf8Size
      if c = '\n' then next :: startsAfterFeeds next cs
      else startsAfterFeeds next cs

/-- The offset in bytes of the start of each line. The first line starts the
text, every other one stands behind a line feed. -/
def startsOf (cs : List Char) : List Nat :=
  0 :: startsAfterFeeds 0 cs

def lineStarts (document : Document) : List Nat :=
  startsOf document.text.toList

/-- A text without line feeds has one line, and so has the empty text. -/
def lineCount (document : Document) : Nat :=
  document.lineStarts.length

/-- The offsets between which a line stands, of a text that ends at `size`: its
own start, and the line feed before the next start or the end of the text. -/
def boundsOf? (size : Nat) (starts : List Nat) (index : Nat) : Option (Nat × Nat) :=
  starts[index]?.map fun start =>
    (start, match starts[index + 1]? with
      | some next => next - 1
      | none => size)

def bounds? (document : Document) (index : Nat) : Option (Nat × Nat) :=
  boundsOf? document.text.utf8ByteSize document.lineStarts index

/-- The line with this number, counted from one, without its line break. Only
the stretch between its own bounds is looked at. -/
def line? (document : Document) (number : UInt32) : Option String :=
  match number.toNat with
  | 0 => none
  | index + 1 =>
      (document.bounds? index).bind fun bounds =>
        (Text.slice? bounds.1 bounds.2 document.text.toList).map fun cs =>
          String.ofList (withoutReturns cs)

/-- How many lines are listed: their count, as far as it fits into a line number. -/
def readCount (document : Document) : Nat :=
  (UInt32.ofNat document.lineCount).toNat

/-- The lines under the numbers from one on. -/
def lines (document : Document) : List (UInt32 × String) :=
  (List.range' 1 document.readCount).filterMap fun count =>
    let number := UInt32.ofNat count
    (document.line? number).map (number, ·)

def isBlank (document : Document) : Bool :=
  document.text.toList.all Text.isBlank

theorem startsAfterFeeds_length (offset : Nat) (cs : List Char) :
    (startsAfterFeeds offset cs).length + 1 = (cs.splitOn '\n').length := by
  induction cs generalizing offset with
  | nil => simp [startsAfterFeeds]
  | cons c cs inductionHypothesis =>
      rw [List.splitOn_cons_eq_if_modifyHead]
      by_cases feed : c = '\n'
      · simp [startsAfterFeeds, feed, inductionHypothesis]
      · simp [startsAfterFeeds, feed, inductionHypothesis]

theorem startsOf_length (cs : List Char) :
    (startsOf cs).length = (cs.splitOn '\n').length := by
  simp [startsOf, startsAfterFeeds_length]

end Document

end Gherkin

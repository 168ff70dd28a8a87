import Gherkin.Text.Digits
import Gherkin.Text.Pieces

/-!
Contract: the times that a run reads off its clock.

Owns: instants of universal time in their written form, how texts are read as instants,
and the times of the scenarios of a session.
Does not own: the results that the times are written into (`Gherkin.Report.Result`).

What the clock shows is no part of a run: a `Clock` stands for all that is read off it.
-/

set_option autoImplicit false

namespace Gherkin

/-! ## Instants -/

/-- The days of a month; February has one more every fourth year, but not at the
turn of three centuries out of four. -/
def daysInMonth (year month : Nat) : Nat :=
  if month = 2 then
    if year % 4 = 0 ∧ (year % 100 ≠ 0 ∨ year % 400 = 0) then 29 else 28
  else if month = 4 ∨ month = 6 ∨ month = 9 ∨ month = 11 then 30
  else 31

namespace Time

/-- The year without its sign. Four digits need none; with a sign there are four at least,
and only the year zero and those of four digits are written with leading zeros. -/
def year? : List Char → Option Nat
  | '+' :: digits =>
      (Text.readNumeral? digits).filter fun year =>
        4 < digits.length && digits.head? != some '0' && year < 262143
  | '-' :: digits =>
      (Text.readNumeral? digits).filter fun year =>
        (digits.length == 4 || (4 < digits.length && digits.head? != some '0')) &&
          0 < year && year ≤ 262143
  | digits => (Text.readNumeral? digits).filter fun _ => digits.length == 4

/-- A day of the calendar: year, month and day, the latter two of two digits. -/
def isDate (cs : List Char) : Bool :=
  match cs.reverse with
  | d' :: d :: '-' :: m' :: m :: '-' :: year =>
      match year? year.reverse, Text.readNumeral? [m, m'], Text.readNumeral? [d, d'] with
      | some year, some month, some day =>
          1 ≤ month && month ≤ 12 && 1 ≤ day && day ≤ daysInMonth year month
      | _, _, _ => false
  | _ => false

/-- What is written of a second that is not over: a point, and three, six or nine digits,
as few as it takes. -/
def isFraction : List Char → Bool
  | [] => true
  | '.' :: digits =>
      digits.all Char.isDigit && digits.length ∈ [3, 6, 9] &&
        digits.drop (digits.length - 3) != ['0', '0', '0']
  | _ => false

/-- A time of day with its fraction and a `Z`. One second more fits into a minute. -/
def isTimeOfDay : List Char → Bool
  | h :: h' :: ':' :: n :: n' :: ':' :: s :: s' :: rest =>
      match Text.readNumeral? [h, h'], Text.readNumeral? [n, n'], Text.readNumeral? [s, s'] with
      | some hour, some minute, some second =>
          hour < 24 && minute < 60 && second ≤ 60 && rest.getLast? == some 'Z' &&
            isFraction rest.dropLast
      | _, _, _ => false
  | _ => false

end Time

/-- Whether characters are the written form of an instant, in a `YYYY-MM-DDThh:mm:ssZ` that
may have a fraction of a second. -/
def isTimeText (cs : List Char) : Bool :=
  match Text.cutAt? 'T' cs with
  | some (date, time) => Time.isDate date && Time.isTimeOfDay time
  | none => false

/-- An instant of universal time, in its one written form. -/
structure Time where
  text : String
  wellFormed : isTimeText text.toList = true
deriving DecidableEq

/-- The instant from which time is usually counted. -/
def Time.epoch : Time :=
  ⟨"1970-01-01T00:00:00Z", by decide⟩

/-! ## Reading -/

/-- How texts are read as instants, and why some are not. What is written reads back; which
other texts stand for an instant, such as those of other time zones, is left open. -/
structure TimeReading where
  read : String → Except String Time
  read_text : ∀ time : Time, read time.text = .ok time

/-- Reads nothing but written forms. -/
def TimeReading.written : TimeReading where
  read text :=
    if wellFormed : isTimeText text.toList = true then .ok ⟨text, wellFormed⟩
    else .error "input contains invalid characters"
  read_text time := dif_pos time.wellFormed

/-! ## Clocks -/

/-- What is read off the clock while a scenario runs: the instant at which it started, and
how many milliseconds its steps took, by their place, and the whole. -/
structure Watch where
  started : Time
  step : Nat → UInt64
  whole : UInt64

/-- What is read off the clock for the scenarios of a session, in the order in which they
run. -/
structure Clock where
  watch : Nat → Watch

namespace Clock

/-- The clock that stands still. -/
def epoch : Clock :=
  ⟨fun _ => ⟨.epoch, fun _ => 0, 0⟩⟩

/-- The same clock when some scenarios have run. -/
def behind (clock : Clock) (count : Nat) : Clock :=
  ⟨fun index => clock.watch (count + index)⟩

@[simp] theorem behind_zero (clock : Clock) : clock.behind 0 = clock := by
  simp [behind]

@[simp] theorem behind_behind (clock : Clock) (first second : Nat) :
    (clock.behind first).behind second = clock.behind (first + second) := by
  simp [behind, Nat.add_assoc]

end Clock

end Gherkin

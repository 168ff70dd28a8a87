import Gherkin.Decimal.Scaled
import Gherkin.Json.Fault

/-!
Contract: reading a JSON text.

Owns: the readers for strings, numbers and values, and the reading of a whole
document. Each reader takes the unread text and gives back what follows.
Does not own: documents that have to be of one certain type
(`Gherkin.Json.Texts`).

Arrays and objects nest up to a bound, on which the reading of values recurs.
The loops over items, members and characters take at least one character in each
round and are bounded by the length of the text.
-/

set_option autoImplicit false

namespace Gherkin.Json

/-- The result of a reader: what it read, and the unread text. -/
abbrev Reading (α : Type) :=
  Except Fault (α × List Char)

def isSpace (c : Char) : Bool :=
  c == ' ' || c == '\t' || c == '\n' || c == '\r'

def skipSpace (cs : List Char) : List Char :=
  cs.dropWhile isSpace

/-! Strings -/

/-- The four digits of an escaped code unit. They are taken as four bytes, before
anything is said about them. -/
def readUnit (cs : List Char) : Reading Nat :=
  let digits := cs.take 4
  if byteCount digits < 4 then .error (.before .endInString [])
  else match Text.numberIn? 16 digits with
    | some unit => .ok (unit, cs.drop 4)
    | none => .error ⟨.badEscape, byteCount cs - 4⟩

/-- The second code unit of a pair, whose first one has been read. -/
def readPaired (high : Nat) : List Char → Reading Char
  | '\\' :: 'u' :: cs =>
      match readUnit cs with
      | .error fault => .error fault
      | .ok (low, rest) =>
          if 0xdc00 ≤ low ∧ low ≤ 0xdfff then
            .ok (Char.ofNat (0x10000 + (high - 0xd800) * 0x400 + (low - 0xdc00)), rest)
          else .error (.before .unpairedSurrogate rest)
  | ['\\'] => .error (.before .endInString [])
  | '\\' :: cs => .error (.reaching .missingSurrogate cs)
  | [] => .error (.before .endInString [])
  | cs => .error (.reaching .missingSurrogate cs)

/-- An escaped code unit, with the one it is paired with if it needs one. -/
def readUnicode (cs : List Char) : Reading Char :=
  match readUnit cs with
  | .error fault => .error fault
  | .ok (unit, rest) =>
      if 0xdc00 ≤ unit ∧ unit ≤ 0xdfff then .error (.before .unpairedSurrogate rest)
      else if 0xd800 ≤ unit ∧ unit ≤ 0xdbff then readPaired unit rest
      else .ok (Char.ofNat unit, rest)

/-- The character that the letter behind a backslash stands for. -/
def escaped? (c : Char) : Option Char :=
  if c = '"' ∨ c = '\\' ∨ c = '/' then some c
  else if c = 'b' then some '\x08'
  else if c = 'f' then some '\x0c'
  else if c = 'n' then some '\n'
  else if c = 'r' then some '\r'
  else if c = 't' then some '\t'
  else none

def readEscape : List Char → Reading Char
  | [] => .error (.before .endInString [])
  | 'u' :: cs => readUnicode cs
  | c :: cs =>
      match escaped? c with
      | some char => .ok (char, cs)
      | none => .error (.reaching .badEscape (c :: cs))

/-- The characters up to the closing quote, behind those already read (the newest
of which stands first). -/
def readChars : Nat → List Char → List Char → Reading String
  | 0, _, _ => .error (.before .endInString [])
  | _ + 1, _, [] => .error (.before .endInString [])
  | bound + 1, readRev, c :: cs =>
      if c = '"' then .ok (String.ofList readRev.reverse, cs)
      else if c = '\\' then
        match readEscape cs with
        | .error fault => .error fault
        | .ok (char, rest) => readChars bound (char :: readRev) rest
      else if c < ' ' then .error (.reaching .controlCharacter (c :: cs))
      else readChars bound (c :: readRev) cs

def readString (cs : List Char) : Reading String :=
  readChars (cs.length + 1) [] cs

/-! Numbers -/

def digitValue (c : Char) : Nat :=
  c.toNat - '0'.toNat

/-- The greatest exponent that is told apart from greater ones: thirty-one bits. -/
def greatestExponent : Nat :=
  0x7fffffff

/-- An exponent: its value, or `none` if it is too great to be told. -/
def readExponentDigits : Nat → List Char → Option Nat × List Char
  | exponent, [] => (some exponent, [])
  | exponent, c :: cs =>
      if c.isDigit then
        if exponent * 10 + digitValue c ≤ greatestExponent then
          readExponentDigits (exponent * 10 + digitValue c) cs
        else (none, cs)
      else (some exponent, c :: cs)

/-- The parts of a number: its digits before and behind the point, if it has one,
and its exponent, if it has one. -/
structure Numeral where
  negative : Bool
  whole : List Nat
  fraction : Option (List Nat)
  exponent : Option Int

/-- A whole number stays one if 64 bits hold it, signed when it is negative. Minus
zero and all other numbers are floats; those beyond the greatest one have none. -/
def Numeral.value? (numeral : Numeral) : Option Value :=
  let (significand, left) := Decimal.absorb 0 numeral.whole
  let signed (x : Float) : Float := if numeral.negative then -x else x
  match numeral.fraction, numeral.exponent, left with
  | none, none, 0 =>
      if !numeral.negative then some (.int significand)
      else if 0 < significand ∧ significand ≤ 0x8000000000000000 then some (.int (-significand))
      else some (.float (signed (UInt64.ofNat significand).toFloat))
  | fraction, exponent, _ =>
      let behind := fraction.getD []
      let (longer, beyond) := Decimal.absorb significand behind
      let shift : Int := (left : Int) - ((behind.length - beyond : Nat) : Int)
      (Decimal.scale? longer (shift + exponent.getD 0)).map fun x => .float (signed x)

def Numeral.finish (numeral : Numeral) (rest : List Char) : Reading Value :=
  match numeral.value? with
  | some value => .ok (value, rest)
  | none => .error (.before .numberTooGreat rest)

/-- The exponent behind its mark, and with it the end of the number. One that is
too great to be told makes the number zero or, unless it is zero anyway, too
great. -/
def readExponent (numeral : Numeral) (cs : List Char) : Reading Value :=
  let (down, cs) := match cs with
    | '+' :: rest => (false, rest)
    | '-' :: rest => (true, rest)
    | rest => (false, rest)
  match cs with
  | [] => .error (.before .endInValue [])
  | c :: rest =>
      if !c.isDigit then .error (.reaching .badNumber (c :: rest))
      else match readExponentDigits (digitValue c) rest with
        | (some e, rest) =>
            { numeral with exponent := some (if down then -(e : Int) else e) }.finish rest
        | (none, rest) =>
            let digits := numeral.whole ++ numeral.fraction.getD []
            if !down && digits.any (· != 0) then .error (.before .numberTooGreat rest)
            else
              let unread := rest.dropWhile Char.isDigit
              { numeral with whole := [0], fraction := some [0], exponent := none }.finish unread

/-- What may follow the digits: an exponent or the end of the number. -/
def readScale (numeral : Numeral) : List Char → Reading Value
  | 'e' :: cs => readExponent numeral cs
  | 'E' :: cs => readExponent numeral cs
  | cs => numeral.finish cs

/-- What may follow the whole part: digits behind a point, at least one. -/
def readFraction (numeral : Numeral) : List Char → Reading Value
  | '.' :: cs =>
      let digits := cs.takeWhile Char.isDigit
      let rest := cs.dropWhile Char.isDigit
      if digits.isEmpty then
        if rest.isEmpty then .error (.before .endInValue [])
        else .error (.reaching .badNumber rest)
      else readScale { numeral with fraction := some (digits.map digitValue) } rest
  | cs => readScale numeral cs

/-- A number from its first digit on. A zero is not followed by another digit. -/
def readNumber (negative : Bool) : List Char → Reading Value
  | [] => .error (.before .endInValue [])
  | c :: cs =>
      if c = '0' then
        match cs with
        | d :: rest =>
            if d.isDigit then .error (.reaching .badNumber (d :: rest))
            else readFraction ⟨negative, [0], none, none⟩ cs
        | [] => readFraction ⟨negative, [0], none, none⟩ []
      else if c.isDigit then
        let digits := (c :: cs).takeWhile Char.isDigit
        readFraction ⟨negative, digits.map digitValue, none, none⟩
          ((c :: cs).dropWhile Char.isDigit)
      else .error (.reaching .badNumber (c :: cs))

/-! Values -/

def readWord (value : Value) : List Char → List Char → Reading Value
  | [], cs => .ok (value, cs)
  | _ :: _, [] => .error (.before .endInValue [])
  | w :: ws, c :: cs =>
      if c = w then readWord value ws cs else .error (.reaching .expectedWord (c :: cs))

/-- A value that is neither an array nor an object, if one starts here. -/
def readScalar? : List Char → Option (Reading Value)
  | 'n' :: cs => some (readWord .null ['u', 'l', 'l'] cs)
  | 't' :: cs => some (readWord (.bool true) ['r', 'u', 'e'] cs)
  | 'f' :: cs => some (readWord (.bool false) ['a', 'l', 's', 'e'] cs)
  | '-' :: cs => some (readNumber true cs)
  | '"' :: cs => some ((readString cs).map fun (s, rest) => (.string s, rest))
  | c :: cs => if c.isDigit then some (readNumber false (c :: cs)) else none
  | [] => none

/-- The further items of an array behind one that has been read, and its end. -/
def readItems (item : List Char → Reading Value) :
    Nat → List Value → List Char → Reading Value
  | 0, _, cs => .error (.before .endInList cs)
  | bound + 1, itemsRev, cs =>
      match skipSpace cs with
      | [] => .error (.before .endInList [])
      | ']' :: rest => .ok (.array itemsRev.reverse, rest)
      | ',' :: rest =>
          match skipSpace rest with
          | [] => .error (.before .endInValue [])
          | ']' :: after => .error (.reaching .trailingComma (']' :: after))
          | next =>
              match item next with
              | .error fault => .error fault
              | .ok (value, rest) => readItems item bound (value :: itemsRev) rest
      | other => .error (.reaching .expectedItemOrEnd other)

def readArray (item : List Char → Reading Value) (cs : List Char) : Reading Value :=
  match skipSpace cs with
  | [] => .error (.before .endInList [])
  | ']' :: rest => .ok (.array [], rest)
  | first =>
      match item first with
      | .error fault => .error fault
      | .ok (value, rest) => readItems item (rest.length + 1) [value] rest

/-- A member from its name on, whose opening quote has been read. -/
def readMember {α : Type} (item : List Char → Reading α) (cs : List Char) :
    Reading (String × α) :=
  match readString cs with
  | .error fault => .error fault
  | .ok (name, rest) =>
      match skipSpace rest with
      | [] => .error (.before .endInObject [])
      | ':' :: behind =>
          match item (skipSpace behind) with
          | .error fault => .error fault
          | .ok (value, rest) => .ok ((name, value), rest)
      | other => .error (.reaching .expectedColon other)

/-- The further members of an object behind those that have been read, and its end.
A later member replaces one of the same name. -/
def readMembers {α : Type} (item : List Char → Reading α) :
    Nat → List (String × α) → List Char → Reading (List (String × α))
  | 0, _, cs => .error (.before .endInObject cs)
  | bound + 1, members, cs =>
      match skipSpace cs with
      | [] => .error (.before .endInObject [])
      | '}' :: rest => .ok (members, rest)
      | ',' :: rest =>
          match skipSpace rest with
          | [] => .error (.before .endInValue [])
          | '"' :: inside =>
              match readMember item inside with
              | .error fault => .error fault
              | .ok ((name, value), rest) =>
                  readMembers item bound (insertEntry name value members) rest
          | '}' :: after => .error (.reaching .trailingComma ('}' :: after))
          | other => .error (.reaching .nameNotString other)
      | other => .error (.reaching .expectedMemberOrEnd other)

def readObject {α : Type} (item : List Char → Reading α) (cs : List Char) :
    Reading (List (String × α)) :=
  match skipSpace cs with
  | [] => .error (.before .endInObject [])
  | '}' :: rest => .ok ([], rest)
  | '"' :: inside =>
      match readMember item inside with
      | .error fault => .error fault
      | .ok (member, rest) => readMembers item (rest.length + 1) [member] rest
  | other => .error (.reaching .nameNotString other)

/-- A value at the start of the unread text, which may hold as many more brackets
inside each other as the bound says. -/
def readValue : Nat → List Char → Reading Value
  | nesting, cs =>
      match readScalar? cs with
      | some reading => reading
      | none =>
          match nesting, cs with
          | _, [] => .error (.before .endInValue [])
          | 0, '[' :: rest => .error (.reaching .tooDeep ('[' :: rest))
          | 0, '{' :: rest => .error (.reaching .tooDeep ('{' :: rest))
          | inner + 1, '[' :: rest => readArray (readValue inner) rest
          | inner + 1, '{' :: rest =>
              (readObject (readValue inner) rest).map fun (members, rest) =>
                (.object members, rest)
          | _, other => .error (.reaching .expectedValue other)

/-- Only space may follow what a document holds. -/
def finishDocument {α : Type} : Reading α → Except Fault α
  | .error fault => .error fault
  | .ok (result, rest) =>
      match skipSpace rest with
      | [] => .ok result
      | other => .error (.reaching .trailingText other)

/-- As many brackets may stand inside each other in a document. -/
def nestingBound : Nat :=
  127

def readDocument (text : String) : Except Fault Value :=
  finishDocument (readValue nestingBound (skipSpace text.toList))

end Gherkin.Json

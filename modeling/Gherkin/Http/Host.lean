import Gherkin.Text.Encoded
import Gherkin.Text.Pieces

/-!
Contract: the hosts that addresses lead to.

Owns: names and the two kinds of numeric hosts, which texts stand for one, and the
normal form in which each is written.
Does not own: where the host stands in an address (`Gherkin.Http.Address`).

Names in the web are made of ASCII characters here. Those of other scripts have an ASCII
form, which this reading does not know.
-/

set_option autoImplicit false

namespace Gherkin.Http

inductive Host where
  | name (text : String)
  | ipv4 (address : Nat)
  | ipv6 (groups : List Nat)
deriving DecidableEq, Repr

namespace Host

/-! Dotted addresses -/

/-- The parts between the dots. One more dot may stand at the end. -/
def parts (cs : List Char) : List (List Char) :=
  let parts := cs.splitOn '.'
  if parts.getLast? = some [] then parts.dropLast else parts

/-- The number that a part denotes: in hexadecimal behind `0x`, in octal behind any
other leading zero, and else in decimal. -/
def partValue? : List Char → Option Nat
  | [] => none
  | '0' :: 'x' :: cs => Text.numberIn? 16 cs
  | '0' :: cs => Text.numberIn? 8 cs
  | cs => Text.numberIn? 10 cs

/-- The address that numbers denote within so many bytes. Each number stands for one
byte, but the last one stands for all that are left. -/
def ofNumbers? : (bytes : Nat) → List Nat → Option Nat
  | 0, _ => none
  | _, [] => none
  | bytes, [last] => if last < Nat.pow 256 bytes then some last else none
  | bytes + 1, first :: rest =>
      if first < 256 then (ofNumbers? bytes rest).map (first * Nat.pow 256 bytes + ·) else none

def ofDotted? (cs : List Char) : Option Nat :=
  ((parts cs).mapM partValue?).bind (ofNumbers? 4)

/-- A text whose last part is a number, or at least consists of digits, is read as a
dotted address and not as a name. -/
def endsInNumber (cs : List Char) : Bool :=
  (parts cs).getLast?.any fun last =>
    (!last.isEmpty && last.all Char.isDigit) || (partValue? last).isSome

/-! Groups -/

/-- A group is written with one to four hexadecimal digits. -/
def groupValue? (cs : List Char) : Option Nat :=
  if cs.isEmpty || 4 < cs.length then none else Text.numberIn? 16 cs

/-- A byte in decimal, without leading zeros. -/
def byteValue? (cs : List Char) : Option Nat :=
  if cs.isEmpty || (cs.head? = some '0' && 1 < cs.length) then none
  else (Text.numberIn? 10 cs).filter (· < 256)

/-- Two groups that are written as the four bytes of a dotted address. -/
def dottedGroups? (cs : List Char) : Option (List Nat) :=
  match (cs.splitOn '.').mapM byteValue? with
  | some [a, b, c, d] => some [256 * a + b, 256 * c + d]
  | _ => none

/-- Groups in order. Only the last two may be dotted. -/
def readGroups? : List (List Char) → Option (List Nat)
  | [] => some []
  | [last] => ((groupValue? last).map fun group => [group]).or (dottedGroups? last)
  | first :: rest =>
      (groupValue? first).bind fun group => (readGroups? rest).map (group :: ·)

/-- What stands between the colons of a text, if it is not empty. -/
def groupTexts (cs : List Char) : List (List Char) :=
  if cs.isEmpty then [] else cs.splitOn ':'

/-- What stands before and after the first two colons in a row. -/
def cutAtGap? : List Char → Option (List Char × List Char)
  | ':' :: ':' :: cs => some ([], cs)
  | c :: cs => (cutAtGap? cs).map fun (before, rest) => (c :: before, rest)
  | [] => none

/-- The eight groups of a text. Two colons in a row stand for all groups that are
missing, of which there is at least one. -/
def ofGroups? (cs : List Char) : Option (List Nat) :=
  match cutAtGap? cs with
  | none => (readGroups? (groupTexts cs)).filter (·.length = 8)
  | some (before, rest) =>
      ((groupTexts before).mapM groupValue?).bind fun front =>
        (readGroups? (groupTexts rest)).bind fun back =>
          if front.length + back.length < 8 then
            some (front ++ List.replicate (8 - front.length - back.length) 0 ++ back)
          else none

/-! Texts -/

def isForbidden (c : Char) : Bool :=
  c ∈ ['\x00', '\t', '\n', '\r', ' ', '#', '/', ':', '<', '>', '?', '@', '[', '\\', ']', '^', '|']

/-- The host that a text between brackets stands for. -/
def ofBracketed? (cs : List Char) : Option Host :=
  (ofGroups? cs).map .ipv6

/-- The host that characters stand for in an address of the web, once none of them is
written as bytes. Letter case plays no part in it. -/
def ofWebChars? (cs : List Char) : Option Host :=
  let cs := cs.map Char.toLower
  if cs.isEmpty || cs.any fun c => isForbidden c || c == '%' || c < '!' || '~' < c then none
  else if endsInNumber cs then (ofDotted? cs).map .ipv4
  else some (.name (String.ofList cs))

def ofWebText? (cs : List Char) : Option Host :=
  (Text.percentDecoded? cs).bind ofWebChars?

/-- The host that a text stands for in any other address: a name, of which all visible
characters are kept. -/
def ofPlainText? (cs : List Char) : Option Host :=
  if cs.isEmpty || cs.any isForbidden then none
  else some (.name (String.ofList (Text.percentEncoded (fun c => ' ' ≤ c && c ≤ '~') cs)))

/-! Normal forms -/

def dotted (address : Nat) : String :=
  Text.join "." <| [0x1000000, 0x10000, 0x100, 1].map fun unit =>
    Text.numeral (address / unit % 256)

/-- The place and the length of the longest run of zeros; of several, the first. -/
def longestZeros (groups : List Nat) : Nat × Nat :=
  (List.range groups.length).foldl
    (fun best place =>
      let length := ((groups.drop place).takeWhile (· == 0)).length
      if best.2 < length then (place, length) else best)
    (0, 0)

def colonJoined (groups : List Nat) : String :=
  Text.join ":" (groups.map fun group => String.ofList (Nat.toDigits 16 group))

/-- All groups, with two colons for the longest run of two or more zeros. -/
def shortened (groups : List Nat) : String :=
  let (place, length) := longestZeros groups
  if length < 2 then colonJoined groups
  else colonJoined (groups.take place) ++ "::" ++ colonJoined (groups.drop (place + length))

def render : Host → String
  | .name text => text
  | .ipv4 address => dotted address
  | .ipv6 groups => "[" ++ shortened groups ++ "]"

end Host

end Gherkin.Http

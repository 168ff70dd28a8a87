import Gherkin.Argument
import Gherkin.Pattern.Matching

/-!
Contract: step patterns and the arguments that they capture from a step's text.

Owns: the type `Pattern`, its expression, and the value of the part that a placeholder
matched.
Does not own: which patterns an engine refuses; that is a parameter, with a default.

Matching looks at the preferred way to match the whole text and at no other: if a
part of it has no value, the pattern captures nothing, even if another way would
have given values.
-/

set_option autoImplicit false

namespace Gherkin

inductive PatternError where
  | tooLarge (text : String)
deriving DecidableEq, Repr

def PatternError.message : PatternError → String
  | .tooLarge text =>
      "invalid step pattern `" ++ text ++
        "`: Compiled regex exceeds size limit of 10485760 bytes."

/-- A pattern as it was written, with its pieces and the way in which its string
placeholders match. -/
structure Pattern where
  text : String
  mode : StringMode
  pieces : List Piece
  pieces_eq : pieces = Piece.ofText text.toList

namespace Pattern

/-- The pattern with this text. -/
def of (text : String) (mode : StringMode) : Pattern :=
  ⟨text, mode, Piece.ofText text.toList, rfl⟩

def lenient (text : String) : Pattern :=
  of text .lenient

def placeholders (pattern : Pattern) : List Placeholder :=
  pattern.pieces.filterMap Piece.placeholder?

/-- Which patterns are refused unless something else is said: those with more than a thousand
placeholders. How large an expression may become is up to the engine that compiles it. -/
def isHuge (pattern : Pattern) : Bool :=
  1000 < pattern.placeholders.length

/-- The pattern with this text, unless the engine refuses its expression as too large. -/
def ofText (text : String) (mode : StringMode) (refuses : Pattern → Bool := isHuge) :
    Except PatternError Pattern :=
  if refuses (of text mode) then .error (.tooLarge text) else .ok (of text mode)

theorem text_of_ofText
    {text : String} {mode : StringMode} {refuses : Pattern → Bool} {pattern : Pattern}
    (compiled : ofText text mode refuses = .ok pattern) :
    pattern.text = text ∧ pattern.mode = mode := by
  unfold ofText at compiled
  split at compiled
  · contradiction
  · obtain rfl := Except.ok.inj compiled
    exact ⟨rfl, rfl⟩

/-- The regular expression that matches the same texts. -/
def expression (pattern : Pattern) : String :=
  String.ofList ('^' :: (pattern.pieces.flatMap (Piece.expression pattern.mode) ++ ['$']))

/-- Drops one quote at the start and then one at the end, where there is one. -/
def unquoted (cs : List Char) : List Char :=
  let opened := match cs with
    | '"' :: rest => rest
    | other => other
  if opened.getLast? = some '"' then opened.dropLast else opened

/-- The greatest number that a placeholder can capture: sixty-three bits. -/
def greatestInt : Nat :=
  0x7fffffffffffffff

/-- The value of the part that a placeholder matched. A number has none if it is
too great, or if one of its digits is not one of `0` to `9`. -/
def value? : Placeholder → Part → Option Argument
  | .string, .quoted inside => some (.text (String.ofList inside))
  | .string, .run chars => some (.text (String.ofList (unquoted chars)))
  | .word, part => some (.text (String.ofList part.text))
  | .int, part =>
      (Text.readNumeral? part.text).bind fun n =>
        if n ≤ greatestInt then some (.int n) else none

/-- The values of the parts, if all have one. -/
def values? : List Placeholder → List Part → Option (List Argument)
  | placeholder :: placeholders, part :: parts =>
      (value? placeholder part).bind fun value =>
        (values? placeholders parts).map (value :: ·)
  | _, _ => some []

/-- The arguments that the pattern captures from a whole text, one for each
placeholder. -/
def captures? (pattern : Pattern) (text : String) : Option (List Argument) :=
  (Matching.match? pattern.mode pattern.pieces text.toList).bind
    (values? pattern.placeholders)

def isMatch (pattern : Pattern) (text : String) : Bool :=
  (pattern.captures? text).isSome

end Pattern

end Gherkin

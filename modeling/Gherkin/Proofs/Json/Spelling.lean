import Gherkin.Json.Reader

/-!
Contract: the JSON texts that stand for a value.

Owns: which texts spell a character, a string, a whole number, an array, an object and a
document, as a grammar that does not refer to the readers.
Does not own: numbers with a fraction or an exponent, which are floats; and what the
readers make of a text (`Gherkin.Proofs.Json.Reading`).

Between any two marks there may be space. What an object stands for is made by inserting
its members in order, so that of several under one name the last one counts.
-/

set_option autoImplicit false

namespace Gherkin.Json

def IsSpace (cs : List Char) : Prop :=
  ∀ c ∈ cs, isSpace c = true

theorem isSpace_nil : IsSpace [] := nofun

/-! ## Strings -/

/-- The characters that have a letter to be escaped with, each behind its letter. -/
def escapes : List (Char × Char) :=
  [('"', '"'), ('\\', '\\'), ('/', '/'), ('b', '\x08'), ('f', '\x0c'), ('n', '\n'), ('r', '\r'),
    ('t', '\t')]

/-- Four digits of base sixteen that denote a code unit. -/
structure IsUnit (digits : List Char) (unit : Nat) : Prop where
  length_eq : digits.length = 4
  denotes : Text.numberIn? 16 digits = some unit

/-- What may stand for one character inside a string. -/
inductive SpellsChar : List Char → Char → Prop where
  | plain {c : Char} (notQuote : c ≠ '"') (notBackslash : c ≠ '\\') (notControl : ¬ c < ' ') :
      SpellsChar [c] c
  | letter {letter c : Char} (escape : (letter, c) ∈ escapes) : SpellsChar ['\\', letter] c
  | unit {digits : List Char} {c : Char} (isUnit : IsUnit digits c.toNat) :
      SpellsChar ('\\' :: 'u' :: digits) c
  /-- A character beyond sixteen bits is escaped as a pair of surrogates. -/
  | pair {digits digits' : List Char} {high low : Nat} (isUnit : IsUnit digits high)
      (isUnit' : IsUnit digits' low) (isHigh : 0xd800 ≤ high ∧ high ≤ 0xdbff)
      (isLow : 0xdc00 ≤ low ∧ low ≤ 0xdfff) :
      SpellsChar ('\\' :: 'u' :: digits ++ '\\' :: 'u' :: digits')
        (Char.ofNat (0x10000 + (high - 0xd800) * 0x400 + (low - 0xdc00)))

inductive SpellsChars : List Char → List Char → Prop where
  | nil : SpellsChars [] []
  | cons {t ts : List Char} {c : Char} {cs : List Char} (first : SpellsChar t c)
      (later : SpellsChars ts cs) : SpellsChars (t ++ ts) (c :: cs)

/-- A string between its quotes. -/
def SpellsString (t : List Char) (s : String) : Prop :=
  ∃ inside, t = '"' :: (inside ++ ['"']) ∧ SpellsChars inside s.toList

/-! ## Lists in brackets -/

section Lists

variable {α : Type} (spells : List Char → α → Prop)

/-- One or more items, with a comma between any two. -/
inductive SpellsItems : List Char → List α → Prop where
  | one {t : List Char} {a : α} (only : spells t a) : SpellsItems t [a]
  | cons {t space space' ts : List Char} {a : α} {as : List α} (first : spells t a)
      (isSpace : IsSpace space) (isSpace' : IsSpace space') (later : SpellsItems ts as) :
      SpellsItems (t ++ (space ++ ',' :: (space' ++ ts))) (a :: as)

/-- Any number of items between two brackets. -/
inductive SpellsList (opening closing : Char) : List Char → List α → Prop where
  | empty {space : List Char} (isSpace : IsSpace space) :
      SpellsList opening closing (opening :: (space ++ [closing])) []
  | items {space ts space' : List Char} {as : List α} (isSpace : IsSpace space)
      (items : SpellsItems spells ts as) (isSpace' : IsSpace space') :
      SpellsList opening closing (opening :: (space ++ (ts ++ (space' ++ [closing])))) as

/-- A member of an object: its name and what it holds. -/
inductive SpellsMember : List Char → String × α → Prop where
  | mk {t space space' ts : List Char} {name : String} {a : α} (named : SpellsString t name)
      (isSpace : IsSpace space) (isSpace' : IsSpace space') (holds : spells ts a) :
      SpellsMember (t ++ (space ++ ':' :: (space' ++ ts))) (name, a)

/-- An object whose members are of one form. -/
abbrev SpellsMembers : List Char → List (String × α) → Prop :=
  SpellsList (SpellsMember spells) '{' '}'

/-- A document: space around what it holds. -/
inductive SpellsDocument : String → α → Prop where
  | mk {text : String} {front t back : List Char} {a : α} (isSpace : IsSpace front)
      (holds : spells t a) (isSpace' : IsSpace back) (whole : text.toList = front ++ (t ++ back)) :
      SpellsDocument text a

end Lists

/-! ## Values -/

/-- The whole numbers that sixty-four bits hold, with or without a sign. -/
def InRange (n : Int) : Prop :=
  -0x8000000000000000 ≤ n ∧ n < 0x10000000000000000

/-- A value that is neither an array nor an object. A whole number has one numeral, without
fraction, exponent, needless zeros or a sign before zero. -/
inductive SpellsScalar : List Char → Value → Prop where
  | null : SpellsScalar ['n', 'u', 'l', 'l'] .null
  | true : SpellsScalar ['t', 'r', 'u', 'e'] (.bool true)
  | false : SpellsScalar ['f', 'a', 'l', 's', 'e'] (.bool false)
  | int {n : Int} (inRange : InRange n) : SpellsScalar (Text.signedNumeral n).toList (.int n)
  | string {t : List Char} {s : String} (isString : SpellsString t s) : SpellsScalar t (.string s)

/-- A value whose brackets nest at most as deeply as the bound says. -/
def Spells : Nat → List Char → Value → Prop
  | 0, t, value => SpellsScalar t value
  | nesting + 1, t, value =>
      SpellsScalar t value ∨
        (∃ items, value = .array items ∧ SpellsList (Spells nesting) '[' ']' t items) ∨
        ∃ members, value = .ofMembers members ∧ SpellsMembers (Spells nesting) t members

/-- A document all of whose numbers are whole and written as such. -/
abbrev IsDocument : String → Value → Prop :=
  SpellsDocument (Spells nestingBound)

/-- A document that is an object with strings for members, in the order written. -/
abbrev IsTexts : String → List (String × String) → Prop :=
  SpellsDocument (SpellsMembers SpellsString)

end Gherkin.Json

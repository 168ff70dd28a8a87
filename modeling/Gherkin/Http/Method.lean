/-!
Contract: the names of request methods and of headers, and the values of headers.

Owns: the characters of which names may consist, and the type of methods.
-/

set_option autoImplicit false

namespace Gherkin.Http

/-- The characters of names: ASCII letters, digits and fifteen marks. -/
def isNameChar (c : Char) : Bool :=
  c.isAlphanum ||
    c ∈ ['!', '#', '$', '%', '&', '\'', '*', '+', '-', '.', '^', '_', '\x60', '|', '~']

def isName (cs : List Char) : Bool :=
  !cs.isEmpty && cs.all isNameChar

/-- The value of a header holds no control character but the tab. -/
def isHeaderValue (cs : List Char) : Bool :=
  cs.all fun c => c == '\t' || (' ' ≤ c && c ≠ '\x7f')

/-- Text in lower case; only ASCII letters have one. -/
def lowerCase (s : String) : String :=
  String.ofList (s.toList.map Char.toLower)

/-- Text in upper case; only ASCII letters have one. -/
def upperCase (s : String) : String :=
  String.ofList (s.toList.map Char.toUpper)

/-- A request method. Its name keeps its letter case. -/
structure Method where
  name : String
  wellFormed : isName name.toList = true
deriving DecidableEq

namespace Method

theorem eq_of_name {first second : Method} (same : first.name = second.name) :
    first = second := by
  cases first
  cases second
  cases same
  rfl

def ofText? (name : String) : Option Method :=
  if wellFormed : isName name.toList = true then some ⟨name, wellFormed⟩ else none

def get : Method := ⟨"GET", by decide⟩

def post : Method := ⟨"POST", by decide⟩

def put : Method := ⟨"PUT", by decide⟩

def patch : Method := ⟨"PATCH", by decide⟩

def delete : Method := ⟨"DELETE", by decide⟩

end Method

end Gherkin.Http

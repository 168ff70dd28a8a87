import Gherkin.Dictionary

/-!
Contract: JSON values.

Owns: the type of values, look-up of an object's member, and objects made of
members in any order.
Does not own: the text of a value (`Gherkin.Json.Printer`, `Gherkin.Json.Reader`).

Whole numbers are kept apart from the others, since they have another written
form. The members of an object stand in code-point order of their names; every
function that makes an object keeps that order by inserting the members.
-/

set_option autoImplicit false

namespace Gherkin.Json

inductive Value where
  | null
  | bool (b : Bool)
  | int (n : Int)
  | float (x : Float)
  | string (s : String)
  | array (items : List Value)
  | object (members : List (String × Value))
deriving Repr, Inhabited

namespace Value

/-- Inserts members from left to right; a later member replaces one of its name. -/
def insertMembers (members : List (String × Value)) (added : List (String × Value)) :
    List (String × Value) :=
  added.foldl (fun acc member => insertEntry member.1 member.2 acc) members

def ofMembers (members : List (String × Value)) : Value :=
  .object (insertMembers [] members)

/-- The object with those of the members that are present. -/
def ofPresent (members : List (String × Option Value)) : Value :=
  ofMembers (members.filterMap fun (name, value?) => value?.map (name, ·))

/-- The member of an object under a name; what is no object has no members. -/
def member? : Value → String → Option Value
  | .object members, name => members.lookup name
  | _, _ => none

def ofDictionary {V : Type} (encode : V → Value) (d : Dictionary V) : Value :=
  .object (d.entries.map fun (key, value) => (key, encode value))

end Value

end Gherkin.Json

import Gherkin.Dictionary

/-!
Contract: data tables.

Owns: the rows of a table and their reading as key and value.
Does not own: how a row is written in a feature text (`Gherkin.Feature.Line`).
-/

set_option autoImplicit false

namespace Gherkin

/-- The rows of cells attached to a step. Rows may differ in length. -/
structure DataTable where
  rows : List (List String)
deriving DecidableEq, Repr, Inhabited

namespace DataTable

def empty : DataTable :=
  ⟨[]⟩

def isEmpty (table : DataTable) : Bool :=
  table.rows.isEmpty

def push (table : DataTable) (row : List String) : DataTable :=
  ⟨table.rows ++ [row]⟩

/-- The key and value of a row: its first two cells, if it has two. -/
def pair? : List String → Option (String × String)
  | key :: value :: _ => some (key, value)
  | _ => none

/-- The table read as keys and values: rows of fewer than two cells are passed
over, and of the rows with one key the last one counts. -/
def bindings (table : DataTable) : Dictionary String :=
  .ofList (table.rows.filterMap pair?)

end DataTable

end Gherkin

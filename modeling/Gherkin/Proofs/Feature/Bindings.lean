import Mathlib.Logic.Relation
import Gherkin.Feature.Table
import Gherkin.Proofs.Dictionary

/-!
Contract: the keys and values of a table, row by row.

Owns: the value that a table gives a key, and the changes to the rows of a table that leave
every value as it was.
Does not own: what the keys and values are compared with (`Gherkin.Proofs.Run.Fields`).
Main statements: `mem_entries_bindings_iff`, `Rework.bindings_eq`.
-/

set_option autoImplicit false

namespace Gherkin

/-! ## Rows -/

/-- A row of two cells or more that starts with the key. -/
def IsRowOf (key : String) (row : List String) : Prop :=
  2 ≤ row.length ∧ row.head? = some key

/-- A key is given the value in the last row that is its own. -/
def DataTable.Gives (table : DataTable) (key value : String) : Prop :=
  ∃ above further below, table.rows = above ++ (key :: value :: further) :: below ∧
    ∀ row ∈ below, ¬ IsRowOf key row

/-- One change to the rows of a table. -/
inductive RowChange : List (List String) → List (List String) → Prop where
  /-- Rows in another order. Rows with the same first cell keep theirs. -/
  | moved {rows others : List (List String)} (permuted : rows.Perm others)
      (inOrder : ∀ cell,
        rows.filter (·.head? = some cell) = others.filter (·.head? = some cell)) :
      RowChange rows others
  /-- A row of fewer than two cells. -/
  | short {above below : List (List String)} {row : List String} (short : row.length < 2) :
      RowChange (above ++ below) (above ++ row :: below)
  /-- A row whose key has another row below. -/
  | overridden {above below : List (List String)} {key value : String}
      {further : List String} (later : ∃ row ∈ below, IsRowOf key row) :
      RowChange (above ++ below) (above ++ (key :: value :: further) :: below)
  /-- The cells of a row beyond its second. -/
  | further {above below : List (List String)} {key value : String}
      {further others : List String} :
      RowChange (above ++ (key :: value :: further) :: below)
        (above ++ (key :: value :: others) :: below)

/-- One table becomes the other by changes to its rows, forwards and backwards. -/
def Rework : DataTable → DataTable → Prop :=
  Relation.EqvGen fun table other => RowChange table.rows other.rows

namespace DataTable

theorem pair?_eq_some_iff {row : List String} {key value : String} :
    pair? row = some (key, value) ↔ ∃ further, row = key :: value :: further := by
  match row with
  | [] | [_] => simp [pair?]
  | key :: value :: further => simp [pair?]

theorem isRowOf_iff {row : List String} {key : String} :
    IsRowOf key row ↔ ∃ value, pair? row = some (key, value) := by
  match row with
  | [] | [_] => simp [IsRowOf, pair?]
  | first :: value :: further => simp [IsRowOf, pair?]

theorem pair?_eq_none_of_short {row : List String} (short : row.length < 2) :
    pair? row = none := by
  match row with
  | [] | [_] => rfl
  | _ :: _ :: _ => exact absurd short (by simp)

/-! ## Values -/

/-- The values of a key, from its first row to its last. -/
theorem filter_pairs (key : String) (rows : List (List String)) :
    (rows.filterMap pair?).filter (·.1 = key) =
      (rows.filter (·.head? = some key)).filterMap pair? := by
  rw [List.filter_filterMap, List.filterMap_filter]
  apply List.filterMap_congr
  intro row _
  match row with
  | [] => rfl
  | [cell] => by_cases own : cell = key <;> simp [pair?, own]
  | first :: value :: further => by_cases own : first = key <;> simp [pair?, own]

/-- The entries of a table are the values that it gives. -/
theorem mem_entries_bindings_iff {table : DataTable} {key value : String} :
    (key, value) ∈ table.bindings.entries ↔ table.Gives key value := by
  rw [bindings, Dictionary.mem_entries_ofList_iff]
  constructor
  · rintro ⟨before, after, whole, last⟩
    obtain ⟨above, rest, rows, -, lower⟩ := List.filterMap_eq_append_iff.mp whole
    obtain ⟨between, row, below, rfl, -, isPair, rfl⟩ := List.filterMap_eq_cons_iff.mp lower
    obtain ⟨further, rfl⟩ := pair?_eq_some_iff.mp isPair
    refine ⟨above ++ between, further, below, by rw [rows, List.append_assoc], ?_⟩
    intro row member own
    obtain ⟨other, isOther⟩ := isRowOf_iff.mp own
    exact last _ (List.mem_filterMap.mpr ⟨row, member, isOther⟩) rfl
  · rintro ⟨above, further, below, rows, last⟩
    refine ⟨above.filterMap pair?, below.filterMap pair?, ?_, ?_⟩
    · rw [rows, List.filterMap_append]
      rfl
    · rintro ⟨other, otherValue⟩ member rfl
      obtain ⟨row, isBelow, isPair⟩ := List.mem_filterMap.mp member
      exact last row isBelow (isRowOf_iff.mpr ⟨otherValue, isPair⟩)

end DataTable

/-! ## Changes -/

open DataTable in
theorem RowChange.get?_bindings
    {table other : DataTable} (change : RowChange table.rows other.rows) (key : String) :
    table.bindings.get? key = other.bindings.get? key := by
  obtain ⟨rows⟩ := table
  obtain ⟨others⟩ := other
  rw [bindings, bindings, Dictionary.get?_ofList, Dictionary.get?_ofList]
  cases change with
  | moved _ inOrder => rw [filter_pairs, filter_pairs, inOrder key]
  | short short => simp [pair?_eq_none_of_short short]
  | @overridden above below own value further later =>
      by_cases same : own = key
      · -- The row below is a value of the key, so the last one stands there.
        obtain ⟨row, member, isOwn⟩ := later
        obtain ⟨laterValue, isPair⟩ := isRowOf_iff.mp isOwn
        have isLater : (own, laterValue) ∈ (below.filterMap pair?).filter (·.1 = key) :=
          List.mem_filter.mpr ⟨List.mem_filterMap.mpr ⟨row, member, isPair⟩, by simpa using same⟩
        obtain ⟨last, isLast⟩ :=
          Option.isSome_iff_exists.mp (List.getLast?_isSome.mpr (List.ne_nil_of_mem isLater))
        simp [pair?, same, List.getLast?_append, List.getLast?_cons, isLast]
      · simp [pair?, same]
  | further => simp [pair?]

/-- Reworked tables are read alike. -/
theorem Rework.bindings_eq {table other : DataTable} (rework : Rework table other) :
    table.bindings = other.bindings := by
  induction rework with
  | rel table other change => exact Dictionary.ext_get? change.get?_bindings
  | refl table => rfl
  | symm table other _ inductionHypothesis => exact inductionHypothesis.symm
  | trans table between other _ _ first second => exact first.trans second

end Gherkin

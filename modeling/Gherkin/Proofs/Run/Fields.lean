import Gherkin.Http.Network
import Gherkin.Run.HttpSteps
import Gherkin.Proofs.Feature.Bindings

/-!
Contract: what it means to check a response against a table.

Owns: when a member of the data is as expected, which key of a table is reported, and that
a table says the same as its rows taken one at a time.
Does not own: the values that a table gives (`Gherkin.Proofs.Feature.Bindings`).
Main statement: `checkData_of_table`.
-/

set_option autoImplicit false

namespace Gherkin.HttpSteps

open Http

/-! ## Members as expected -/

/-- How a value is shown: a string by its text and any other value by its JSON. -/
inductive Renders : Json.Value → String → Prop where
  | text (s : String) : Renders (.string s) s
  | json {value : Json.Value} (noString : ∀ s, value ≠ .string s) : Renders value value.render

/-- The data is an object with a member under the key that is shown as the value. -/
def Shows (data : Json.Value) (key value : String) : Prop :=
  ∃ members member, data = .object members ∧ members.lookup key = some member ∧
    Renders member value

theorem render_eq_iff {value : Json.Value} {text : String} :
    render value = text ↔ Renders value text := by
  constructor
  · rintro rfl
    cases value with
    | string s => exact .text s
    | null | bool _ | int _ | float _ | array _ | object _ => exact .json (by simp)
  · intro renders
    cases renders with
    | text s => rfl
    | json noString =>
        unfold render
        split
        · exact absurd rfl (noString _)
        · rfl

theorem shows_iff {data : Json.Value} {key value : String} :
    Shows data key value ↔ (data.member? key).map render = some value := by
  rw [Option.map_eq_some_iff]
  simp only [render_eq_iff]
  constructor
  · rintro ⟨members, member, rfl, isMember, renders⟩
    exact ⟨member, isMember, renders⟩
  · rintro ⟨member, isMember, renders⟩
    cases data with
    | object members => exact ⟨members, member, rfl, isMember, renders⟩
    | null | bool _ | int _ | float _ | string _ | array _ => cases isMember

theorem checkField_of_shows {data : Json.Value} {key value : String}
    (shows : Shows data key value) : checkField data key value = .ok () :=
  if_pos (shows_iff.mp shows)

theorem checkField_of_not_shows {data : Json.Value} {key value : String}
    (missed : ¬ Shows data key value) : ∃ error, checkField data key value = .error error :=
  ⟨_, if_neg (mt shows_iff.mpr missed)⟩

/-! ## Members in order -/

/-- Of the keys that a table gives a value, the first in code-point order whose member is
not as expected. -/
structure FirstMissed (data : Json.Value) (table : DataTable) (key value : String) :
    Prop where
  gives : table.Gives key value
  missed : ¬ Shows data key value
  least : ∀ other expected, table.Gives other expected → ¬ Shows data other expected →
    key ≤ other

/-- Either all fields are as expected, or the first that is not decides. -/
theorem checkFields_cases (data : Json.Value) (fields : List (String × String)) :
    (checkFields data fields = .ok () ∧ ∀ field ∈ fields, Shows data field.1 field.2) ∨
      ∃ before key value after, fields = before ++ (key, value) :: after ∧
        (∀ field ∈ before, Shows data field.1 field.2) ∧ ¬ Shows data key value ∧
        checkFields data fields = checkField data key value := by
  induction fields with
  | nil => exact .inl ⟨rfl, List.forall_mem_nil _⟩
  | cons field fields inductionHypothesis =>
      obtain ⟨key, value⟩ := field
      by_cases shows : Shows data key value
      · have goesOn : checkFields data ((key, value) :: fields) = checkFields data fields := by
          rw [checkFields, checkField_of_shows shows]
        rw [goesOn]
        rcases inductionHypothesis with ⟨passes, all⟩ | found
        · exact .inl ⟨passes, List.forall_mem_cons.mpr ⟨shows, all⟩⟩
        · obtain ⟨before, other, expected, after, rfl, earlier, missed, decides⟩ := found
          exact .inr ⟨(key, value) :: before, other, expected, after, rfl,
            List.forall_mem_cons.mpr ⟨shows, earlier⟩, missed, decides⟩
      · obtain ⟨error, fails⟩ := checkField_of_not_shows shows
        have stops : checkFields data ((key, value) :: fields) = checkField data key value := by
          rw [checkFields, fails]
        exact .inr ⟨[], key, value, fields, rfl, List.forall_mem_nil _, shows, stops⟩

/-- The keys of a table come in order, so the first one missed is the least. -/
theorem checkFields_bindings (data : Json.Value) (table : DataTable) :
    (checkFields data table.bindings.toList = .ok () ∧
        ∀ key value, table.Gives key value → Shows data key value) ∨
      ∃ key value, FirstMissed data table key value ∧
        checkFields data table.bindings.toList = checkField data key value := by
  rcases checkFields_cases data table.bindings.toList with ⟨passes, all⟩ | found
  · refine .inl ⟨passes, ?_⟩
    intro key value gives
    exact all (key, value) (DataTable.mem_entries_bindings_iff.mpr gives)
  · obtain ⟨before, key, value, after, entries, earlier, missed, decides⟩ := found
    have isEntry : (key, value) ∈ table.bindings.entries := by
      show (key, value) ∈ table.bindings.toList
      simp [entries]
    refine .inr ⟨key, value, ⟨DataTable.mem_entries_bindings_iff.mp isEntry, missed, ?_⟩,
      decides⟩
    intro other expected gives otherMissed
    have isOther : (other, expected) ∈ table.bindings.toList :=
      DataTable.mem_entries_bindings_iff.mpr gives
    have increase : KeysIncrease table.bindings.toList := table.bindings.keysIncrease
    rw [entries] at isOther increase
    rcases List.mem_append.mp isOther with isBefore | isHereOrAfter
    · exact absurd (earlier _ isBefore) otherMissed
    · exact increase.le_of_mem isHereOrAfter

/-! ## The steps -/

/-- The arguments of a step about a single field. -/
structure AsksField (arguments : Arguments) (key value : String) : Prop where
  isKey : arguments.text 0 = .ok key
  isValue : arguments.text 1 = .ok value

section Steps

variable {world : World} {response : Response}

theorem check_checkData
    (stored : world.response = some response) {arguments : Arguments} {table : DataTable}
    (given : arguments.table = .ok table) :
    check checkData world arguments =
      (.ofExcept (checkFields response.data table.bindings.toList), world) := by
  have judged : checkData world arguments =
      checkFields response.data table.bindings.toList := by
    unfold checkData World.lastResponse
    rw [stored, given]
    rfl
  rw [check, judged]

theorem check_checkValue
    (stored : world.response = some response) {arguments : Arguments} {key value : String}
    (asks : AsksField arguments key value) :
    check checkValue world arguments =
      (.ofExcept (checkField response.data key value), world) := by
  have judged : checkValue world arguments = checkField response.data key value := by
    unfold checkValue World.lastResponse
    rw [stored, asks.isKey, asks.isValue]
    rfl
  rw [check, judged]

theorem check_checkData_iff
    (stored : world.response = some response) {arguments : Arguments} {table : DataTable}
    (given : arguments.table = .ok table) :
    check checkData world arguments = (.passed, world) ↔
      ∀ key value, table.Gives key value → Shows response.data key value := by
  rw [check_checkData stored given]
  rcases checkFields_bindings response.data table with ⟨passes, all⟩ | found
  · rw [passes]
    exact iff_of_true rfl all
  · obtain ⟨key, value, first, decides⟩ := found
    obtain ⟨error, fails⟩ := checkField_of_not_shows first.missed
    rw [decides, fails]
    refine iff_of_false ?_ fun all => first.missed (all key value first.gives)
    intro passed
    cases (Prod.mk.inj passed).1

/-- A table that misses is reported as its first missed field. -/
theorem exists_firstMissed
    (stored : world.response = some response) {arguments : Arguments} {table : DataTable}
    (given : arguments.table = .ok table)
    (misses : ∃ key value, table.Gives key value ∧ ¬ Shows response.data key value) :
    ∃ key value error, FirstMissed response.data table key value ∧
      check checkData world arguments = (.failed error, world) ∧
      ∀ asking, AsksField asking key value →
        check checkValue world asking = (.failed error, world) := by
  rcases checkFields_bindings response.data table with ⟨-, all⟩ | found
  · obtain ⟨key, value, gives, missed⟩ := misses
    exact absurd (all key value gives) missed
  · obtain ⟨key, value, first, decides⟩ := found
    obtain ⟨error, fails⟩ := checkField_of_not_shows first.missed
    refine ⟨key, value, error, first, ?_, ?_⟩
    · rw [check_checkData stored given, decides, fails]
      rfl
    · intro asking asks
      rw [check_checkValue stored asks, fails]
      rfl

/-- A table of one row says what the step about its field says. -/
theorem check_checkData_of_row
    (stored : world.response = some response) {arguments asking : Arguments}
    {key value : String} {further : List String}
    (given : arguments.table = .ok ⟨[key :: value :: further]⟩)
    (asks : AsksField asking key value) :
    check checkData world arguments = check checkValue world asking := by
  have single : checkFields response.data [(key, value)] = checkField response.data key value := by
    rw [checkFields]
    cases checkField response.data key value <;> rfl
  rw [check_checkData stored given, check_checkValue stored asks, ← single]
  rfl

/-- The step with a table passes just when the data shows every value that the table gives.
Otherwise it fails as the step about a single field does for the first key missed. Reworked
tables are checked alike, and a table of one row as the field of that row. -/
theorem checkData_of_table
    (stored : world.response = some response) {arguments : Arguments} {table : DataTable}
    (given : arguments.table = .ok table) :
    (check checkData world arguments = (.passed, world) ↔
        ∀ key value, table.Gives key value → Shows response.data key value) ∧
      ((∃ key value, table.Gives key value ∧ ¬ Shows response.data key value) →
        ∃ key value error, FirstMissed response.data table key value ∧
          check checkData world arguments = (.failed error, world) ∧
          ∀ asking, AsksField asking key value →
            check checkValue world asking = (.failed error, world)) ∧
      (∀ (other : DataTable) (others : Arguments), Rework table other →
        others.table = .ok other →
          check checkData world others = check checkData world arguments) ∧
      ∀ key value further, table = ⟨[key :: value :: further]⟩ →
        ∀ asking, AsksField asking key value →
          check checkData world arguments = check checkValue world asking := by
  refine ⟨check_checkData_iff stored given, exists_firstMissed stored given, ?_, ?_⟩
  · intro other others rework givenOther
    rw [check_checkData stored given, check_checkData stored givenOther, rework.bindings_eq]
  · rintro key value further rfl asking asks
    exact check_checkData_of_row stored given asks

end Steps

/-- Of two members that are missed the table reports the first in order of the keys. A row
that another one overrides is not missed, nor does a row of one cell play a part. -/
theorem checkData_of_table_unordered :
    let data := Json.Value.object [("a", .int 1), ("b", .string "x"), ("c", .null)]
    let world : World :=
      { World.start .empty (.plain fun _ => .unanswered) with response := some ⟨200, data, ∅⟩ }
    let table : DataTable := ⟨[["c", "0"], ["b", "y"], ["a"], ["a", "2"], ["b", "x", "z"]]⟩
    let other : DataTable := ⟨[["c", "0"], ["a"], ["a", "2"], ["b", "x", "z"]]⟩
    world.response = some ⟨200, data, ∅⟩ ∧
      Arguments.table [.table table] = .ok table ∧
      Rework table other ∧
      check checkData world [.table other] = check checkData world [.table table] ∧
      ∃ error, check checkData world [.table table] = (.failed error, world) ∧
        check checkValue world [.text "a", .text "2"] = (.failed error, world) := by
  intro data world table other
  have stored : world.response = some ⟨200, data, ∅⟩ := rfl
  have given : Arguments.table [.table table] = .ok table := rfl
  have overridden : RowChange other.rows table.rows :=
    @RowChange.overridden [["c", "0"]] [["a"], ["a", "2"], ["b", "x", "z"]] "b" "y" []
      ⟨["b", "x", "z"], by simp, by simp [IsRowOf]⟩
  have rework : Rework table other := .symm _ _ (.rel _ _ overridden)
  have entries : table.bindings.entries = [("a", "2"), ("b", "x"), ("c", "0")] := by decide
  have missed : ¬ Shows data "a" "2" := by
    rw [shows_iff]
    decide
  have shown : Shows data "b" "x" := shows_iff.mpr (by decide)
  have gives : table.Gives "a" "2" :=
    DataTable.mem_entries_bindings_iff.mp (entries ▸ List.mem_cons_self)
  obtain ⟨-, reported, alike, -⟩ := checkData_of_table stored given
  obtain ⟨key, value, error, first, fails, same⟩ := reported ⟨"a", "2", gives, missed⟩
  have isEntry := DataTable.mem_entries_bindings_iff.mpr first.gives
  have least : key ≤ "a" := first.least "a" "2" gives missed
  obtain ⟨rfl, rfl⟩ : key = "a" ∧ value = "2" := by
    rw [entries] at isEntry
    simp only [List.mem_cons, Prod.mk.injEq, List.not_mem_nil, or_false] at isEntry
    rcases isEntry with isFirst | ⟨rfl, rfl⟩ | ⟨rfl, rfl⟩
    · exact isFirst
    · exact absurd shown first.missed
    · exact absurd least (by decide)
  exact ⟨stored, given, rework, alike other [.table other] rework rfl, error, fails,
    same [.text "a", .text "2"] ⟨rfl, rfl⟩⟩

end Gherkin.HttpSteps

import Gherkin.Proofs.Pattern.Decomposition
import Gherkin.Proofs.Run.Registered
import Gherkin.Run.Session

/-!
Contract: what a definition is called with.

Owns: the order of the arguments of a call, and which of them can be read in which way.
Does not own: what the built-in sentences read (`Gherkin.Proofs.Run.Reading`).
Main statement: `Step.readable_of_find?`.

The kinds of the values are known from the pattern alone; that there is a doc string or a
table is known from the step alone.
-/

set_option autoImplicit false

namespace Gherkin

/-- Related lists have related items at the same place, and end at the same place. -/
theorem getElem?_of_forall₂
    {β γ : Type} {related : β → γ → Prop} {items : List β} {others : List γ}
    (all : List.Forall₂ related items others) (index : Nat) :
    Option.Rel related items[index]? others[index]? := by
  induction all generalizing index with
  | nil => exact .none
  | cons first _ inductionHypothesis =>
      cases index with
      | zero => exact .some first
      | succ index => exact inductionHypothesis index

theorem getElem?_append_eq_some_iff
    {β : Type} {items others : List β} {index : Nat} {item : β} :
    (items ++ others)[index]? = some item ↔
      items[index]? = some item ∨
        ∃ offset, index = items.length + offset ∧ others[offset]? = some item := by
  rcases Nat.lt_or_ge index items.length with inside | outside
  · have notBehind : ∀ offset, index ≠ items.length + offset := by omega
    simp [List.getElem?_append_left inside, notBehind]
  · obtain ⟨offset, rfl⟩ := Nat.exists_eq_add_of_le outside
    simp [List.getElem?_append_right outside]

theorem getElem?_toList_map_iff
    {β γ : Type} {f : β → γ} {option : Option β} {index : Nat} {item : γ} :
    (option.map f).toList[index]? = some item ↔
      index = 0 ∧ ∃ value, option = some value ∧ item = f value := by
  cases option with
  | none => simp
  | some value => cases index <;> simp [eq_comm]

/-! ## Reading one argument -/

namespace Arguments

theorem int_eq_ok_iff {arguments : Arguments} {index : Nat} {n : Int} :
    arguments.int index = .ok n ↔ arguments[index]? = some (.int n) := by
  unfold int at?
  cases arguments[index]? with
  | none => simp
  | some argument => cases argument <;> simp

theorem text_eq_ok_iff {arguments : Arguments} {index : Nat} {s : String} :
    arguments.text index = .ok s ↔
      arguments[index]? = some (.text s) ∨ arguments[index]? = some (.docString s) := by
  unfold text at?
  cases arguments[index]? with
  | none => simp
  | some argument => cases argument <;> simp

/-- The doc string is found behind any other arguments. -/
theorem docString_append
    {arguments : Arguments} (noDocString : ∀ s, Argument.docString s ∉ arguments)
    (others : Arguments) : docString (arguments ++ others) = docString others := by
  induction arguments with
  | nil => rfl
  | cons argument arguments inductionHypothesis =>
      rw [← inductionHypothesis fun s inside => noDocString s (List.mem_cons_of_mem _ inside)]
      cases argument with
      | docString s => exact absurd List.mem_cons_self (noDocString s)
      | int n => rfl
      | text s => rfl
      | table t => rfl

theorem table_append
    {arguments : Arguments} (noTable : ∀ t, Argument.table t ∉ arguments)
    (others : Arguments) : table (arguments ++ others) = table others := by
  induction arguments with
  | nil => rfl
  | cons argument arguments inductionHypothesis =>
      rw [← inductionHypothesis fun t inside => noTable t (List.mem_cons_of_mem _ inside)]
      cases argument with
      | table t => exact absurd List.mem_cons_self (noTable t)
      | int n => rfl
      | text s => rfl
      | docString s => rfl

end Arguments

/-- The mode of a pattern has no say in its placeholders. -/
theorem Pattern.placeholders_lenient (pattern : Pattern) :
    (Pattern.lenient pattern.text).placeholders = pattern.placeholders := by
  rw [placeholders, placeholders, pattern.pieces_eq]
  rfl

/-! ## The values that are captured -/

section Captured

variable {placeholders : List Placeholder} {captured : List Argument}

theorem exists_int_iff
    (gives : List.Forall₂ Placeholder.Gives placeholders captured) (index : Nat) :
    (∃ n, captured[index]? = some (.int n)) ↔ placeholders[index]? = some .int := by
  have related := getElem?_of_forall₂ gives index
  generalize placeholders[index]? = placeholder, captured[index]? = argument at related ⊢
  cases related with
  | none => simp
  | some given => cases given <;> simp

theorem exists_text_iff
    (gives : List.Forall₂ Placeholder.Gives placeholders captured) (index : Nat) :
    (∃ s, captured[index]? = some (.text s)) ↔
      placeholders[index]? = some .string ∨ placeholders[index]? = some .word := by
  have related := getElem?_of_forall₂ gives index
  generalize placeholders[index]? = placeholder, captured[index]? = argument at related ⊢
  cases related with
  | none => simp
  | some given => cases given <;> simp

/-- Neither a doc string nor a table is captured from the text of a step. -/
theorem only_values_captured
    (gives : List.Forall₂ Placeholder.Gives placeholders captured) :
    (∀ s, Argument.docString s ∉ captured) ∧ ∀ t, Argument.table t ∉ captured := by
  induction gives with
  | nil => simp
  | cons given _ inductionHypothesis => cases given <;> simpa using inductionHypothesis

end Captured

/-! ## The arguments of a call -/

namespace Step

/-- An argument stands in the place of a value captured, or behind all of them. -/
theorem getElem?_arguments_iff
    (step : Step) (captured : List Argument) (index : Nat) (argument : Argument) :
    (step.arguments captured)[index]? = some argument ↔
      captured[index]? = some argument ∨
      (index = captured.length ∧
        ∃ doc, step.docString = some doc ∧ argument = .docString (Text.trimmed doc)) ∨
      (index = captured.length + step.docString.toList.length ∧
        ∃ table, step.dataTable = some table ∧ argument = .table table) := by
  have places : ∀ f : String → Argument,
      (step.docString.map f).toList.length = step.docString.toList.length := by
    intro f
    cases step.docString <;> rfl
  unfold arguments
  simp [getElem?_append_eq_some_iff, getElem?_toList_map_iff, places, and_or_left, exists_or]

/-- What a definition can read of a call, if its pattern has these placeholders. -/
structure Readable
    (step : Step) (placeholders : List Placeholder) (captured : List Argument)
    (arguments : Arguments) : Prop where
  /-- There is one value for each placeholder, of its kind. -/
  gives : List.Forall₂ Placeholder.Gives placeholders captured
  inOrder : arguments =
    captured ++ (step.docString.map fun doc => Argument.docString (Text.trimmed doc)).toList ++
      (step.dataTable.map Argument.table).toList
  int_iff : ∀ index,
    (∃ n, arguments.int index = .ok n) ↔ placeholders[index]? = some .int
  text_iff : ∀ index,
    (∃ s, arguments.text index = .ok s) ↔
      placeholders[index]? = some .string ∨ placeholders[index]? = some .word ∨
        (index = placeholders.length ∧ step.docString.isSome)
  docString_eq : arguments.docString =
    step.docString.elim (.error .noDocString) fun doc => .ok (Text.trimmed doc)
  table_eq : arguments.table = step.dataTable.elim (.error .noDataTable) .ok

theorem Readable.exists_text
    {step : Step} {placeholders : List Placeholder} {captured : List Argument}
    {arguments : Arguments} (readable : step.Readable placeholders captured arguments)
    (index : Nat)
    (isText : placeholders[index]? = some .string ∨ placeholders[index]? = some .word) :
    ∃ s, arguments.text index = .ok s :=
  (readable.text_iff index).mpr (isText.imp_right .inl)

section

variable {step : Step} {placeholders : List Placeholder} {captured : List Argument}

theorem exists_int_arguments_iff
    (gives : List.Forall₂ Placeholder.Gives placeholders captured) (index : Nat) :
    (∃ n, (step.arguments captured).int index = .ok n) ↔ placeholders[index]? = some .int := by
  rw [← exists_int_iff gives]
  simp [Arguments.int_eq_ok_iff, getElem?_arguments_iff]

theorem exists_text_arguments_iff
    (gives : List.Forall₂ Placeholder.Gives placeholders captured) (index : Nat) :
    (∃ s, (step.arguments captured).text index = .ok s) ↔
      placeholders[index]? = some .string ∨ placeholders[index]? = some .word ∨
        (index = placeholders.length ∧ step.docString.isSome) := by
  have notDoc : ∀ s, captured[index]? ≠ some (.docString s) :=
    fun s inside => (only_values_captured gives).1 s (List.mem_of_getElem? inside)
  rw [← or_assoc, ← exists_text_iff gives, gives.length_eq]
  simp [Arguments.text_eq_ok_iff, getElem?_arguments_iff, notDoc, Option.isSome_iff_exists,
    exists_or]

/-- The doc string that a step is called with is its own one, trimmed. -/
theorem docString_arguments
    (gives : List.Forall₂ Placeholder.Gives placeholders captured) :
    (step.arguments captured).docString =
      step.docString.elim (.error .noDocString) fun doc => .ok (Text.trimmed doc) := by
  rw [arguments, List.append_assoc, Arguments.docString_append (only_values_captured gives).1]
  cases step.docString with
  | some doc => rfl
  | none => cases step.dataTable <;> rfl

theorem table_arguments
    (gives : List.Forall₂ Placeholder.Gives placeholders captured) :
    (step.arguments captured).table = step.dataTable.elim (.error .noDataTable) .ok := by
  have noTable : ∀ t, Argument.table t ∉ captured ++
      (step.docString.map fun doc => Argument.docString (Text.trimmed doc)).toList := by
    simp [(only_values_captured gives).2]
  rw [arguments, Arguments.table_append noTable]
  cases step.dataTable <;> rfl

theorem readable_of_gives
    (gives : List.Forall₂ Placeholder.Gives placeholders captured) :
    step.Readable placeholders captured (step.arguments captured) where
  gives := gives
  inOrder := rfl
  int_iff := exists_int_arguments_iff gives
  text_iff := exists_text_arguments_iff gives
  docString_eq := docString_arguments gives
  table_eq := table_arguments gives

end

variable {W : Type}

/-- A step runs the definition that is found for it. -/
theorem run_of_found
    {registry : Registry (Action W)} {step : Step} {found : Found (Action W)}
    (find : registry.find? step.kind step.text = some found) (world : W) :
    step.run registry world =
      let called := found.definition.action world (step.arguments found.arguments)
      (called.1.error?, called.2) := by
  simp [Step.run, find]

theorem readable_of_find?
    {registry : Registry (Action W)} {step : Step} {found : Found (Action W)}
    (find : registry.find? step.kind step.text = some found) :
    step.Readable found.definition.pattern.placeholders found.arguments
      (step.arguments found.arguments) := by
  obtain ⟨-, -, captured⟩ := Registry.captures?_of_find? find
  exact readable_of_gives (Pattern.gives_of_captures? captured)

end Step

end Gherkin

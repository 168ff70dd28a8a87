import Gherkin.Environment
import Gherkin.Feature.Json
import Gherkin.Report.Json
import Gherkin.Proofs.Json.Records

/-!
Contract: the JSON forms of scenarios, results and variables, written and read.

Owns: that each form reads back, which optional fields it shows, and where the records
stand inside each other, so that unknown members are passed over in all of them.
Does not own: records in general (`Gherkin.Proofs.Json.Records`), and the text of a form
(`Gherkin.Proofs.Json.Printing`).
Main statement: `forms_read_back`.
-/

set_option autoImplicit false

namespace Gherkin

open Json

theorem StepKind.readsBack : ReadsBack StepKind.toJson StepKind.ofJson? := by
  intro kind
  cases kind <;> rfl

theorem Keyword.readsBack : ReadsBack Keyword.toJson Keyword.ofJson? := by
  intro keyword
  rcases keyword with kind | _ | _
  · cases kind <;> rfl
  · rfl
  · rfl

theorem Status.readsBack : ReadsBack Status.toJson Status.ofJson? := by
  intro status
  cases status <;> rfl

theorem Time.readsBack (reading : TimeReading) :
    ReadsBack Time.toJson (Time.ofJson? reading) := by
  intro time
  rw [Time.toJson, Time.ofJson?, reading.read_text]
  rfl

theorem Environment.readsBack : ReadsBack Environment.toJson Environment.ofJson? := by
  intro environment
  rw [Environment.toJson, Environment.ofJson?, readsBack_string.dictionary environment.values]
  rfl

theorem DataTable.readsBack : ReadsBack DataTable.toJson DataTable.ofJson? := by
  intro table
  have rows : ReadsBack (fun rows : List (List String) =>
      .array (rows.map fun row => .array (row.map .string))) decodeRows :=
    readsBack_string.list.list
  obtain ⟨entries, members, found⟩ := schema.members_ofPresent (by decide)
    (.cons (Field.takes_some "rows" rows table.rows) .nil)
  obtain ⟨row, -⟩ := List.forall_mem_cons.mp found
  unfold DataTable.ofJson?
  rw [show schema.members table.toJson = .ok entries from members]
  simp only [bind, Except.bind, required_of_lookup rows row]
  rfl

theorem StepResult.readsBack : ReadsBack StepResult.toJson StepResult.ofJson? := by
  intro step
  obtain ⟨entries, members, found⟩ := schema.members_ofPresent (by decide)
    (.cons (Field.takes_some "id" readsBack_string step.id)
    (.cons (Field.takes_some "text" readsBack_string step.text)
    (.cons (Field.takes_some "keyword" readsBack_string step.keyword)
    (.cons (Field.takes_some "status" Status.readsBack step.status)
    (.cons (Field.takes_some "duration" readsBack_uInt64 step.duration)
    (.cons (Field.takes_option "error" readsBack_string (fun _ => nofun) step.error) .nil))))))
  simp only [List.forall_mem_cons] at found
  obtain ⟨id, text, keyword, status, duration, error, -⟩ := found
  unfold StepResult.ofJson?
  rw [show schema.members step.toJson = .ok entries from members]
  simp only [bind, Except.bind, required_of_lookup readsBack_string id,
    required_of_lookup readsBack_string text, required_of_lookup readsBack_string keyword,
    required_of_lookup Status.readsBack status, required_of_lookup readsBack_uInt64 duration,
    optional_of_lookup readsBack_string (fun _ => nofun) error]
  rfl

theorem ScenarioResult.schema_names_nodup (reading : TimeReading) :
    ((schema reading).fields.map Field.name).Nodup := by
  simp [schema, Field.of]

theorem ScenarioResult.readsBack (reading : TimeReading) :
    ReadsBack ScenarioResult.toJson (ScenarioResult.ofJsonWith? reading) := by
  intro result
  have list := StepResult.readsBack.list
  have time := Time.readsBack reading
  obtain ⟨entries, members, found⟩ :=
    (schema reading).members_ofPresent (schema_names_nodup reading)
    (.cons (Field.takes_some "id" readsBack_string result.id)
    (.cons (Field.takes_some "timestamp" time result.timestamp)
    (.cons (Field.takes_some "feature" readsBack_string result.feature)
    (.cons (Field.takes_some "scenario" readsBack_string result.scenario)
    (.cons (Field.takes_some "steps" list result.steps)
    (.cons (Field.takes_some "status" Status.readsBack result.status)
    (.cons (Field.takes_some "duration" readsBack_uInt64 result.duration)
    (.cons (Field.takes_option "error" readsBack_string (fun _ => nofun) result.error)
      .nil))))))))
  simp only [List.forall_mem_cons] at found
  obtain ⟨id, timestamp, feature, scenario, steps, status, duration, error, -⟩ := found
  unfold ScenarioResult.ofJsonWith?
  rw [show (schema reading).members result.toJson = .ok entries from members]
  simp only [bind, Except.bind, required_of_lookup readsBack_string id,
    required_of_lookup time timestamp, required_of_lookup readsBack_string feature,
    required_of_lookup readsBack_string scenario, required_of_lookup list steps,
    required_of_lookup Status.readsBack status, required_of_lookup readsBack_uInt64 duration,
    optional_of_lookup readsBack_string (fun _ => nofun) error]
  rfl

theorem DataTable.toJson_ne_null (table : DataTable) : table.toJson ≠ .null := nofun

theorem Step.readsBack : ReadsBack Step.toJson Step.ofJson? := by
  intro step
  obtain ⟨entries, members, found⟩ := schema.members_ofPresent (by decide)
    (.cons (Field.takes_some "kind" StepKind.readsBack step.kind)
    (.cons (Field.takes_some "keyword" Keyword.readsBack step.keyword)
    (.cons (Field.takes_some "text" readsBack_string step.text)
    (.cons (Field.takes_some "line" readsBack_uInt32 step.line)
    (.cons (Field.takes_option "doc_string" readsBack_string (fun _ => nofun) step.docString)
    (.cons (Field.takes_option "data_table" DataTable.readsBack DataTable.toJson_ne_null
      step.dataTable) .nil))))))
  simp only [List.forall_mem_cons] at found
  obtain ⟨kind, keyword, text, line, docString, dataTable, -⟩ := found
  unfold Step.ofJson?
  rw [show schema.members step.toJson = .ok entries from members]
  simp only [bind, Except.bind, required_of_lookup StepKind.readsBack kind,
    required_of_lookup Keyword.readsBack keyword, required_of_lookup readsBack_string text,
    required_of_lookup readsBack_uInt32 line,
    optional_of_lookup readsBack_string (fun _ => nofun) docString,
    optional_of_lookup DataTable.readsBack DataTable.toJson_ne_null dataTable]
  rfl

theorem Scenario.readsBack : ReadsBack Scenario.toJson Scenario.ofJson? := by
  intro scenario
  have list := Step.readsBack.list
  obtain ⟨entries, members, found⟩ := schema.members_ofPresent (by decide)
    (.cons (Field.takes_some "name" readsBack_string scenario.name)
    (.cons (Field.takes_some "line" readsBack_uInt32 scenario.line)
    (.cons (Field.takes_some "steps" list scenario.steps) .nil)))
  simp only [List.forall_mem_cons] at found
  obtain ⟨name, line, steps, -⟩ := found
  unfold Scenario.ofJson?
  rw [show schema.members scenario.toJson = .ok entries from members]
  simp only [bind, Except.bind, required_of_lookup readsBack_string name,
    required_of_lookup readsBack_uInt32 line, required_of_lookup list steps]
  rfl

/-! Optional fields -/

theorem Step.member?_docString (step : Step) :
    step.toJson.member? "doc_string" = step.docString.map .string :=
  member?_ofPresent (by simp) (by simp)

theorem Step.member?_dataTable (step : Step) :
    step.toJson.member? "data_table" = step.dataTable.map DataTable.toJson :=
  member?_ofPresent (by simp) (by simp)

theorem StepResult.member?_error (step : StepResult) :
    step.toJson.member? "error" = step.error.map .string :=
  member?_ofPresent (by simp) (by simp)

theorem ScenarioResult.member?_error (result : ScenarioResult) :
    result.toJson.member? "error" = result.error.map .string :=
  member?_ofPresent (by simp) (by simp)

/-! Unknown members -/

def DataTable.nest : Nest :=
  .record schema fun _ => .plain

def Step.nest : Nest :=
  .record schema (.under "data_table" DataTable.nest)

def Scenario.nest : Nest :=
  .record schema (.under "steps" (.items Step.nest))

def StepResult.nest : Nest :=
  .record schema fun _ => .plain

def ScenarioResult.nest (reading : TimeReading) : Nest :=
  .record (schema reading) (.under "steps" (.items StepResult.nest))

theorem DataTable.unmoved : Unmoved DataTable.nest DataTable.ofJson? := by
  refine Schema.unmoved (fun _ _ => unmoved_plain) fun members members' same => ?_
  simp only [SameFields, schema, Field.of, List.forall_mem_cons] at same
  obtain ⟨rows, -⟩ := same
  simp only [rows.required unmoved_plain]

theorem Step.unmoved : Unmoved Step.nest Step.ofJson? := by
  refine Schema.unmoved
    (unmoved_under DataTable.unmoved.option (by simp [schema]) (by decide))
    fun members members' same => ?_
  simp only [SameFields, schema, Field.of, Nest.under, List.forall_mem_cons] at same
  obtain ⟨kind, keyword, text, line, docString, dataTable, -⟩ := same
  simp only [kind.required unmoved_plain, keyword.required unmoved_plain,
    text.required unmoved_plain, line.required unmoved_plain, docString.optional unmoved_plain,
    dataTable.optional DataTable.unmoved]

theorem Scenario.unmoved : Unmoved Scenario.nest Scenario.ofJson? := by
  have list := Step.unmoved.list
  refine Schema.unmoved (unmoved_under list (by simp [schema]) (by decide))
    fun members members' same => ?_
  simp only [SameFields, schema, Field.of, Nest.under, List.forall_mem_cons] at same
  obtain ⟨name, line, steps, -⟩ := same
  simp only [name.required unmoved_plain, line.required unmoved_plain, steps.required list]

theorem StepResult.unmoved : Unmoved StepResult.nest StepResult.ofJson? := by
  refine Schema.unmoved (fun _ _ => unmoved_plain) fun members members' same => ?_
  simp only [SameFields, schema, Field.of, List.forall_mem_cons] at same
  obtain ⟨id, text, keyword, status, duration, error, -⟩ := same
  simp only [id.required unmoved_plain, text.required unmoved_plain,
    keyword.required unmoved_plain, status.required unmoved_plain,
    duration.required unmoved_plain, error.optional unmoved_plain]

theorem ScenarioResult.unmoved (reading : TimeReading) :
    Unmoved (ScenarioResult.nest reading) (ScenarioResult.ofJsonWith? reading) := by
  have list := StepResult.unmoved.list
  refine Schema.unmoved
    (unmoved_under list (by simp [schema]) (schema_names_nodup reading))
    fun members members' same => ?_
  simp only [SameFields, schema, Field.of, Nest.under, List.forall_mem_cons] at same
  obtain ⟨id, timestamp, feature, scenario, steps, status, duration, error, -⟩ := same
  simp only [id.required unmoved_plain, timestamp.required unmoved_plain,
    feature.required unmoved_plain, scenario.required unmoved_plain, steps.required list,
    status.required unmoved_plain, duration.required unmoved_plain,
    error.optional unmoved_plain]

/-- Every form reads back to what was written. An optional field has a member exactly if it
is there. Members under names that are no fields of the record to which they are added, of
whatever number and in whatever depth, do not change what is read, be it a record or the
reason why there is none. Of the reading of times it is known that it reads what is written. -/
theorem forms_read_back (reading : TimeReading) :
    ReadsBack StepKind.toJson StepKind.ofJson? ∧
    ReadsBack Keyword.toJson Keyword.ofJson? ∧
    ReadsBack Status.toJson Status.ofJson? ∧
    ReadsBack DataTable.toJson DataTable.ofJson? ∧
    ReadsBack Step.toJson Step.ofJson? ∧
    ReadsBack Scenario.toJson Scenario.ofJson? ∧
    ReadsBack StepResult.toJson StepResult.ofJson? ∧
    ReadsBack ScenarioResult.toJson (ScenarioResult.ofJsonWith? reading) ∧
    ReadsBack Environment.toJson Environment.ofJson? ∧
    (∀ step : Step,
      step.toJson.member? "doc_string" = step.docString.map .string ∧
      step.toJson.member? "data_table" = step.dataTable.map DataTable.toJson) ∧
    (∀ step : StepResult, step.toJson.member? "error" = step.error.map .string) ∧
    (∀ result : ScenarioResult, result.toJson.member? "error" = result.error.map .string) ∧
    PassesOver DataTable.nest DataTable.ofJson? ∧
    PassesOver Step.nest Step.ofJson? ∧
    PassesOver Scenario.nest Scenario.ofJson? ∧
    PassesOver StepResult.nest StepResult.ofJson? ∧
    PassesOver (ScenarioResult.nest reading) (ScenarioResult.ofJsonWith? reading) :=
  ⟨StepKind.readsBack, Keyword.readsBack, Status.readsBack, DataTable.readsBack,
    Step.readsBack, Scenario.readsBack, StepResult.readsBack,
    ScenarioResult.readsBack reading,
    Environment.readsBack, fun step => ⟨step.member?_docString, step.member?_dataTable⟩,
    StepResult.member?_error, ScenarioResult.member?_error, DataTable.unmoved.passesOver,
    Step.unmoved.passesOver, Scenario.unmoved.passesOver, StepResult.unmoved.passesOver,
    (ScenarioResult.unmoved reading).passesOver⟩

end Gherkin

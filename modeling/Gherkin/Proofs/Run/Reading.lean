import Gherkin.Http.Network
import Gherkin.Proofs.Run.Event

/-!
Contract: which arguments the built-in sentences read.

Owns: when a call of a built-in sentence fails for its arguments.
Does not own: what can be read of a call (`Gherkin.Proofs.Run.Calling`).
Main statement: `run_typed`.

Every sentence reads its values as its pattern captures them. What it may lack is what the
pattern does not speak of: the doc string or the table of the step.
-/

set_option autoImplicit false

namespace Gherkin.HttpSteps

open Http

/-- What a step with a built-in sentence does not have, though the sentence reads it. The
table is only read when there is a response to compare it with. -/
inductive Lacks (pattern : String) (step : Step) (world : World) : ArgumentError → Prop where
  | docString (sendsBody : pattern ∈ withBody.map Prod.snd) (missing : step.docString = none) :
      Lacks pattern step world .noDocString
  | dataTable (comparesData : pattern = "the response should have the following data:")
      (missing : step.dataTable = none) (answered : world.response.isSome) :
      Lacks pattern step world .noDataTable

/-! ## Computations that find their arguments -/

/-- The computation does not fail for an argument. -/
def Served {α : Type} (result : Except StepError α) : Prop :=
  ∀ error, result ≠ .error (.argument error)

theorem Served.bind
    {α β : Type} {result : Except StepError α} {next : α → Except StepError β}
    (first : Served result) (later : ∀ value, Served (next value)) :
    Served (result >>= next) := by
  cases result with
  | error fault => exact fun error same => first error (congrArg _ (Except.error.inj same))
  | ok value => exact later value

theorem served_asked
    {α : Type} {argument : Except ArgumentError α} (isThere : ∃ value, argument = .ok value) :
    Served (asked argument) := by
  obtain ⟨value, rfl⟩ := isThere
  exact fun error => nofun

theorem served_lastResponse (world : World) : Served world.lastResponse := by
  intro error
  unfold World.lastResponse
  cases world.response <;> nofun

theorem served_checkField (data : Json.Value) (name expected : String) :
    Served (checkField data name expected) := by
  intro error
  unfold checkField
  dsimp only
  split <;> nofun

theorem served_checkFields (data : Json.Value) (fields : List (String × String)) :
    Served (checkFields data fields) := by
  induction fields with
  | nil => exact fun error => nofun
  | cons field fields inductionHypothesis =>
      have first := served_checkField data field.1 field.2
      unfold checkFields
      cases checked : checkField data field.1 field.2 with
      | error fault => rwa [checked] at first
      | ok _ => exact inductionHypothesis

/-! ## The checks -/

theorem served_checkStatus
    {arguments : Arguments} (isInt : ∃ n, arguments.int 0 = .ok n) (world : World) :
    Served (checkStatus world arguments) := by
  apply (served_asked isInt).bind
  intro expected
  apply (served_lastResponse world).bind
  intro response error
  split <;> nofun

theorem served_checkValue
    {arguments : Arguments} (isName : ∃ s, arguments.text 0 = .ok s)
    (isValue : ∃ s, arguments.text 1 = .ok s) (world : World) :
    Served (checkValue world arguments) := by
  apply (served_lastResponse world).bind
  intro response
  apply (served_asked isName).bind
  intro name
  apply (served_asked isValue).bind
  intro expected
  exact served_checkField response.data name expected

theorem served_checkPresence
    {arguments : Arguments} (isName : ∃ s, arguments.text 0 = .ok s) (world : World) :
    Served (checkPresence world arguments) := by
  apply (served_asked isName).bind
  intro name
  apply (served_lastResponse world).bind
  intro response error
  split <;> nofun

theorem served_checkHeader
    {arguments : Arguments} (isName : ∃ s, arguments.text 0 = .ok s)
    (isValue : ∃ s, arguments.text 1 = .ok s) (world : World) :
    Served (checkHeader world arguments) := by
  apply (served_asked isName).bind
  intro name
  apply (served_asked isValue).bind
  intro expected
  apply (served_lastResponse world).bind
  intro response error
  dsimp only
  split <;> nofun

/-! ## The calls -/

theorem error?_ofExcept_iff
    {result : Except StepError Unit} {error : StepError} :
    (Outcome.ofExcept result).error? = some error ↔ result = .error error := by
  cases result <;> simp [Outcome.ofExcept, Outcome.error?]

theorem send_error_ne
    (world : World) (method : Method) (path : String) (body : Option Json.Value)
    (error : ArgumentError) : (send world method path body).1.error? ≠ some (.argument error) := by
  unfold send
  rcases world.send method path body with ⟨result, left⟩
  cases result <;> simp [Outcome.ofExcept, Except.mapError, Outcome.error?]

/-- A call of the action with what the pattern captures fails for an argument only where
the step does not have it. -/
def FaultsByLack (pattern : String) (action : Action World) : Prop :=
  ∀ (step : Step) (captured : List Argument) (arguments : Arguments),
    step.Readable (Pattern.lenient pattern).placeholders captured arguments →
      ∀ (world : World) (error : ArgumentError),
        (action world arguments).1.error? = some (.argument error) ↔
          Lacks pattern step world error

section Lacks

variable {pattern : String} {step : Step} {world : World} {error : ArgumentError}

theorem not_lacks
    (sendsNoBody : pattern ∉ withBody.map Prod.snd)
    (noData : pattern ≠ "the response should have the following data:") :
    ¬ Lacks pattern step world error := by
  intro lacks
  cases lacks with
  | docString sendsBody missing => exact sendsNoBody sendsBody
  | dataTable comparesData missing answered => exact noData comparesData

theorem lacks_withBody_iff (sendsBody : pattern ∈ withBody.map Prod.snd) :
    Lacks pattern step world error ↔ error = .noDocString ∧ step.docString = none := by
  have noData : "the response should have the following data:" ∉ withBody.map Prod.snd := by
    simp [withBody]
  constructor
  · intro lacks
    cases lacks with
    | docString _ missing => exact ⟨rfl, missing⟩
    | dataTable comparesData missing answered => exact absurd (comparesData ▸ sendsBody) noData
  · rintro ⟨rfl, missing⟩
    exact .docString sendsBody missing

theorem lacks_data_iff :
    Lacks "the response should have the following data:" step world error ↔
      error = .noDataTable ∧ step.dataTable = none ∧ world.response.isSome := by
  have noBody : "the response should have the following data:" ∉ withBody.map Prod.snd := by
    simp [withBody]
  constructor
  · intro lacks
    cases lacks with
    | docString sendsBody missing => exact absurd sendsBody noBody
    | dataTable _ missing answered => exact ⟨rfl, missing, answered⟩
  · rintro ⟨rfl, missing, answered⟩
    exact .dataTable rfl missing answered

end Lacks

theorem faults_setHeader : FaultsByLack "I set header {string} to {string}" setHeader := by
  intro step captured arguments readable world error
  rw [setHeader_holes] at readable
  obtain ⟨name, isName⟩ := readable.exists_text 0 (by decide)
  obtain ⟨value, isValue⟩ := readable.exists_text 1 (by decide)
  refine iff_of_false ?_ (not_lacks (by simp [withBody]) (by simp))
  unfold setHeader
  rw [isName, isValue]
  simp [asked, Except.mapError, Outcome.error?]

theorem faults_sendWithoutBody
    {method : Method} {pattern : String} (member : (method.name, pattern) ∈ withoutBody) :
    FaultsByLack pattern (sendWithoutBody method) := by
  have other : ∀ row ∈ withoutBody, row.2 ∉ withBody.map Prod.snd ∧
      row.2 ≠ "the response should have the following data:" := by
    simp [withoutBody, withBody]
  intro step captured arguments readable world error
  rw [withoutBody_holes _ member] at readable
  obtain ⟨path, isPath⟩ := readable.exists_text 0 (by decide)
  refine iff_of_false ?_ (not_lacks (other _ member).1 (other _ member).2)
  unfold sendWithoutBody
  rw [isPath]
  exact send_error_ne world method path none error

theorem faults_sendWithBody
    {method : Method} {pattern : String} (member : (method.name, pattern) ∈ withBody) :
    FaultsByLack pattern (sendWithBody method) := by
  intro step captured arguments readable world error
  rw [withBody_holes _ member] at readable
  obtain ⟨path, isPath⟩ := readable.exists_text 0 (by decide)
  rw [lacks_withBody_iff (List.mem_map_of_mem member)]
  unfold sendWithBody bodyOf
  rw [isPath, readable.docString_eq]
  cases step.docString with
  | none => simp [asked, Except.mapError, Outcome.error?, eq_comm]
  | some doc =>
      refine iff_of_false ?_ fun lacks => Option.some_ne_none doc lacks.2
      simp only [Option.elim_some, asked, Except.mapError]
      cases Json.readDocument (Text.trimmed doc) with
      | error fault => simp [Outcome.error?]
      | ok value => exact send_error_ne world method path (some value) error

theorem faults_sendAny : FaultsByLack "I send a {word} request to {string}" sendAny := by
  intro step captured arguments readable world error
  rw [show Pattern.lenient _ = anyMethodPattern from rfl, anyMethod_holes] at readable
  obtain ⟨word, isWord⟩ := readable.exists_text 0 (by decide)
  obtain ⟨path, isPath⟩ := readable.exists_text 1 (by decide)
  refine iff_of_false ?_ (not_lacks (by simp [withBody]) (by simp))
  unfold sendAny methodOf
  rw [isWord, isPath]
  simp only [asked, Except.mapError, Except.bind]
  cases Method.ofText? (upperCase word) with
  | none => simp [Outcome.error?]
  | some method => exact send_error_ne world method path none error

/-- A check that finds its arguments never lacks one. -/
theorem faults_check
    {pattern : String} {placeholders : List Placeholder}
    {judge : World → Arguments → Except StepError Unit}
    (member : (pattern, placeholders) ∈ otherHoles)
    (noData : pattern ≠ "the response should have the following data:")
    (served : ∀ (step : Step) (captured : List Argument) (arguments : Arguments),
      step.Readable placeholders captured arguments →
        ∀ world, Served (judge world arguments)) :
    FaultsByLack pattern (check judge) := by
  have noBody : ∀ sentence ∈ otherHoles, sentence.1 ∉ withBody.map Prod.snd := by
    simp [otherHoles, withBody]
  intro step captured arguments readable world error
  rw [other_holes _ member] at readable
  refine iff_of_false ?_ (not_lacks (noBody _ member) noData)
  intro failed
  exact served step captured arguments readable world error (error?_ofExcept_iff.mp failed)

theorem faults_checkData :
    FaultsByLack "the response should have the following data:" (check checkData) := by
  intro step captured arguments readable world error
  rw [lacks_data_iff]
  refine error?_ofExcept_iff.trans ?_
  unfold checkData World.lastResponse
  rw [readable.table_eq]
  cases world.response with
  | none => simp [bind, Except.bind]
  | some response =>
      cases step.dataTable with
      | none => simp [bind, Except.bind, asked, Except.mapError, eq_comm]
      | some table =>
          refine iff_of_false ?_ fun lacks => Option.some_ne_none table lacks.2.1
          exact served_checkFields response.data table.bindings.toList error

theorem faults_checkStatus :
    FaultsByLack "the response status code should be {int}" (check checkStatus) := by
  have member : ("the response status code should be {int}", [.int]) ∈ otherHoles := by
    simp [otherHoles]
  refine faults_check member (by simp) ?_
  intro step captured arguments readable world
  exact served_checkStatus ((readable.int_iff 0).mpr rfl) world

theorem faults_checkValue :
    FaultsByLack "the response should contain {string} with value {string}" (check checkValue) := by
  have member : ("the response should contain {string} with value {string}", [.string, .string]) ∈
      otherHoles := by
    simp [otherHoles]
  refine faults_check member (by simp) ?_
  intro step captured arguments readable world
  have isName := readable.exists_text 0 (by decide)
  have isValue := readable.exists_text 1 (by decide)
  exact served_checkValue isName isValue world

theorem faults_checkPresence :
    FaultsByLack "the response should contain {string}" (check checkPresence) := by
  have member : ("the response should contain {string}", [.string]) ∈ otherHoles := by
    simp [otherHoles]
  refine faults_check member (by simp) ?_
  intro step captured arguments readable world
  exact served_checkPresence (readable.exists_text 0 (by decide)) world

theorem faults_checkHeader :
    FaultsByLack "the response header {string} should be {string}" (check checkHeader) := by
  have member : ("the response header {string} should be {string}", [.string, .string]) ∈
      otherHoles := by
    simp [otherHoles]
  refine faults_check member (by simp) ?_
  intro step captured arguments readable world
  have isName := readable.exists_text 0 (by decide)
  have isValue := readable.exists_text 1 (by decide)
  exact served_checkHeader isName isValue world

theorem faults_of_mem : ∀ entry ∈ entries, FaultsByLack entry.pattern entry.action := by
  unfold entries
  simp only [List.forall_mem_cons]
  exact ⟨faults_setHeader, faults_sendWithoutBody (by decide), faults_sendWithBody (by decide),
    faults_sendWithBody (by decide), faults_sendWithBody (by decide),
    faults_sendWithoutBody (by decide), faults_sendAny, faults_checkStatus, faults_checkData,
    faults_checkValue, faults_checkPresence, faults_checkHeader, nofun⟩

/-! ## The result -/

/-- Every definition is called with what its pattern captures from the text of the step and
with what the step holds besides, and reads it by kind. A built-in sentence, in whichever
registry it is found, reads nothing else: it only fails for an argument where the step has
no doc string to send, or no table to compare with. -/
theorem run_typed :
    (∀ {W : Type} (registry : Registry (Action W)) (step : Step) (found : Found (Action W)),
      registry.find? step.kind step.text = some found →
        found.definition.pattern.captures? step.text = some found.arguments ∧
        ∃ arguments,
          step.Readable found.definition.pattern.placeholders found.arguments arguments ∧
          ∀ world, step.run registry world =
            ((found.definition.action world arguments).1.error?,
              (found.definition.action world arguments).2)) ∧
      ∀ (registry : Registry (Action World)) (step : Step) (found : Found (Action World)),
        registry.find? step.kind step.text = some found →
          ∀ entry ∈ entries, found.definition.pattern.text = entry.pattern →
            found.definition.action = entry.action →
              ∀ (world : World) (error : ArgumentError),
                (step.run registry world).1 = some (.argument error) ↔
                  Lacks entry.pattern step world error := by
  constructor
  · intro W registry step found find
    have captured := (Registry.captures?_of_find? find).2.2
    exact ⟨captured, _, Step.readable_of_find? find, Step.run_of_found find⟩
  · intro registry step found find entry member samePattern sameAction world error
    have readable := Step.readable_of_find? find
    have samePlaceholders : found.definition.pattern.placeholders =
        (Pattern.lenient entry.pattern).placeholders := by
      rw [← samePattern, Pattern.placeholders_lenient]
    rw [samePlaceholders] at readable
    rw [Step.run_of_found find, sameAction]
    exact faults_of_mem entry member step _ _ readable world error

/-- A table in the place of the doc string is not sent. -/
theorem run_typed_without_docString :
    ∃ (step : Step) (found : Found (Action World)),
      step.text = "I send a POST request to \"/users\" with:" ∧
      step.docString = none ∧ step.dataTable = some ⟨[["name", "Ann"]]⟩ ∧
      (Registry.ofEntries entries).find? step.kind step.text = some found ∧
      found.arguments = [.text "/users"] ∧
      (∃ arguments,
        step.Readable found.definition.pattern.placeholders found.arguments arguments) ∧
      (step.run (.ofEntries entries) (.start .empty (.plain fun _ => .unanswered))).1 =
        some (.argument .noDocString) := by
  let step : Step := {
    kind := .action
    keyword := .names .action
    text := "I send a POST request to \"/users\" with:"
    line := 2
    dataTable := some ⟨[["name", "Ann"]]⟩ }
  have finds : ((Registry.ofEntries entries).find? step.kind step.text).map
      (fun found => (found.definition.pattern.text, found.arguments)) =
        some ("I send a POST request to {string} with:", [.text "/users"]) := by
    decide +kernel
  obtain ⟨found, find, same⟩ := Option.map_eq_some_iff.mp finds
  obtain ⟨isPattern, captured⟩ := Prod.mk.inj same
  obtain ⟨entry, member, isDefinition, -, -⟩ := exists_entry_of_find? find
  have samePattern : found.definition.pattern.text = entry.pattern := by
    rw [isDefinition]
    rfl
  have sameAction : found.definition.action = entry.action := by
    rw [isDefinition]
    rfl
  have sendsBody : entry.pattern ∈ withBody.map Prod.snd := by
    rw [← samePattern, isPattern]
    decide
  have lacks :
      Lacks entry.pattern step (.start .empty (.plain fun _ => .unanswered)) .noDocString :=
    .docString sendsBody rfl
  obtain ⟨-, arguments, readable, -⟩ := run_typed.1 (.ofEntries entries) step found find
  have faults := run_typed.2 (.ofEntries entries) step found find entry member samePattern
    sameAction (.start .empty (.plain fun _ => .unanswered)) .noDocString
  exact ⟨step, found, rfl, rfl, rfl, find, captured, ⟨arguments, readable⟩, faults.mpr lacks⟩

end Gherkin.HttpSteps

import Gherkin.Http.Network
import Gherkin.Run.Batch
import Gherkin.Proofs.Json.Accepting
import Gherkin.Proofs.Json.Printing
import Gherkin.Proofs.Report.Forms
import Gherkin.Proofs.Run.Chain
import Gherkin.Proofs.Run.Overlap

/-!
Contract: a run from text to text is the run of the features that the text holds.

Owns: which features a text holds and in what order they run, that the output is JSON from
which the results are decoded again, and what the output and the requests do not depend on.
Does not own: what the run itself does (`Gherkin.Proofs.Run.Chain`), and the JSON forms of
results (`Gherkin.Proofs.Report.Forms`).
Main statement: `runBatch_results`.

An error tells the place in the text where it shows, so a text that holds no features is
refused with a message that depends on its spelling: `runBatch_of_spacing`.
-/

set_option autoImplicit false

namespace Gherkin

open Json

/-! ## The features of a text -/

/-- The features as they run: in the order of their names, each with the last text under its
name. -/
structure RunOrder (pairs features : List (String × String)) : Prop where
  increase : features.Pairwise fun a b => a.1 < b.1
  isLast : ∀ name text, (name, text) ∈ features ↔
    ∃ before after, pairs = before ++ (name, text) :: after ∧ ∀ pair ∈ after, pair.1 ≠ name

theorem runOrder_ofList (pairs : List (String × String)) :
    RunOrder pairs (Dictionary.ofList pairs).toList :=
  ⟨(Dictionary.ofList pairs).keysIncrease, fun _ _ => Dictionary.mem_entries_ofList_iff⟩

/-- The same members under each name, in the same order; those of different names may have
moved past each other. -/
def SameUnderNames (pairs pairs' : List (String × String)) : Prop :=
  ∀ name, pairs.filter (·.1 = name) = pairs'.filter (·.1 = name)

theorem SameUnderNames.ofList {pairs pairs' : List (String × String)}
    (same : SameUnderNames pairs pairs') :
    Dictionary.ofList pairs = Dictionary.ofList pairs' :=
  Dictionary.ext_get? fun name => by
    rw [Dictionary.get?_ofList, Dictionary.get?_ofList, same name]

/-! ## The results as JSON -/

theorem StepResult.spells_chars (nesting : Nat) (step : StepResult) :
    Spells (nesting + 1) step.chars step.toJson :=
  spells_recordText <|
    .cons (.string step.id) <| .cons (.string step.text) <| .cons (.string step.keyword) <|
    .cons (.string step.status.word) <| .cons (.uInt64 step.duration) <|
    .cons (.string? step.error) .nil

theorem ScenarioResult.spells_chars (nesting : Nat) (result : ScenarioResult) :
    Spells (nesting + 3) result.chars result.toJson := by
  have steps : Spells (nesting + 2) (listText (result.steps.map StepResult.chars))
      (.array (result.steps.map StepResult.toJson)) := by
    apply spells_listText
    rw [List.forall₂_map_left_iff, List.forall₂_map_right_iff]
    exact List.forall₂_same.mpr fun step _ => step.spells_chars nesting
  exact spells_recordText <|
    .cons (.string result.id) <| .cons (.string result.timestamp.text) <|
    .cons (.string result.feature) <| .cons (.string result.scenario) <|
    .cons (.present steps) <| .cons (.string result.status.word) <|
    .cons (.uInt64 result.duration) <| .cons (.string? result.error) .nil

/-- Results are decoded from the text that they are written as. -/
theorem decode_resultsText (reading : TimeReading) (results : List ScenarioResult) :
    IsDocument (resultsText results) (.array (results.map ScenarioResult.toJson)) ∧
      decodeList (ScenarioResult.ofJsonWith? reading)
        (.array (results.map ScenarioResult.toJson)) = .ok results := by
  have spelled : Spells nestingBound (listText (results.map ScenarioResult.chars))
      (.array (results.map ScenarioResult.toJson)) := by
    apply spells_listText
    rw [List.forall₂_map_left_iff, List.forall₂_map_right_iff]
    exact List.forall₂_same.mpr fun result _ => result.spells_chars 123
  refine ⟨.mk isSpace_nil spelled isSpace_nil ?_, (ScenarioResult.readsBack reading).list results⟩
  rw [resultsText, String.toList_ofList, List.nil_append, List.append_nil]

theorem isDocument_errorJson (message : String) :
    IsDocument (errorJson message).render (.object [("error", .string message)]) := by
  refine IsPlain.isDocument (.object (List.pairwise_singleton ..) ?_)
  exact List.forall_mem_singleton.mpr (.string message)

/-! ## Whole runs -/

theorem runBatch_of_texts
    {features : String} {pairs : List (String × String)} (isTexts : IsTexts features pairs)
    (transport : Http.Transport) (clock : Clock) (environment : String) :
    ∃ results left,
      HttpSteps.library.run clock (Dictionary.ofList pairs).toList
        (.start (.ofText environment) transport) = (.ok results, left) ∧
      runBatch transport clock features environment = (resultsText results, left) := by
  have registered : HttpSteps.library {} = .ok (.ofEntries HttpSteps.entries) :=
    StepLibrary.ofList_empty HttpSteps.entries_compile
  have ran := StepLibrary.run_of_ok registered clock (Dictionary.ofList pairs).toList
    (World.start (.ofText environment) transport)
  refine ⟨_, _, ran, ?_⟩
  simp only [runBatch, readTexts_of_isTexts isTexts, ran]

theorem runBatch_of_no_texts
    {features : String} (noTexts : ¬ ∃ pairs, IsTexts features pairs)
    (transport : Http.Transport) (clock : Clock) (environment : String) :
    ∃ message, runBatch transport clock features environment =
      ((errorJson message).render, World.start (.ofText environment) transport) := by
  cases read : readTexts features with
  | ok texts =>
      obtain ⟨pairs, isTexts, -⟩ := readTexts_eq_ok_iff.mp read
      exact absurd ⟨pairs, isTexts⟩ noTexts
  | error fault =>
      refine ⟨"invalid features JSON: " ++ fault.message features, ?_⟩
      simp only [runBatch, read]

theorem runBatch_of_same_texts
    {features features' : String} {pairs pairs' : List (String × String)}
    (isTexts : IsTexts features pairs) (isTexts' : IsTexts features' pairs')
    (same : SameUnderNames pairs pairs') (transport : Http.Transport) (clock : Clock)
    (environment : String) :
    runBatch transport clock features environment =
      runBatch transport clock features' environment := by
  simp only [runBatch, readTexts_of_isTexts isTexts, readTexts_of_isTexts isTexts', same.ofList]

/-- A text that is an object with strings for members gives an array from which the results
of the run of its features are decoded; any other text gives an object with nothing but an
error, and nothing is sent. How features are spelled, and in what order those of different
names stand, changes neither the output nor the world that is left. -/
theorem runBatch_results
    (reading : TimeReading) (transport : Http.Transport) (clock : Clock) (environment : String) :
    (∀ features pairs, IsTexts features pairs →
      ∃ ordered results left output value,
        RunOrder pairs ordered ∧
        HttpSteps.library.run clock ordered (.start (.ofText environment) transport) =
          (.ok results, left) ∧
        runBatch transport clock features environment = (output, left) ∧
        IsDocument output value ∧
        readDocument output = .ok value ∧
        decodeList (ScenarioResult.ofJsonWith? reading) value = .ok results) ∧
    (∀ features, (¬ ∃ pairs, IsTexts features pairs) →
      ∃ output message left,
        runBatch transport clock features environment = (output, left) ∧
        IsDocument output (.object [("error", .string message)]) ∧
        left.sent = []) ∧
    ∀ features features' pairs pairs', IsTexts features pairs → IsTexts features' pairs' →
      SameUnderNames pairs pairs' →
        runBatch transport clock features environment =
          runBatch transport clock features' environment := by
  refine ⟨?_, ?_, ?_⟩
  · intro features pairs isTexts
    obtain ⟨results, left, ran, output⟩ := runBatch_of_texts isTexts transport clock environment
    obtain ⟨isDocument, decoded⟩ := decode_resultsText reading results
    exact ⟨_, results, left, _, _, runOrder_ofList pairs, ran, output, isDocument,
      readDocument_of_isDocument isDocument, decoded⟩
  · intro features noTexts
    obtain ⟨message, output⟩ := runBatch_of_no_texts noTexts transport clock environment
    exact ⟨_, message, _, output, isDocument_errorJson message, rfl⟩
  · intro features features' pairs pairs' isTexts isTexts' same
    exact runBatch_of_same_texts isTexts isTexts' same transport clock environment

/-- A space before a member that is no string moves the place that the error tells. -/
theorem runBatch_of_spacing :
    (∃ value, IsDocument "\x7b\"a\":1\x7d" value ∧ IsDocument "\x7b \"a\":1\x7d" value) ∧
    "\x7b \"a\":1\x7d".toList.filter (!isSpace ·) = "\x7b\"a\":1\x7d".toList ∧
    (runBatch Http.Network.offline.transport .epoch "\x7b\"a\":1\x7d" "").1 ≠
      (runBatch Http.Network.offline.transport .epoch "\x7b \"a\":1\x7d" "").1 := by
  have named : SpellsString ['"', 'a', '"'] "a" :=
    ⟨['a'], rfl, .cons (.plain (by decide) (by decide) (by decide)) .nil⟩
  have numeral : (Text.signedNumeral 1).toList = ['1'] := by decide
  have one : SpellsScalar ['1'] (.int 1) := numeral ▸ .int (by unfold InRange; omega)
  have document (space : List Char) (isSpace : IsSpace space) :
      IsDocument (String.ofList ('\x7b' :: (space ++ ['"', 'a', '"', ':', '1', '\x7d'])))
        (.ofMembers [("a", .int 1)]) := by
    have member : SpellsMember (Spells 126) ['"', 'a', '"', ':', '1'] ("a", .int 1) :=
      .mk named isSpace_nil isSpace_nil (.inl one)
    have object : SpellsMembers (Spells 126) _ [("a", .int 1)] :=
      .items isSpace (.one member) isSpace_nil
    exact .mk isSpace_nil (.inr (.inr ⟨_, rfl, object⟩)) isSpace_nil (by simp)
  refine ⟨⟨_, document [] nofun, document [' '] ?_⟩, by decide, by decide +kernel⟩
  simp [IsSpace, isSpace]

end Gherkin

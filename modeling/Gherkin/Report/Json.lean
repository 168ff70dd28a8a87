import Gherkin.Json.Decode
import Gherkin.Json.Printer
import Gherkin.Report.Result

/-!
Contract: the JSON form of results.

Owns: `toJson` and `ofJson?` for outcomes and for the results of steps and
scenarios, and the texts that the results are written as. An absent error is left out.

A text holds the fields of a record in their own order; what it is read as does not
depend on that.
-/

set_option autoImplicit false

namespace Gherkin

open Json

def Status.toJson (status : Status) : Value :=
  .string status.word

def Status.ofJson? : Decoder Status :=
  decodeEnum (Status.all.map fun status => (status.word, status))

def Time.toJson (time : Time) : Value :=
  .string time.text

def Time.ofJson? (reading : TimeReading) : Decoder Time
  | .string text => (reading.read text).mapError .badTime
  | other => .error (.wrongType other "an RFC 3339 formatted date and time string")

def StepResult.toJson (step : StepResult) : Value :=
  .ofPresent [
    ("id", some (.string step.id)),
    ("text", some (.string step.text)),
    ("keyword", some (.string step.keyword)),
    ("status", some step.status.toJson),
    ("duration", some (.int step.duration.toNat)),
    ("error", step.error.map .string)]

def StepResult.chars (step : StepResult) : List Char :=
  recordText [
    ("id", some (stringText step.id)),
    ("text", some (stringText step.text)),
    ("keyword", some (stringText step.keyword)),
    ("status", some step.status.toJson.chars),
    ("duration", some (Text.numeral step.duration.toNat).toList),
    ("error", step.error.map stringText)]

def StepResult.schema : Schema :=
  ⟨"StepResult", [
    .of "id" decodeString,
    .of "text" decodeString,
    .of "keyword" decodeString,
    .of "status" Status.ofJson?,
    .of "duration" decodeUInt64,
    .of "error" (decodeOption decodeString)]⟩

def StepResult.ofJson? (value : Value) : Except DecodeError StepResult := do
  let members ← schema.members value
  return {
    id := ← required members "id" decodeString
    text := ← required members "text" decodeString
    keyword := ← required members "keyword" decodeString
    status := ← required members "status" Status.ofJson?
    duration := ← required members "duration" decodeUInt64
    error := ← optional members "error" decodeString }

def ScenarioResult.toJson (result : ScenarioResult) : Value :=
  .ofPresent [
    ("id", some (.string result.id)),
    ("timestamp", some result.timestamp.toJson),
    ("feature", some (.string result.feature)),
    ("scenario", some (.string result.scenario)),
    ("steps", some (.array (result.steps.map StepResult.toJson))),
    ("status", some result.status.toJson),
    ("duration", some (.int result.duration.toNat)),
    ("error", result.error.map .string)]

def ScenarioResult.chars (result : ScenarioResult) : List Char :=
  recordText [
    ("id", some (stringText result.id)),
    ("timestamp", some result.timestamp.toJson.chars),
    ("feature", some (stringText result.feature)),
    ("scenario", some (stringText result.scenario)),
    ("steps", some (listText (result.steps.map StepResult.chars))),
    ("status", some result.status.toJson.chars),
    ("duration", some (Text.numeral result.duration.toNat).toList),
    ("error", result.error.map stringText)]

def ScenarioResult.schema (reading : TimeReading) : Schema :=
  ⟨"TestResult", [
    .of "id" decodeString,
    .of "timestamp" (Time.ofJson? reading),
    .of "feature" decodeString,
    .of "scenario" decodeString,
    .of "steps" (decodeList StepResult.ofJson?),
    .of "status" Status.ofJson?,
    .of "duration" decodeUInt64,
    .of "error" (decodeOption decodeString)]⟩

/-- Decodes a result whose times are read in some way. -/
def ScenarioResult.ofJsonWith? (reading : TimeReading) (value : Value) :
    Except DecodeError ScenarioResult := do
  let members ← (schema reading).members value
  return {
    id := ← required members "id" decodeString
    timestamp := ← required members "timestamp" (Time.ofJson? reading)
    feature := ← required members "feature" decodeString
    scenario := ← required members "scenario" decodeString
    steps := ← required members "steps" (decodeList StepResult.ofJson?)
    status := ← required members "status" Status.ofJson?
    duration := ← required members "duration" decodeUInt64
    error := ← optional members "error" decodeString }

def ScenarioResult.ofJson? : Decoder ScenarioResult :=
  ofJsonWith? .written

end Gherkin

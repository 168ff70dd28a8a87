import Gherkin.Feature.Scenario
import Gherkin.Json.Decode

/-!
Contract: the JSON form of scenarios and what they consist of.

Owns: `toJson` and `ofJson?` for step kinds, keywords, tables, steps and
scenarios. An optional field is left out when it is absent.
-/

set_option autoImplicit false

namespace Gherkin

open Json

def StepKind.toJson (kind : StepKind) : Value :=
  .string kind.word

def StepKind.ofJson? : Decoder StepKind :=
  decodeEnum (StepKind.all.map fun kind => (kind.word, kind))

def Keyword.toJson (keyword : Keyword) : Value :=
  .string keyword.word

def Keyword.ofJson? : Decoder Keyword :=
  decodeEnum (Keyword.all.map fun keyword => (keyword.word, keyword))

def DataTable.toJson (table : DataTable) : Value :=
  .ofMembers [("rows", .array (table.rows.map fun row => .array (row.map .string)))]

def DataTable.decodeRows : Decoder (List (List String)) :=
  decodeList (decodeList decodeString)

def DataTable.schema : Schema :=
  ⟨"DataTable", [.of "rows" DataTable.decodeRows]⟩

def DataTable.ofJson? (value : Value) : Except DecodeError DataTable := do
  let members ← schema.members value
  return ⟨← required members "rows" decodeRows⟩

def Step.toJson (step : Step) : Value :=
  .ofPresent [
    ("kind", some step.kind.toJson),
    ("keyword", some step.keyword.toJson),
    ("text", some (.string step.text)),
    ("line", some (.int step.line.toNat)),
    ("doc_string", step.docString.map .string),
    ("data_table", step.dataTable.map DataTable.toJson)]

def Step.schema : Schema :=
  ⟨"Step", [
    .of "kind" StepKind.ofJson?,
    .of "keyword" Keyword.ofJson?,
    .of "text" decodeString,
    .of "line" decodeUInt32,
    .of "doc_string" (decodeOption decodeString),
    .of "data_table" (decodeOption DataTable.ofJson?)]⟩

def Step.ofJson? (value : Value) : Except DecodeError Step := do
  let members ← schema.members value
  return {
    kind := ← required members "kind" StepKind.ofJson?
    keyword := ← required members "keyword" Keyword.ofJson?
    text := ← required members "text" decodeString
    line := ← required members "line" decodeUInt32
    docString := ← optional members "doc_string" decodeString
    dataTable := ← optional members "data_table" DataTable.ofJson? }

def Scenario.toJson (scenario : Scenario) : Value :=
  .ofMembers [
    ("name", .string scenario.name),
    ("line", .int scenario.line.toNat),
    ("steps", .array (scenario.steps.map Step.toJson))]

def Scenario.schema : Schema :=
  ⟨"Scenario", [
    .of "name" decodeString,
    .of "line" decodeUInt32,
    .of "steps" (decodeList Step.ofJson?)]⟩

def Scenario.ofJson? (value : Value) : Except DecodeError Scenario := do
  let members ← schema.members value
  return {
    name := ← required members "name" decodeString
    line := ← required members "line" decodeUInt32
    steps := ← required members "steps" (decodeList Step.ofJson?) }

end Gherkin

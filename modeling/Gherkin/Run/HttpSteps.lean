import Gherkin.Run.Library

/-!
Contract: the built-in sentences about a JSON API.

Owns: what each of the twelve sentences does, and their order.

A step that fails leaves the variables, the headers and the response of the world as
they were.
-/

set_option autoImplicit false

namespace Gherkin.HttpSteps

open Http

/-- An argument as a step needs it. -/
def asked {α : Type} (argument : Except ArgumentError α) : Except StepError α :=
  argument.mapError .argument

/-! Given -/

def setHeader : Action World := fun world arguments =>
  match asked (arguments.text 0), asked (arguments.text 1) with
  | .error e, _ => (.failed e, world)
  | .ok _, .error e => (.failed e, world)
  | .ok name, .ok value => (.passed, world.setHeader name value)

/-! When -/

/-- Sends a request; the step fails if no response is kept. -/
def send (world : World) (method : Method) (path : String) (body : Option Json.Value) :
    Outcome × World :=
  let (result, world) := world.send method path body
  (.ofExcept (result.mapError .transport), world)

def sendWithoutBody (method : Method) : Action World := fun world arguments =>
  match asked (arguments.text 0) with
  | .error e => (.failed e, world)
  | .ok path => send world method path none

/-- The value that the doc string denotes. -/
def bodyOf (arguments : Arguments) : Except StepError Json.Value :=
  match asked arguments.docString with
  | .error e => .error e
  | .ok text => (Json.readDocument text).mapError fun fault => .json fault text

/-- The doc string is read before the path. -/
def sendWithBody (method : Method) : Action World := fun world arguments =>
  match bodyOf arguments, asked (arguments.text 0) with
  | .error e, _ => (.failed e, world)
  | .ok _, .error e => (.failed e, world)
  | .ok body, .ok path => send world method path (some body)

/-- The method that a word names in any letter case. -/
def methodOf (word : String) : Except StepError Method :=
  match Method.ofText? (upperCase word) with
  | some method => .ok method
  | none => .error (.invalidMethod word)

def sendAny : Action World := fun world arguments =>
  match (asked (arguments.text 0)).bind methodOf, asked (arguments.text 1) with
  | .error e, _ => (.failed e, world)
  | .ok _, .error e => (.failed e, world)
  | .ok method, .ok path => send world method path none

/-! Then -/

/-- A step that only looks at the world. -/
def check (judge : World → Arguments → Except StepError Unit) : Action World :=
  fun world arguments => (.ofExcept (judge world arguments), world)

/-- A string as it is, and any other value as JSON. -/
def render : Json.Value → String
  | .string s => s
  | other => other.render

/-- Whether the member of the data under a name is rendered as expected. -/
def checkField (data : Json.Value) (name expected : String) : Except StepError Unit :=
  let actual := (data.member? name).map render
  if actual = some expected then .ok ()
  else .error (.assertion ("Expected " ++ name ++ " to be " ++ expected ++ " but got " ++
    actual.getD "undefined"))

/-- Checks fields in order, up to the first that is not as expected. -/
def checkFields (data : Json.Value) : List (String × String) → Except StepError Unit
  | [] => .ok ()
  | (name, expected) :: fields =>
      match checkField data name expected with
      | .error e => .error e
      | .ok () => checkFields data fields

def checkStatus (world : World) (arguments : Arguments) : Except StepError Unit := do
  let expected ← asked (arguments.int 0)
  let response ← world.lastResponse
  if (response.status : Int) = expected then return ()
  else throw (.assertion ("Expected status code " ++ Text.signedNumeral expected ++
    " but got " ++ Text.numeral response.status))

def checkData (world : World) (arguments : Arguments) : Except StepError Unit := do
  let response ← world.lastResponse
  let table ← asked arguments.table
  checkFields response.data table.bindings.toList

def checkValue (world : World) (arguments : Arguments) : Except StepError Unit := do
  let response ← world.lastResponse
  let name ← asked (arguments.text 0)
  let expected ← asked (arguments.text 1)
  checkField response.data name expected

def checkPresence (world : World) (arguments : Arguments) : Except StepError Unit := do
  let name ← asked (arguments.text 0)
  let response ← world.lastResponse
  match response.field? name with
  | some _ => return ()
  | none => throw (.assertion ("Expected response to contain " ++ name))

def checkHeader (world : World) (arguments : Arguments) : Except StepError Unit := do
  let name ← asked (arguments.text 0)
  let expected ← asked (arguments.text 1)
  let response ← world.lastResponse
  let actual := response.header? name
  if actual = some expected then return ()
  else throw (.assertion ("Expected header " ++ name ++ " to be " ++ expected ++
    " but got " ++ actual.getD "undefined"))

/-! The sentences -/

/-- The sentences in the order of their registration. The sentence about a field with
a value comes before the one about a field, and the sentences for two methods before
the one for any. -/
def entries : List (Entry (Action World)) :=
  [
    ⟨.context, "I set header {string} to {string}", setHeader⟩,
    ⟨.action, "I send a GET request to {string}", sendWithoutBody .get⟩,
    ⟨.action, "I send a POST request to {string} with:", sendWithBody .post⟩,
    ⟨.action, "I send a PUT request to {string} with:", sendWithBody .put⟩,
    ⟨.action, "I send a PATCH request to {string} with:", sendWithBody .patch⟩,
    ⟨.action, "I send a DELETE request to {string}", sendWithoutBody .delete⟩,
    ⟨.action, "I send a {word} request to {string}", sendAny⟩,
    ⟨.outcome, "the response status code should be {int}", check checkStatus⟩,
    ⟨.outcome, "the response should have the following data:", check checkData⟩,
    ⟨.outcome, "the response should contain {string} with value {string}",
      check checkValue⟩,
    ⟨.outcome, "the response should contain {string}", check checkPresence⟩,
    ⟨.outcome, "the response header {string} should be {string}", check checkHeader⟩
  ]

def library : StepLibrary (Action World) :=
  .ofList entries

/-- The same in a world that has more to it. -/
def libraryOnFirst {S : Type} : StepLibrary (Action (World × S)) :=
  .ofList (entries.map fun entry => ⟨entry.kind, entry.pattern, entry.action.onFirst⟩)

end Gherkin.HttpSteps

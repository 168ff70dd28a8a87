import Gherkin.Argument
import Gherkin.Feature.Keyword
import Gherkin.World

/-!
Contract: what steps do, and what can come of it.

Owns: the errors of steps with their wording, the outcome of a call, and the type
of what a definition does.
-/

set_option autoImplicit false

namespace Gherkin

inductive StepError where
  | noMatch (kind : StepKind) (text : String)
  | noResponse
  | assertion (text : String)
  | argument (error : ArgumentError)
  | transport (error : Http.SendError)
  | json (fault : Json.Fault) (text : String)
  | invalidMethod (word : String)
  | panicked (payload : Option String)

def StepError.message : StepError → String
  | .noMatch kind text => "No matching step definition found for: " ++ kind.word ++ " " ++ text
  | .noResponse => "No response received"
  | .assertion text => text
  | .argument error => error.message
  | .transport error => "Request failed: " ++ error.message
  | .json fault text => "Invalid JSON body: " ++ fault.message text
  | .invalidMethod word => "Invalid HTTP method: " ++ word
  | .panicked payload => "Step panicked: " ++ payload.getD "unknown panic"

/-- What a call came to. A panic may carry a text. -/
inductive Outcome where
  | passed
  | failed (error : StepError)
  | panicked (payload : Option String)

/-- The error of a step with this outcome, if it failed. -/
def Outcome.error? : Outcome → Option StepError
  | .passed => none
  | .failed error => some error
  | .panicked payload => some (.panicked payload)

def Outcome.ofExcept {α : Type} : Except StepError α → Outcome
  | .ok _ => .passed
  | .error error => .failed error

/-- What the steps of a definition do to a world of type `W`. -/
abbrev Action (W : Type) :=
  W → Arguments → Outcome × W

/-- The same in a world that has more to it. -/
def Action.onFirst {W S : Type} (action : Action W) : Action (W × S) :=
  fun (world, more) arguments =>
    let (outcome, world) := action world arguments
    (outcome, (world, more))

/-- The last response, which a step may ask for only after one was received. -/
def World.lastResponse (world : World) : Except StepError Http.Response :=
  match world.response with
  | some response => .ok response
  | none => .error .noResponse

end Gherkin

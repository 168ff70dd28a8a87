import Gherkin.Environment
import Gherkin.Http.Message

/-!
Contract: the state that the steps of a run share.

Owns: the variables, the headers set so far, the last response, and the requests
sent; setting a header, resolving a path, and sending a request.
-/

set_option autoImplicit false

namespace Gherkin

open Http

/-- The state of a conversation with a server. -/
structure World where
  environment : Environment
  transport : Transport
  /-- The headers that go out with every further request. -/
  headers : Dictionary String := ∅
  response : Option Response := none
  /-- The requests handed to the transport, in order. -/
  sent : List Request := []

namespace World

def start (environment : Environment) (transport : Transport) : World :=
  { environment, transport }

def baseUrl (world : World) : String :=
  world.environment.baseUrl

/-- Sets a header, in the place of an earlier one of exactly that name. -/
def setHeader (world : World) (name value : String) : World :=
  { world with headers := world.headers.insert name value }

/-- A path that is itself the address of something. -/
def isAbsolute (path : List Char) : Bool :=
  (Text.after? "http://" path).isSome || (Text.after? "https://" path).isSome

/-- The address that a path stands for under a base address. Where the base ends in
slashes and the path starts with one, only the latter stays. -/
def resolveAt (base path : List Char) : List Char :=
  if isAbsolute path then path
  else if base.getLast? = some '/' && path.head? = some '/' then
    Text.dropEndWhile (· == '/') base ++ path
  else base ++ path

def urlFor (world : World) (path : String) : String :=
  String.ofList (resolveAt world.baseUrl.toList path.toList)

/-- Sends a request and keeps the response, whatever its status. When no response
arrives whole, the last one stays. -/
def send (world : World) (method : Method) (path : String) (body : Option Json.Value) :
    Except SendError Response × World :=
  match Request.build world.transport.client method (world.urlFor path) world.headers body with
  | .error e => (.error e, world)
  | .ok request =>
      let world := { world with sent := world.sent ++ [request] }
      match world.transport.answer request with
      | .unanswered => (.error (.unanswered request.url), world)
      | .brokenOff _ _ => (.error (.brokenOff request.url), world)
      | .delivered raw =>
          let response := Response.ofRaw raw
          (.ok response, { world with response := some response })

end World

end Gherkin

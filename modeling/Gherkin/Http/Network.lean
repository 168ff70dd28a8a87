import Gherkin.Http.Address
import Gherkin.Http.Message

/-!
Contract: networks that answer in a known way, to run scenarios against.

Owns: the network that nothing answers from, and one with fixed routes, both behind the
plain client.
-/

set_option autoImplicit false

namespace Gherkin.Http

/-- What a route answers with, besides the status and the headers. -/
inductive Route.Body where
  | bytes (content : List UInt8)
  | echo
deriving DecidableEq, Repr

inductive Route.Fault where
  | drop
  | truncate
deriving DecidableEq, Repr

/-- An answer to requests of one method and address; `none` stands for any. -/
structure Route where
  method : Option String
  url : Option String
  status : Nat
  headers : List (String × String)
  body : Route.Body
  fault : Option Route.Fault
deriving DecidableEq, Repr

namespace Route

def fits (route : Route) (request : Request) : Bool :=
  route.method.all (· == request.method.name) && route.url.all (· == request.url.target)

def notFound : Route where
  method := none
  url := none
  status := 404
  headers := [("content-type", "application/json")]
  body := .bytes "\x7b\"error\":\"not found\"\x7d".toUTF8.toList
  fault := none

def bodyFor (route : Route) (request : Request) : List UInt8 :=
  match route.body with
  | .bytes content => content
  | .echo => request.body.toUTF8.toList

/-- The statuses whose responses have no body, not even an empty one. -/
def isBodiless (status : Nat) : Bool :=
  status = 204 || status = 304

/-- The headers of the response, with the length of the body. -/
def headersFor (route : Route) (request : Request) : List (String × String) :=
  if isBodiless route.status then route.headers
  else route.headers ++ [("content-length", Text.numeral (route.bodyFor request).length)]

/-- The response to a request. With the method `HEAD` only the body itself is left out. -/
def respond (route : Route) (request : Request) : RawResponse :=
  ⟨route.status, route.headersFor request,
    if isBodiless route.status || request.method.name = "HEAD" then []
    else route.bodyFor request⟩

end Route

/-- The plain client with some answers to its requests. -/
def Transport.plain (answer : Request → Exchange) : Transport :=
  ⟨.plain, answer⟩

inductive Network where
  | offline
  /-- Plain requests are answered by the first route that fits; nothing answers the
  encrypted ones. -/
  | routed (routes : List Route)

namespace Network

/-- Whether a request arrives at something that could answer it. -/
def receives : Network → Request → Bool
  | .offline, _ => false
  | .routed _, request => request.url.scheme == "http"

def routeFor (routes : List Route) (request : Request) : Route :=
  (routes.find? (·.fits request)).getD .notFound

def answer : Network → Request → Exchange
  | .offline, _ => .unanswered
  | .routed routes, request =>
      if request.url.scheme == "http" then
        let route := routeFor routes request
        match route.fault with
        | some .drop => .unanswered
        | some .truncate => .brokenOff route.status (route.headersFor request)
        | none => .delivered (route.respond request)
      else .unanswered

def transport (network : Network) : Transport :=
  .plain network.answer

end Network

end Gherkin.Http

import Gherkin.Http.Client
import Gherkin.Http.Method
import Gherkin.Json.Reader
import Gherkin.Text.Blank
import Gherkin.Text.Bytes

/-!
Contract: requests as they are sent, and responses as they arrive and are kept.

Owns: what makes a request out of an address, headers and a body, why there may be
none, what may come of a request, and what is kept of a response.
Does not own: how addresses are read (`Gherkin.Http.Client`), and what answers a request
(`Gherkin.Http.Network`).
-/

set_option autoImplicit false

namespace Gherkin.Http

/-- A request as it goes out, with the text of the address that it was made for. Header
names are in lower case and in order; the body is JSON, or empty. -/
structure Request where
  method : Method
  address : String
  url : Url
  headers : List (String × String)
  body : String
deriving DecidableEq

inductive SendError where
  /-- The address is not absolute, or a header is not well-formed. -/
  | malformed
  /-- The address leads to no host, or is one that requests cannot go to. -/
  | unreachable (url : Url)
  | unanswered (url : Url)
  | brokenOff (url : Url)
deriving DecidableEq

def SendError.message : SendError → String
  | .malformed => "builder error"
  | .unreachable url => "builder error for url (" ++ url.render ++ ")"
  | .unanswered url => "error sending request for url (" ++ url.render ++ ")"
  | .brokenOff url => "error decoding response body for url (" ++ url.render ++ ")"

namespace Request

/-- A header can be sent if its name and its value are well-formed and the length of its
name fits into sixteen bits. -/
def isHeader (header : String × String) : Bool :=
  isName header.1.toList && header.1.length < 0x10000 && isHeaderValue header.2.toList

/-- The headers that are asked for: the one of the credentials in the address, and those
set, with their names in lower case. -/
def given (credentials : Option Credentials) (headers : Dictionary String) :
    List (String × String) :=
  (credentials.map Credentials.header).toList ++
    headers.toList.map fun header => (lowerCase header.1, header.2)

/-- A header that is added unless there is one of its name. -/
def defaultHeader (headers : List (String × String)) (name value : String) :
    List (String × String) :=
  if headers.any (·.1 == name) then [] else [(name, value)]

/-- The headers that go out: those asked for, and defaults for what is accepted and, if
there is a body, for its type. Headers of one name stay in the order given. -/
def headersFor (credentials : Option Credentials) (headers : Dictionary String)
    (hasBody : Bool) : List (String × String) :=
  let asked := given credentials headers
  let accept := defaultHeader asked "accept" "*/*"
  let contentType := if hasBody then defaultHeader asked "content-type" "application/json" else []
  (asked ++ accept ++ contentType).mergeSort fun a b => a.1 ≤ b.1

/-- The request to an address, if there is one. A missing authority is found before an
ill-formed header, and that before an address that the client cannot send to. -/
def build (client : Client) (method : Method) (address : String) (headers : Dictionary String)
    (body : Option Json.Value) : Except SendError Request :=
  match client.readAddress? address with
  | none => .error .malformed
  | some ⟨url, credentials⟩ =>
      if url.authority.isNone then .error (.unreachable url)
      else if !headers.toList.all isHeader then .error .malformed
      else if !client.reaches url then .error (.unreachable url)
      else .ok {
        method
        address
        url
        headers := headersFor credentials headers body.isSome
        body := (body.map Json.Value.render).getD "" }

end Request

structure RawResponse where
  status : Nat
  headers : List (String × String)
  body : List UInt8
deriving DecidableEq, Repr

/-- What comes of a request: no answer, one that breaks off after the status and the
headers have arrived, or a whole one. -/
inductive Exchange where
  | unanswered
  | brokenOff (status : Nat) (headers : List (String × String))
  | delivered (response : RawResponse)
deriving DecidableEq, Repr

/-- A client, and what comes of each request that it sends. -/
structure Transport where
  client : Client
  answer : Request → Exchange

/-- A response as it is kept. Header names are in lower case. -/
structure Response where
  status : Nat
  data : Json.Value
  headers : Dictionary String

namespace Response

/-- A header value that can be read: visible ASCII characters, spaces and tabs. -/
def isReadable (value : String) : Bool :=
  value.toList.all fun c => c == '\t' || (' ' ≤ c && c ≤ '~')

/-- Adds a header to those collected. A further value of a name is appended to the
ones before; a value that cannot be read is passed over. -/
def collect (headers : Dictionary String) (header : String × String) : Dictionary String :=
  if isReadable header.2 then
    let name := lowerCase header.1
    match headers.get? name with
    | none => headers.insert name header.2
    | some values => headers.insert name (values ++ ", " ++ header.2)
  else headers

/-- The data of a body: nothing if it is blank, the value if it is JSON, and its text
otherwise. -/
def dataOf (body : String) : Json.Value :=
  if body.toList.all Text.isBlank then .null
  else match Json.readDocument body with
    | .ok value => value
    | .error _ => .string body

def ofRaw (raw : RawResponse) : Response where
  status := raw.status
  data := dataOf (Text.decodeBytes raw.body)
  headers := raw.headers.foldl collect ∅

/-- The value of a header. Letter case plays no part in its name. -/
def header? (response : Response) (name : String) : Option String :=
  response.headers.get? (lowerCase name)

/-- A member of the data, if that is an object. -/
def field? (response : Response) (name : String) : Option Json.Value :=
  response.data.member? name

end Response

end Gherkin.Http

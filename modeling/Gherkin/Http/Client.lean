import Gherkin.Text.Base64

/-!
Contract: what a client makes of the text of an address.

Owns: the parts of an address, the user and the password that its text may name, the header
in which these go out, and clients as those who read addresses.
Does not own: how a client reads addresses (`Gherkin.Http.Address` has the plain one).
-/

set_option autoImplicit false

namespace Gherkin.Http

/-- An absolute address: scheme, authority if it leads to one, path and query, and
fragment with its mark. Without an authority, all that follows the colon of the scheme
is path. -/
structure Url where
  scheme : String
  authority : Option String
  pathAndQuery : String
  fragment : String
deriving DecidableEq, Repr

namespace Url

/-- The address as it is sent: without its fragment. -/
def target (url : Url) : String :=
  url.scheme ++ ":" ++ (url.authority.elim "" fun authority => "//" ++ authority) ++
    url.pathAndQuery

def render (url : Url) : String :=
  url.target ++ url.fragment

end Url

/-- The user whom the text of an address names, and the password if there is one. -/
structure Credentials where
  user : String
  password : Option String
deriving DecidableEq, Repr

/-- The header in which credentials go out. -/
def Credentials.header (credentials : Credentials) : String × String :=
  ("authorization",
    "Basic " ++ Text.base64 (credentials.user ++ ":" ++ credentials.password.getD ""))

/-- What the text of an address stands for. The credentials are no part of the address that
is sent to. -/
structure Address where
  url : Url
  credentials : Option Credentials
deriving DecidableEq, Repr

/-- A client, as far as addresses go: which texts it can read and what they stand for, and
to which addresses it can send. -/
structure Client where
  readAddress? : String → Option Address
  reaches : Url → Bool

namespace Client

def url? (client : Client) (text : String) : Option Url :=
  (client.readAddress? text).map Address.url

def credentials? (client : Client) (text : String) : Option Credentials :=
  (client.readAddress? text).bind Address.credentials

/-- Requests go to addresses that lead to some authority, if the client can send there. -/
def canSend (client : Client) (url : Url) : Bool :=
  url.authority.isSome && client.reaches url

end Client

end Gherkin.Http

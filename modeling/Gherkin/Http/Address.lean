import Gherkin.Http.Client
import Gherkin.Http.Host
import Gherkin.Http.Method
import Gherkin.Text.Blank

/-!
Contract: how a plain client reads addresses.

Owns: which texts are absolute addresses, and their normal form, in which the scheme
is in lower case, a number that goes without saying is left out, a path has no segments of
dots, an address of the web has a path, and some characters are written as bytes; the user
and the password in an address; and which addresses can be sent to.
Does not own: hosts (`Gherkin.Http.Host`), what goes out with the credentials
(`Gherkin.Http.Message`), and the joining of a base address and a path (`Gherkin.World`).
-/

set_option autoImplicit false

namespace Gherkin.Http

/-! Characters that are kept -/

def isVisible (c : Char) : Bool :=
  '!' ≤ c && c ≤ '~'

def isFragmentChar (c : Char) : Bool :=
  isVisible c && c ∉ ['"', '<', '>', '\x60']

def isPathChar (c : Char) : Bool :=
  isFragmentChar c && c ∉ ['#', '?', '\x7b', '\x7d']

def isUserChar (c : Char) : Bool :=
  isPathChar c && c ∉ ['/', ':', ';', '=', '@', '[', '\\', ']', '^', '|']

def isQueryChar (c : Char) : Bool :=
  isVisible c && c ∉ ['"', '#', '<', '>']

def isWebQueryChar (c : Char) : Bool :=
  isQueryChar c && c ≠ '\''

namespace Credentials

/-- The user and the password as they are written, with a colon between them. No password
is the same as an empty one. -/
def split (info : List Char) : List Char × Option (List Char) :=
  match Text.cutAt? ':' info with
  | none | some (_, []) => (info.takeWhile (· != ':'), none)
  | some (user, password) => (user, some password)

/-- The credentials that stand in front of a host. There are none without a user and a
password, or if what is written for the user is no text. -/
def ofInfo? (info : List Char) : Option Credentials :=
  let (user, password) := split info
  (Text.percentDecoded? user).bind fun user =>
    let password := password.bind Text.percentDecoded?
    if user.isEmpty && password.isNone then none
    else some ⟨String.ofList user, password.map String.ofList⟩

/-- What stays in front of the host when there are no credentials. -/
def leftover (info : List Char) : List Char :=
  let (user, password) := split info
  let kept := Text.percentEncoded isUserChar user ++
    password.elim [] fun password => ':' :: Text.percentEncoded isUserChar password
  if kept.isEmpty then [] else kept ++ ['@']

end Credentials

/-- A host, and the number behind it if it needs one. -/
structure Authority where
  host : Host
  number : Option Nat
deriving DecidableEq, Repr

namespace Authority

/-- The number behind a host: a colon and decimal digits for at most sixteen bits. The
digits may be missing, and the number that the scheme has anyway is not kept. -/
def readNumber? (usual : Option Nat) : List Char → Option (Option Nat)
  | [] => some none
  | [':'] => some none
  | ':' :: digits =>
      ((Text.numberIn? 10 digits).filter (· < 0x10000)).map fun number =>
        if some number = usual then none else some number
  | _ => none

/-- The host and the number that a text is, given how a host without brackets is read. -/
def ofText? (readHost? : List Char → Option Host) (usual : Option Nat) :
    List Char → Option Authority
  | '[' :: bracketed =>
      (Text.cutAt? ']' bracketed).bind fun (inside, rest) =>
        (Host.ofBracketed? inside).bind fun host => (readNumber? usual rest).map (⟨host, ·⟩)
  | plain =>
      (readHost? (plain.takeWhile (· != ':'))).bind fun host =>
        (readNumber? usual (plain.dropWhile (· != ':'))).map (⟨host, ·⟩)

def render (authority : Authority) : String :=
  authority.host.render ++ (authority.number.elim "" fun number => ":" ++ Text.numeral number)

/-- The authority in normal form, and the credentials that stand in front of it, behind
which there is an `@`. -/
def normal? (readHost? : List Char → Option Host) (usual : Option Nat) (cs : List Char) :
    Option (String × Option Credentials) :=
  let host := (cs.reverse.takeWhile (· != '@')).reverse
  let info := cs.take (cs.length - host.length - 1)
  (ofText? readHost? usual host).map fun authority =>
    match Credentials.ofInfo? info with
    | some credentials => (authority.render, some credentials)
    | none => (String.ofList (Credentials.leftover info) ++ authority.render, none)

end Authority

/-! Paths -/

/-- Whether a segment is so many dots. Each may be written as a byte. -/
def isDots : Nat → List Char → Bool
  | 0, [] => true
  | count + 1, '.' :: cs => isDots count cs
  | count + 1, '%' :: '2' :: e :: cs => (e == 'e' || e == 'E') && isDots count cs
  | _, _ => false

/-- The segments of a path without those of dots, behind some that are in reverse order. One
dot stays in its place, two take back the segment before, and dots at the end leave an
empty segment. -/
def undotted (before : List (List Char)) : List (List Char) → List (List Char)
  | [] => before.reverse
  | segment :: segments =>
      if isDots 1 segment || isDots 2 segment then
        let left := if isDots 2 segment then before.tail else before
        undotted (if segments.isEmpty then [] :: left else left) segments
      else undotted (segment :: before) segments

/-- The normal form of a path: it is empty, or it starts with a slash. -/
def normalPath : List Char → List Char
  | [] => []
  | _ :: cs =>
      '/' :: ['/'].intercalate
        ((undotted [] (cs.splitOn '/')).map (Text.percentEncoded isPathChar))

namespace Address

/-- A scheme starts with a letter and goes on with letters, digits and three marks. -/
def isScheme : List Char → Bool
  | [] => false
  | c :: cs => c.isAlpha && cs.all fun c => c.isAlphanum || c ∈ ['+', '-', '.']

/-- The number that hosts have under a scheme unless the address has another. The
schemes of the web are those with such a number. -/
def usualNumber? : String → Option Nat
  | "http" | "ws" => some 80
  | "https" | "wss" => some 443
  | "ftp" => some 21
  | _ => none

/-- In addresses of the web, slashes may lean to either side. -/
def isWebSlash (c : Char) : Bool :=
  c == '/' || c == '\\'

def endsAuthority (c : Char) : Bool :=
  c == '/' || c == '?' || c == '#'

/-- An address of which the path has been brought into some form, with its query and its
fragment from the text behind the path. -/
def ofParts (scheme : String) (authority : Option (String × Option Credentials))
    (path : List Char → List Char) (isQuery : Char → Bool) (rest : List Char) : Address :=
  let target := rest.takeWhile (· != '#')
  let query := target.dropWhile (· != '?')
  { url := {
      scheme
      authority := authority.map Prod.fst
      pathAndQuery :=
        String.ofList (path (target.takeWhile (· != '?')) ++ Text.percentEncoded isQuery query)
      fragment :=
        match rest.dropWhile (· != '#') with
        | [] => ""
        | mark :: fragment => String.ofList (mark :: Text.percentEncoded isFragmentChar fragment) }
    credentials := authority.bind Prod.snd }

/-- The path in an address of the web: a slash at least. -/
def webPath (cs : List Char) : List Char :=
  if cs.isEmpty then ['/']
  else normalPath (cs.map fun c => if isWebSlash c then '/' else c)

/-- What follows the colon in an address without an authority: a path, which may have two
slashes in front of it, or anything else. -/
def barePath : List Char → List Char
  | '/' :: '/' :: cs => '/' :: '/' :: normalPath cs
  | '/' :: cs =>
      let path := normalPath ('/' :: cs)
      if (Text.after? "//" path).isSome then '/' :: '.' :: path else path
  | cs => Text.percentEncoded (fun c => ' ' ≤ c && c ≤ '~') cs

/-- The address of the web that has a scheme and goes on with a text. Any number of
slashes may precede the authority. -/
def ofWeb? (scheme : String) (usual : Nat) (cs : List Char) : Option Address :=
  let cs := cs.dropWhile isWebSlash
  let ends (c : Char) : Bool := endsAuthority c || isWebSlash c
  (Authority.normal? Host.ofWebText? (some usual) (cs.takeWhile (!ends ·))).map fun authority =>
    ofParts scheme (some authority) webPath isWebQueryChar (cs.dropWhile (!ends ·))

/-- The address of another kind that has a scheme and goes on with a text. It leads to
an authority only if that follows two slashes. -/
def ofOther? (scheme : String) (cs : List Char) : Option Address :=
  let behind := (Text.after? "//" cs).getD []
  let authority := behind.takeWhile (!endsAuthority ·)
  if authority.isEmpty then some (ofParts scheme none barePath isQueryChar cs)
  else (Authority.normal? Host.ofPlainText? none authority).map fun authority =>
    ofParts scheme (some authority) normalPath isQueryChar (behind.dropWhile (!endsAuthority ·))

/-- What counts of the text of an address: not the spaces and controls around it, and
neither tabs nor line breaks. -/
def essential (cs : List Char) : List Char :=
  (Text.dropEndWhile (· ≤ ' ') (cs.dropWhile (· ≤ ' '))).filter (· ∉ ['\t', '\n', '\r'])

def ofText? (text : String) : Option Address :=
  (Text.cutAt? ':' (essential text.toList)).bind fun (scheme, rest) =>
    if isScheme scheme then
      let scheme := lowerCase (String.ofList scheme)
      match usualNumber? scheme with
      | some usual => ofWeb? scheme usual rest
      | none => ofOther? scheme rest
    else none

end Address

/-- Whether requests can go to an address: it has one of two schemes and is not too long,
and four marks that may stand in a name are not in its authority. -/
def Url.isReachable (url : Url) : Bool :=
  (url.scheme == "http" || url.scheme == "https") && url.render.utf8ByteSize ≤ 65534 &&
    url.authority.all (·.toList.all (· ∉ ['"', '\x60', '\x7b', '\x7d']))

/-- The client that reads addresses like this. -/
def Client.plain : Client where
  readAddress? := Address.ofText?
  reaches := Url.isReachable

end Gherkin.Http

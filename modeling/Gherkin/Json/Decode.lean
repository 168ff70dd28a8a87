import Gherkin.Json.Fault
import Gherkin.Text.Pieces

/-!
Contract: records, enumerations and numbers read from JSON values.

Owns: why a value does not decode, the wording of each reason, and the decoders
from which those of the domain's records are made.
Does not own: the records themselves (`Gherkin.Feature.Json`,
`Gherkin.Report.Json`).

A record decodes from an object, whose unknown members are passed over, or from an
array of its fields in order. Fields are checked in the order in which the value
holds them; only then is the first missing one looked for, in the record's order.
-/

set_option autoImplicit false

namespace Gherkin.Json

inductive DecodeError where
  | missingField (name : String)
  | unknownName (found : String) (known : List String)
  | wrongType (found : Value) (expected : String)
  | outOfRange (n : Int) (expected : String)
  | severalNames
  | wrongLength (length : Nat) (expected : String)
  | badTime (reason : String)

def oneOf : List String → String
  | [] => "nothing"
  | [a] => "`" ++ a ++ "`"
  | [a, b] => "`" ++ a ++ "` or `" ++ b ++ "`"
  | names => "one of " ++ Text.join ", " (names.map fun name => "`" ++ name ++ "`")

def DecodeError.message : DecodeError → String
  | .missingField name => "missing field `" ++ name ++ "`"
  | .unknownName found known =>
      "unknown variant `" ++ found ++ "`, expected " ++ oneOf known
  | .wrongType found expected => "invalid type: " ++ found.shape ++ ", expected " ++ expected
  | .outOfRange n expected =>
      "invalid value: integer `" ++ Text.signedNumeral n ++ "`, expected " ++ expected
  | .severalNames => "invalid value: map, expected map with a single key"
  | .wrongLength length expected =>
      "invalid length " ++ Text.numeral length ++ ", expected " ++ expected
  | .badTime reason => reason

/-- A decoder gives the record that a value stands for, or says why there is none. -/
abbrev Decoder (α : Type) :=
  Value → Except DecodeError α

def decodeString : Decoder String
  | .string s => .ok s
  | other => .error (.wrongType other "a string")

/-- A whole number below a bound; `title` names the numbers below it. -/
def decodeBounded (title : String) (bound : Nat) : Decoder Nat
  | .int n =>
      if 0 ≤ n ∧ n < bound then .ok n.toNat else .error (.outOfRange n title)
  | other => .error (.wrongType other title)

def decodeUInt32 (value : Value) : Except DecodeError UInt32 :=
  (decodeBounded "u32" 0x100000000 value).map UInt32.ofNat

def decodeUInt64 (value : Value) : Except DecodeError UInt64 :=
  (decodeBounded "u64" 0x10000000000000000 value).map UInt64.ofNat

/-- Decodes items in order, up to the first that does not decode. -/
def decodeItems {α : Type} (item : Decoder α) : List Value → Except DecodeError (List α)
  | [] => .ok []
  | value :: values =>
      match item value with
      | .error e => .error e
      | .ok a => (decodeItems item values).map (a :: ·)

def decodeList {α : Type} (item : Decoder α) : Decoder (List α)
  | .array items => decodeItems item items
  | other => .error (.wrongType other "a sequence")

/-- Decodes members in order, up to the first that does not decode. -/
def decodeMembers {α : Type} (item : Decoder α) :
    List (String × Value) → Except DecodeError (List (String × α))
  | [] => .ok []
  | (name, value) :: members =>
      match item value with
      | .error e => .error e
      | .ok a => (decodeMembers item members).map ((name, a) :: ·)

def decodeDictionary {α : Type} (item : Decoder α) : Decoder (Dictionary α)
  | .object members => (decodeMembers item members).map .ofList
  | other => .error (.wrongType other "a map")

/-- The entry under a name that has to be one of those known. -/
def decodeName {α : Type} (known : List (String × α)) (name : String) : Except DecodeError α :=
  match known.lookup name with
  | some a => .ok a
  | none => .error (.unknownName name (known.map Prod.fst))

/-- A member of an enumeration: its name, or an object that holds nothing but `null`
under its name. -/
def decodeEnum {α : Type} (known : List (String × α)) : Decoder α
  | .string name => decodeName known name
  | .object [(name, content)] =>
      match decodeName known name, content with
      | .error e, _ => .error e
      | .ok a, .null => .ok a
      | .ok _, other => .error (.wrongType other "unit")
  | .object _ => .error .severalNames
  | other => .error (.wrongType other "string or map")

/-- A field of a record: its name, and the check that a value of it passes. -/
structure Field where
  name : String
  check : Value → Except DecodeError Unit

def Field.of {α : Type} (name : String) (decode : Decoder α) : Field :=
  ⟨name, fun value => (decode value).map fun _ => ()⟩

/-- A field that may be missing, or `null` instead. -/
def decodeOption {α : Type} (decode : Decoder α) : Decoder (Option α)
  | .null => .ok none
  | value => (decode value).map some

/-- The name and fields of a record, in its own order. -/
structure Schema where
  title : String
  fields : List Field

namespace Schema

def check (schema : Schema) : List (String × Value) → Except DecodeError Unit
  | [] => .ok ()
  | (name, value) :: members =>
      match schema.fields.find? (·.name == name) with
      | none => schema.check members
      | some field =>
          match field.check value with
          | .error e => .error e
          | .ok () => schema.check members

def size (schema : Schema) : String :=
  let count := schema.fields.length
  "struct " ++ schema.title ++ " with " ++ Text.numeral count ++
    (if count = 1 then " element" else " elements")

/-- The checked members of a value that is to be such a record. -/
def members (schema : Schema) : Decoder (List (String × Value))
  | .object members => (schema.check members).map fun () => members
  | .array items =>
      let members := (schema.fields.map Field.name).zip items
      match schema.check members with
      | .error e => .error e
      | .ok () =>
          if items.length < schema.fields.length then
            .error (.wrongLength items.length schema.size)
          else if schema.fields.length < items.length then
            .error (.wrongLength items.length "fewer elements in array")
          else .ok members
  | other => .error (.wrongType other ("struct " ++ schema.title))

end Schema

def required {α : Type} (members : List (String × Value)) (name : String) (decode : Decoder α) :
    Except DecodeError α :=
  match members.lookup name with
  | none => .error (.missingField name)
  | some value => decode value

def optional {α : Type} (members : List (String × Value)) (name : String) (decode : Decoder α) :
    Except DecodeError (Option α) :=
  match members.lookup name with
  | none => .ok none
  | some value => decodeOption decode value

end Gherkin.Json

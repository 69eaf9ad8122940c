import KnxIoT.Cbor.Reader
import KnxIoT.Json.Printer
/-!
# Payloads

What a caller sees of a payload.  Payloads come as bytes with a declared content format; callers get
text.  A CBOR payload becomes compact JSON, link-format and JSON payloads are passed on as text, and
anything else is an error with an empty text.
-/

namespace KnxIoT

/-- The declared format of a payload, known by its CoAP content-format number. -/
inductive ContentFormat where
  | linkFormat
  | json
  | cbor
  | other (number : UInt16)
  deriving DecidableEq, Repr

namespace ContentFormat

/-- The format with the given number. -/
def ofNumber (n : UInt16) : ContentFormat :=
  if n = 40 then .linkFormat else if n = 50 then .json else if n = 60 then .cbor else .other n

/-- The number of a format. -/
def number : ContentFormat → UInt16
  | .linkFormat => 40
  | .json => 50
  | .cbor => 60
  | .other n => n

/-- The word for a format. -/
def name : ContentFormat → String
  | .linkFormat => "link_format"
  | .json => "json"
  | .cbor => "cbor"
  | .other _ => "other"

end ContentFormat

/-- The format of a text that is handed to a caller. -/
inductive TextFormat where
  | json
  | linkFormat
  | error
  deriving DecidableEq, Repr

/-- All text formats. -/
def TextFormat.all : List TextFormat := [.json, .linkFormat, .error]

/-- The name a caller sees. -/
def TextFormat.name : TextFormat → String
  | .json => "json"
  | .linkFormat => "link_format"
  | .error => "error"

/-- A payload as text. -/
structure Rendered where
  format : TextFormat
  text : String
  deriving DecidableEq, Repr

namespace Payload

/-- The result for what cannot be rendered. -/
def failed : Rendered := ⟨.error, ""⟩

/-- The JSON value of an integer: a number where a signed or unsigned integer of 64 bits holds it,
and a string of its digits below. -/
def ofInt (n : Int) : Json :=
  if Int64.minValue.toInt ≤ n ∧ n < UInt64.size then .int n
  else .str (String.ofList (Json.intText n))

mutual

/-- The JSON value of a CBOR item.  Tags are dropped, byte strings become hexadecimal digits, and of
several map entries with the same key the last one counts. -/
def toJson : Cbor.Item → Json
  | .int n => ofInt n
  | .bytes bs => .str (Hex.ofBytes bs)
  | .text s => .str s
  | .array items => .arr (itemsToJson items)
  | .map entries => .obj (entriesToJson entries [])
  | .tag _ content => toJson content
  | .bool b => .bool b
  | .null => .null
  | .double x => if x.magnitude?.isSome then .double x else .null

/-- The JSON values of the items of an array. -/
def itemsToJson : List Cbor.Item → List Json
  | [] => []
  | x :: xs => toJson x :: itemsToJson xs

/-- The members that the entries of a map add to an object. -/
def entriesToJson : List (Cbor.Item × Cbor.Item) → List (String × Json) → List (String × Json)
  | [], members => members
  | (k, v) :: es, members => entriesToJson es (Json.insert (key k) (toJson v) members)

/-- The object key for the key of a map entry: a text itself, the digits of an integer, and the JSON
text of anything else. -/
def key : Cbor.Item → String
  | .text s => s
  | .int n => String.ofList (Json.intText n)
  | .tag _ content => (toJson content).compact
  | .bytes bs => (Json.str (Hex.ofBytes bs)).compact
  | .array items => (Json.arr (itemsToJson items)).compact
  | .map entries => (Json.obj (entriesToJson entries [])).compact
  | .bool b => (Json.bool b).compact
  | .null => Json.null.compact
  | .double x => (Json.double x).compact

end

/-- **The JSON text of a CBOR payload.**  No bytes give no text. -/
def jsonText? (bs : Bytes) : Option String :=
  if bs = [] then some "" else (Cbor.decode? bs).map fun item => (toJson item).compact

/-- **The text of a payload** in its declared format. -/
def render (format : ContentFormat) (bs : Bytes) : Rendered :=
  match format with
  | .linkFormat => ⟨.linkFormat, Utf8.decodeLossy bs⟩
  | .json => ⟨.json, Utf8.decodeLossy bs⟩
  | .cbor =>
    match jsonText? bs with
    | some text => ⟨.json, text⟩
    | none => failed
  | .other _ => failed

end Payload

end KnxIoT

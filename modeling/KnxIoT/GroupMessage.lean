import KnxIoT.Cbor.Writer
import KnxIoT.Decimal.Read
import KnxIoT.Text.Blank
/-!
# Group messages

The messages that devices of a group exchange without an answer, and their encoding: the sender's
individual address under the key 4 and, under 5, the service, the group address and the value.
-/

namespace KnxIoT

/-- What a group message asks for. -/
inductive GroupService where
  | write
  | read
  | response
  deriving DecidableEq, Repr

namespace GroupService

/-- All services. -/
def all : List GroupService := [.write, .read, .response]

/-- The short code of a service on the wire. -/
def code : GroupService → String
  | .write => "w"
  | .read => "r"
  | .response => "rp"

/-- The service with the given code. -/
def ofCode? (code : String) : Option GroupService :=
  all.find? (·.code = code)

end GroupService

/-- The value of a group message. -/
inductive GroupValue where
  | bool (b : Bool)
  | int (n : Int64)
  | double (x : Decimal.Double)
  deriving DecidableEq, Repr

namespace GroupValue

/-- A whole number in the range of 64 bits. -/
def readInt64? (cs : List Char) : Option Int64 :=
  (Decimal.readInt? cs).bind fun n =>
    if Int64.minValue.toInt ≤ n ∧ n ≤ Int64.maxValue.toInt then some (Int64.ofInt n) else none

/-- The value that a text stands for, where the kind is 0 for truth values, 1 for whole numbers and
2 for numbers with a fraction.  Blanks at the ends do not count; `true` alone is true, and what is
no number is zero. -/
def parse? (kind : UInt8) (text : String) : Option GroupValue :=
  let cs := Text.trim text.toList
  if kind = 0 then some (.bool (String.ofList cs = "true"))
  else if kind = 1 then some (.int ((readInt64? cs).getD 0))
  else if kind = 2 then some (.double ((Decimal.readDouble? cs).getD .zero))
  else none

/-- The value as a CBOR item. -/
def toItem : GroupValue → Cbor.Item
  | .bool b => .bool b
  | .int n => .int n.toInt
  | .double x => .double x

end GroupValue

/-- A message to a group. -/
structure GroupMessage where
  /-- The individual address of the sender. -/
  sender : UInt32
  group : UInt32
  service : GroupService
  value : GroupValue
  deriving DecidableEq, Repr

namespace GroupMessage

/-- The message as a CBOR item. -/
def toItem (m : GroupMessage) : Cbor.Item :=
  .map
    [(.int 4, .int m.sender.toNat),
     (.int 5, .map
       [(.int 6, .text m.service.code),
        (.int 7, .int m.group.toNat),
        (.int 1, m.value.toItem)])]

/-- **The body of the message.** -/
def encode (m : GroupMessage) : Bytes :=
  Cbor.write m.toItem

end GroupMessage

end KnxIoT

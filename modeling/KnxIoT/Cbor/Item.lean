import KnxIoT.Text.Utf8
import KnxIoT.Decimal.Binary
/-!
# CBOR: items

The data items of the Concise Binary Object Representation, and the heads that begin their
encodings.
-/

namespace KnxIoT.Cbor

/-- A data item.  An integer lies in the range of the integer types, `-2 ^ 64` to `2 ^ 64 - 1`; a
larger one is a tagged byte string. -/
inductive Item where
  | int (n : Int)
  | bytes (bs : Bytes)
  | text (s : String)
  | array (items : List Item)
  | map (entries : List (Item × Item))
  | tag (number : Nat) (content : Item)
  | bool (b : Bool)
  | null
  | double (x : Decimal.Double)
  deriving Inhabited

/-- The head of an item: its type and its argument.  No length means that the end is marked. -/
inductive Head where
  | unsigned (n : Nat)
  | negative (n : Nat)
  | bytes (length : Option Nat)
  | text (length : Option Nat)
  | array (length : Option Nat)
  | map (length : Option Nat)
  | tag (number : Nat)
  | simple (n : Nat)
  | double (x : Decimal.Double)
  | stop
  deriving DecidableEq, Repr

end KnxIoT.Cbor

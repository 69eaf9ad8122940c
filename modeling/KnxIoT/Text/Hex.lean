import KnxIoT.Text.Utf8
/-!
# Text: hexadecimal digits

Numbers and byte strings in hexadecimal; written digits are in lower case.
-/

namespace KnxIoT.Hex

/-- The digit for a value below 16. -/
def digit (n : Nat) : Char :=
  if n < 10 then Char.ofNat (48 + n) else Char.ofNat (87 + n)

/-- The value of a hexadecimal digit of either case. -/
def value? (c : Char) : Option Nat :=
  let n := c.toNat
  if 48 ≤ n ∧ n ≤ 57 then some (n - 48)
  else if 97 ≤ n ∧ n ≤ 102 then some (n - 87)
  else if 65 ≤ n ∧ n ≤ 70 then some (n - 55)
  else none

/-- The two digits of a byte. -/
def byteDigits (b : UInt8) : List Char :=
  [digit (b.toNat / 16), digit (b.toNat % 16)]

/-- Two digits for each byte. -/
def ofBytes (bs : Bytes) : String :=
  String.ofList (bs.flatMap byteDigits)

/-- The bytes whose digits come in pairs, as far as they do. -/
def pairs? : List Char → Option Bytes
  | [] => some []
  | a :: b :: rest => do
    let high ← value? a
    let low ← value? b
    let bs ← pairs? rest
    pure (UInt8.ofNat (16 * high + low) :: bs)
  | [_] => none

/-- The bytes with the given digits of either case. -/
def toBytes? (s : String) : Option Bytes :=
  pairs? s.toList

end KnxIoT.Hex

import KnxIoT.Cbor.Item
/-!
# CBOR: writing

The encoding of an item with every length in its shortest form and definite, and every number with a
fraction in the shortest width that keeps its bits.
-/

namespace KnxIoT.Cbor

/-- The `n` bytes of a number, the most significant first. -/
def bigEndian : (n : Nat) → Nat → Bytes
  | 0, _ => []
  | n + 1, x => UInt8.ofNat (x / Nat.pow 256 n) :: bigEndian n x

/-- A head with its argument in the shortest form. -/
def writeHead (major argument : Nat) : Bytes :=
  let first (info : Nat) : UInt8 := UInt8.ofNat (32 * major + info)
  if argument < 24 then [first argument]
  else if argument < UInt8.size then first 24 :: bigEndian 1 argument
  else if argument < UInt16.size then first 25 :: bigEndian 2 argument
  else if argument < UInt32.size then first 26 :: bigEndian 4 argument
  else first 27 :: bigEndian 8 argument

/-- A number with a fraction. -/
def writeDouble (x : Decimal.Double) : Bytes :=
  match x.narrow? .half with
  | some h => 0xF9 :: bigEndian 2 h
  | none =>
    match x.narrow? .single with
    | some s => 0xFA :: bigEndian 4 s
    | none => 0xFB :: bigEndian 8 x.bits.toNat

mutual

/-- **The encoding of an item.** -/
def write : Item → Bytes
  | .int (.ofNat n) => writeHead 0 n
  | .int (.negSucc n) => writeHead 1 n
  | .bytes bs => writeHead 2 bs.length ++ bs
  | .text s => writeHead 3 (Utf8.size s) ++ Utf8.encode s
  | .array items => writeHead 4 items.length ++ writeItems items
  | .map entries => writeHead 5 entries.length ++ writeEntries entries
  | .tag number content => writeHead 6 number ++ write content
  | .bool b => [if b then 0xF5 else 0xF4]
  | .null => [0xF6]
  | .double x => writeDouble x

/-- The encodings of the items of an array. -/
def writeItems : List Item → Bytes
  | [] => []
  | x :: xs => write x ++ writeItems xs

/-- The encodings of the entries of a map. -/
def writeEntries : List (Item × Item) → Bytes
  | [] => []
  | (k, v) :: es => write k ++ (write v ++ writeEntries es)

end

end KnxIoT.Cbor

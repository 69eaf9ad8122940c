import KnxIoT.Cbor.Item
/-!
# CBOR: reading

Reading one item from the front of a byte string.  Lengths need not be written in the shortest form.
Each array, map and tag is one level of nesting, and an item may have at most `maxNesting` of them;
the number of levels that are left bounds the recursion.  The unsigned and negative big numbers
(tags 2 and 3 on a byte string of at most sixteen bytes) are read as integers, and as a tag on their
shortest bytes where they are out of range for an integer.
-/

namespace KnxIoT.Cbor

/-- The number whose digits to the base 256 are the bytes. -/
def ofBigEndian (bs : Bytes) : Nat :=
  bs.foldl (fun n b => 256 * n + b.toNat) 0

/-- The first `n` bytes and the rest. -/
def takeBytes? (n : Nat) (bs : Bytes) : Option (Bytes × Bytes) :=
  if n ≤ bs.length then some (bs.splitAt n) else none

/-- The argument of a head and the bytes after it: `none` as an argument for an open length. -/
def readArgument? (info : Nat) (bs : Bytes) : Option (Option Nat × Bytes) :=
  if info < 24 then some (some info, bs)
  else if info < 28 then
    (takeBytes? (Nat.pow 2 (info - 24)) bs).map fun (arg, rest) => (some (ofBigEndian arg), rest)
  else if info = 31 then some (none, bs)
  else none

/-- The head of major type 7: a simple value, a number with a fraction or the end mark. -/
def readSimple? (info : Nat) (bs : Bytes) : Option (Head × Bytes) :=
  (readArgument? info bs).map fun (arg, rest) =>
    (match arg, info with
      | none, _ => .stop
      | some n, 25 => .double (.widen .half n)
      | some n, 26 => .double (.widen .single n)
      | some n, 27 => .double (.widen .double n)
      | some n, _ => .simple n, rest)

/-- The head at the front of a byte string. -/
def readHead? : Bytes → Option (Head × Bytes)
  | [] => none
  | b :: bs =>
    let info := b.toNat % 32
    match b.toNat / 32 with
    | 7 => readSimple? info bs
    | major =>
      (readArgument? info bs).bind fun (arg, rest) =>
        match major, arg with
        | 0, some n => some (.unsigned n, rest)
        | 1, some n => some (.negative n, rest)
        | 2, len => some (.bytes len, rest)
        | 3, len => some (.text len, rest)
        | 4, len => some (.array len, rest)
        | 5, len => some (.map len, rest)
        | 6, some n => some (.tag n, rest)
        | _, _ => none

/-- Tells byte strings and texts apart where both are read in the same way. -/
inductive StringKind where
  | bytes
  | text
  deriving DecidableEq, Repr

/-- The length in a head, if it is the head of such a string. -/
def StringKind.length? : StringKind → Head → Option (Option Nat)
  | .bytes, .bytes len => some len
  | .text, .text len => some len
  | _, _ => none

/-- The chunks of a string of open length up to its end mark.  Strings of open length may stand
inside one another, `opened` counts those that are not ended.  Every chunk must pass the check. -/
def readChunks? (kind : StringKind) (check : Bytes → Bool) :
    (fuel opened : Nat) → Bytes → Option (Bytes × Bytes)
  | 0, _, _ => none
  | fuel + 1, opened, bs =>
    (readHead? bs).bind fun (head, rest) =>
      if head = .stop then
        if opened = 1 then some ([], rest) else readChunks? kind check fuel (opened - 1) rest
      else match kind.length? head with
        | none => none
        | some none => readChunks? kind check fuel (opened + 1) rest
        | some (some n) =>
          (takeBytes? n rest).bind fun (chunk, rest) =>
            if check chunk then
              (readChunks? kind check fuel opened rest).map fun (more, rest) =>
                (chunk ++ more, rest)
            else none

/-- The content of a string after its head. -/
def readString? (kind : StringKind) (check : Bytes → Bool) (length : Option Nat) (bs : Bytes) :
    Option (Bytes × Bytes) :=
  match length with
  | some n => (takeBytes? n bs).filter fun (content, _) => check content
  | none => readChunks? kind check (bs.length + 1) 1 bs

/-- A text after its head. -/
def readText? (length : Option Nat) (bs : Bytes) : Option (String × Bytes) :=
  (readString? .text (fun chunk => (Utf8.decode? chunk).isSome) length bs).bind
    fun (content, rest) => (Utf8.decode? content).map fun s => (s, rest)

/-- The elements that `read` finds one after the other, `n` of them. -/
def readMany? {α : Type} (read : Bytes → Option (α × Bytes)) :
    Nat → Bytes → Option (List α × Bytes)
  | 0, bs => some ([], bs)
  | n + 1, bs =>
    (read bs).bind fun (x, rest) =>
      (readMany? read n rest).map fun (xs, rest) => (x :: xs, rest)

/-- The elements that `read` finds up to an end mark. -/
def readOpen? {α : Type} (read : Bytes → Option (α × Bytes)) :
    (fuel : Nat) → Bytes → Option (List α × Bytes)
  | 0, _ => none
  | fuel + 1, bs =>
    match bs with
    | 0xFF :: rest => some ([], rest)
    | _ =>
      (read bs).bind fun (x, rest) =>
        (readOpen? read fuel rest).map fun (xs, rest) => (x :: xs, rest)

/-- The elements of an array or a map after its head. -/
def readElements? {α : Type} (read : Bytes → Option (α × Bytes)) (length : Option Nat)
    (bs : Bytes) : Option (List α × Bytes) :=
  match length with
  | some n => readMany? read n bs
  | none => readOpen? read (bs.length + 1) bs

/-- Two elements one after the other. -/
def readPair? {α : Type} (read : Bytes → Option (α × Bytes)) (bs : Bytes) :
    Option ((α × α) × Bytes) :=
  (read bs).bind fun (k, rest) => (read rest).map fun (v, rest) => ((k, v), rest)

/-- The bytes of a big number without zeros at the front. -/
def significant (bs : Bytes) : Bytes :=
  bs.dropWhile (· = 0)

/-- The integer for a big number under tag 2 or 3.  A number that no integer type holds keeps its
tag; under tag 3 it must stay below `2 ^ 127`. -/
def bigNumber? (number : Nat) (bs : Bytes) : Option Item :=
  let n := ofBigEndian bs
  if number = 2 then
    some (if n < UInt64.size then .int n else .tag 2 (.bytes (significant bs)))
  else if n < UInt64.size then some (.int (-1 - n))
  else if n < Nat.pow 2 127 then some (.tag 3 (.bytes (significant bs)))
  else none

/-- The big number after a head of tag 2 or 3, if one stands there: `none` if something else
does. -/
def readBigNumber? (number : Nat) (bs : Bytes) : Option (Option (Item × Bytes)) :=
  if number = 2 ∨ number = 3 then
    match readHead? bs with
    | some (.bytes (some n), rest) =>
      if n ≤ 16 then
        some ((takeBytes? n rest).bind fun (content, rest) =>
          (bigNumber? number content).map fun item => (item, rest))
      else none
    | _ => none
  else none

/-- The item of a simple value. -/
def ofSimple? (n : Nat) : Option Item :=
  if n = 20 then some (.bool false)
  else if n = 21 then some (.bool true)
  else if n = 22 ∨ n = 23 then some .null
  else none

/-- **One item from the front of a byte string,** with at most `levels` levels of nesting, and the
bytes after it. -/
def readItem? (levels : Nat) (bs : Bytes) : Option (Item × Bytes) :=
  (readHead? bs).bind fun (head, rest) =>
    match head with
    | .unsigned n => some (.int n, rest)
    | .negative n => some (.int (-1 - n), rest)
    | .bytes len =>
      (readString? .bytes (fun _ => true) len rest).map fun (bs, rest) => (.bytes bs, rest)
    | .text len => (readText? len rest).map fun (s, rest) => (.text s, rest)
    | .simple n => (ofSimple? n).map fun item => (item, rest)
    | .double x => some (.double x, rest)
    | .stop => none
    | .array len =>
      match levels with
      | 0 => none
      | levels + 1 =>
        (readElements? (readItem? levels) len rest).map fun (items, rest) => (.array items, rest)
    | .map len =>
      match levels with
      | 0 => none
      | levels + 1 =>
        (readElements? (readPair? (readItem? levels)) len rest).map
          fun (entries, rest) => (.map entries, rest)
    | .tag number =>
      match readBigNumber? number rest with
      | some result => result
      | none =>
        match levels with
        | 0 => none
        | levels + 1 =>
          (readItem? levels rest).map fun (content, rest) => (.tag number content, rest)

/-- How deep arrays, maps and tags may be nested. -/
def maxNesting : Nat := 256

/-- The item at the front of a byte string; what follows it is not looked at. -/
def decode? (bs : Bytes) : Option Item :=
  (readItem? maxNesting bs).map Prod.fst

end KnxIoT.Cbor

/-!
# Text: UTF-8

Byte strings and the text they hold.  `Utf8.scan` reads a byte string from left to right and gives a
character for each well-formed sequence and `none` for each ill-formed one, where an ill-formed
sequence is as long as it could have been the beginning of a well-formed one.  Strict reading
(`Utf8.decode?`) refuses a single ill-formed sequence; lossy reading (`Utf8.decodeLossy`) puts the
replacement character in its place.
-/

namespace KnxIoT

/-- A string of bytes. -/
abbrev Bytes := List UInt8

namespace Utf8

/-- A byte that can only continue a sequence. -/
def isContinuation (b : UInt8) : Bool :=
  0x80 ≤ b && b ≤ 0xBF

/-- Whether `b` may follow the leading byte `a`.  The four exceptions rule out overlong forms,
surrogates and values above the last code point. -/
def maySecond (a b : UInt8) : Bool :=
  if a = 0xE0 then 0xA0 ≤ b && b ≤ 0xBF
  else if a = 0xED then 0x80 ≤ b && b ≤ 0x9F
  else if a = 0xF0 then 0x90 ≤ b && b ≤ 0xBF
  else if a = 0xF4 then 0x80 ≤ b && b ≤ 0x8F
  else isContinuation b

/-- The low six bits of a continuation byte. -/
def low (b : UInt8) : Nat :=
  b.toNat % 64

/-- The character that begins with the byte `a`, or `none` for an ill-formed sequence, and how many
of the following bytes belong to it. -/
def front (a : UInt8) (rest : Bytes) : Option Char × Nat :=
  if a < 0x80 then (some (Char.ofNat a.toNat), 0)
  else if a < 0xC2 || 0xF4 < a then (none, 0)
  else match rest with
    | [] => (none, 0)
    | b :: rest =>
      if !maySecond a b then (none, 0)
      else if a < 0xE0 then (some (Char.ofNat (a.toNat % 32 * 64 + low b)), 1)
      else match rest with
        | [] => (none, 1)
        | c :: rest =>
          if !isContinuation c then (none, 1)
          else if a < 0xF0 then
            (some (Char.ofNat (a.toNat % 16 * 4096 + low b * 64 + low c)), 2)
          else match rest with
            | [] => (none, 2)
            | d :: _ =>
              if !isContinuation d then (none, 2)
              else
                (some (Char.ofNat
                  (a.toNat % 8 * 262144 + low b * 4096 + low c * 64 + low d)), 3)

/-- The characters and ill-formed sequences of a byte string, in order. -/
def scan : Bytes → List (Option Char)
  | [] => []
  | a :: rest =>
    let f := front a rest
    f.1 :: scan (rest.drop f.2)
termination_by bs => bs.length
decreasing_by
  simp only [List.length_cons, List.length_drop]
  omega

/-- The text, if every sequence is well formed. -/
def decodeChars? (bs : Bytes) : Option (List Char) :=
  (scan bs).mapM id

/-- The text, if every sequence is well formed. -/
def decode? (bs : Bytes) : Option String :=
  (decodeChars? bs).map String.ofList

/-- The text, with the replacement character in place of each ill-formed sequence. -/
def decodeLossy (bs : Bytes) : String :=
  String.ofList ((scan bs).map (·.getD '\uFFFD'))

/-- The bytes of a text. -/
def encode (s : String) : Bytes :=
  s.toList.flatMap String.utf8EncodeChar

/-- How many bytes a text takes. -/
def size (s : String) : Nat :=
  (encode s).length

end Utf8

end KnxIoT

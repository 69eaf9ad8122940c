import KnxIoT.Text.Utf8
/-!
# Host programs: arguments

What a host program in C hands over and gets back.  A text is a pointer to bytes up to the first
zero byte, or no pointer; a buffer is a pointer with a length.  Texts must be UTF-8.
-/

namespace KnxIoT.Host

/-- A text in C: the bytes before its zero byte, or no text at all. -/
abbrev CText := Option Bytes

/-- The text that begins at the first of the given bytes. -/
def CText.ofBytes (bs : Bytes) : CText :=
  some (bs.takeWhile (· ≠ 0))

/-- A text that must be there. -/
def requiredText (t : CText) : Option String :=
  t.bind Utf8.decode?

/-- A text that may be missing.  What is there must be UTF-8. -/
def optionalText : CText → Option (Option String)
  | none => some none
  | some bs => (Utf8.decode? bs).map some

/-- A buffer in C: where its bytes are, if anywhere, and how many there should be. -/
structure CBuffer where
  /-- The bytes that can be read. -/
  data : Option Bytes
  /-- The length that was stated. -/
  length : Nat
  deriving DecidableEq, Repr

/-- The buffer of all the given bytes. -/
def CBuffer.ofBytes (bs : Bytes) : CBuffer :=
  ⟨some bs, bs.length⟩

/-- The bytes of a buffer.  Without a length no pointer is needed. -/
def CBuffer.bytes? (b : CBuffer) : Option Bytes :=
  if b.length = 0 then some [] else b.data.map (·.take b.length)

/-- Whether a text has a zero character in it, so that no text in C can hold it. -/
def hasZero (s : String) : Bool :=
  s.toList.any (· = '\x00')

/-- A text as it can be handed to a host without changing it. -/
def exactText? (s : String) : Option String :=
  if hasZero s then none else some s

/-- A text as it is handed to a host when something must be: zero characters are left out. -/
def plainText (s : String) : String :=
  String.ofList (s.toList.filter (· ≠ '\x00'))

end KnxIoT.Host

import KnxIoT.Error
import KnxIoT.Notification
/-!
# The correlator

Every request that goes to the engine carries a token, and the correlator keeps what the caller gave
until the engine reports the outcome under that token.  Tokens are numbered from 1 and no number is
given out twice; what comes in under a token that is not pending, or that stands for something else,
has no effect.
-/

namespace KnxIoT

/-- The mark that connects an outcome with what is pending. -/
structure Token where
  raw : UInt64
  deriving DecidableEq, Repr, Inhabited

/-- The token after `n` others.  The numbers run through 64 bits. -/
def Token.after (n : Nat) : Token :=
  ⟨UInt64.ofNat (n + 1)⟩

/-- The token as text. -/
def Token.describe (t : Token) : String :=
  "#" ++ toString t.raw.toNat

/-- What a caller gave with a request and gets back with its response. -/
structure RequestContext where
  identifier : String
  path : String
  tag : String
  deriving DecidableEq, Repr

/-- What a token stands for. -/
inductive Pending where
  | request (context : RequestContext)
  /-- An open discovery session; a continuous one takes any number of replies. -/
  | discovery (continuous : Bool)
  | handshake (identifier : String)
  deriving DecidableEq, Repr

/-- The pending tokens. -/
structure Correlator where
  /-- The largest number of pending tokens, or 0 for no limit. -/
  capacity : Nat := 0
  /-- How many tokens were given out. -/
  issued : Nat := 0
  table : List (Token × Pending) := []
  deriving DecidableEq, Repr

namespace Correlator

/-- How many tokens are pending. -/
def count (c : Correlator) : Nat :=
  c.table.length

/-- Whether nothing more may wait. -/
def isFull (c : Correlator) : Bool :=
  c.capacity != 0 && c.capacity ≤ c.count

/-- What a token stands for, if it is pending. -/
def find? (c : Correlator) (t : Token) : Option Pending :=
  c.table.lookup t

/-- The table without a token. -/
def discard (c : Correlator) (t : Token) : Correlator :=
  { c with table := c.table.filter (·.1 ≠ t) }

/-- **Gives out a token** for what is to wait. -/
def issue (c : Correlator) (p : Pending) : Except BridgeError (Token × Correlator) :=
  if c.isFull then .error (.tooManyPending c.capacity)
  else
    let t := Token.after c.issued
    .ok (t,
      { c with issued := c.issued + 1, table := c.table.filter (·.1 ≠ t) ++ [(t, p)] })

/-- Removes a token, whatever it stands for. -/
def take (c : Correlator) (t : Token) : Option Pending × Correlator :=
  (c.find? t, c.discard t)

/-- Removes the token of a request. -/
def takeRequest (c : Correlator) (t : Token) : Option RequestContext × Correlator :=
  match c.find? t with
  | some (.request context) => (some context, c.discard t)
  | _ => (none, c)

/-- Removes the token of a handshake and gives the device it was for. -/
def takeHandshake (c : Correlator) (t : Token) : Option String × Correlator :=
  match c.find? t with
  | some (.handshake identifier) => (some identifier, c.discard t)
  | _ => (none, c)

/-- Whether the token names an open discovery session.  A session for a single reply is closed. -/
def acceptReply (c : Correlator) (t : Token) : Bool × Correlator :=
  match c.find? t with
  | some (.discovery true) => (true, c)
  | some (.discovery false) => (true, c.discard t)
  | _ => (false, c)

/-- What a caller sees of a response: the payload as text after a success, an empty error
otherwise. -/
def renderResponse (status : Status) (format : ContentFormat) (payload : Bytes) : Rendered :=
  if status.isSuccess then Payload.render format payload else Payload.failed

/-- **Completes a request:** its token is removed, and the notification for its caller is the
result. -/
def complete (c : Correlator) (t : Token) (status : Status) (format : ContentFormat)
    (payload : Bytes) : Option Notification × Correlator :=
  match c.takeRequest t with
  | (some context, c) =>
    let r := renderResponse status format payload
    (some (.clientResponse context.identifier status r.format context.tag context.path r.text), c)
  | (none, c) => (none, c)

/-- Removes every token. -/
def abandonAll (c : Correlator) : Correlator :=
  { c with table := [] }

end Correlator

end KnxIoT

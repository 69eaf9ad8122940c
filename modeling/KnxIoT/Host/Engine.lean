import KnxIoT.Engine
import KnxIoT.Host.Argument
/-!
# Host programs: the engine of a host

A host program can bring its own engine as a table of operations in C.  What an operation gets has
fixed fields: numbers that stand for nothing where there is nothing, and texts without zero
characters.  A call whose texts cannot be handed over unchanged is refused without asking the host.
-/

namespace KnxIoT.Host

/-- The operations that a table holds. -/
structure Operations where
  init : Bool := true
  poll : Bool := true
  submit : Bool := true
  discover : Bool := true
  handshake : Bool := true
  setMaxPayload : Bool := true
  shutdown : Bool := true
  deriving DecidableEq, Repr

/-- Whether a table holds what no engine can do without. -/
def Operations.isComplete (o : Operations) : Bool :=
  o.init && o.poll && o.submit

/-- The local identity as a host sees it. -/
structure HostIdentity where
  manufacturer : String
  name : String
  version : String
  serialNumber : String
  deriving DecidableEq, Repr

/-- An endpoint as a host sees it. -/
structure HostEndpoint where
  address : String
  /-- The engine's own mark. -/
  handle : UInt64
  secure : Bool
  /-- The multicast scope, or -1. -/
  scope : Int32
  serial : Option String
  deriving DecidableEq, Repr

/-- A request as a host sees it. -/
structure HostRequest where
  /-- The method, from 1 to 4. -/
  method : Int32
  endpoint : HostEndpoint
  path : String
  query : Option String
  payload : Bytes
  /-- The number of the body's format, or -1. -/
  contentFormat : Int32
  /-- The number of the wanted format, or -1. -/
  accept : Int32
  /-- Whether the request is repeated until it is confirmed. -/
  confirmable : Bool
  /-- The token, or 0. -/
  token : UInt64
  deriving DecidableEq, Repr

/-- A call of a host's operation. -/
inductive HostCall where
  | init (identity : HostIdentity)
  | poll
  | submit (r : HostRequest)
  | discover (query : String) (scope : UInt8) (token : UInt64)
  | handshake (endpoint : HostEndpoint) (password : String) (hint : Bytes) (token : UInt64)
  | setMaxPayload (size : Nat)
  | shutdown
  deriving DecidableEq, Repr

/-- The number of a method. -/
def methodNumber : Method → Int32
  | .get => 1
  | .post => 2
  | .put => 3
  | .delete => 4

/-- The number of a format, or -1 for none. -/
def formatNumber (f : Option ContentFormat) : Int32 :=
  match f with
  | some f => Int32.ofNat f.number.toNat
  | none => -1

/-- The number of a scope, or -1 for none. -/
def scopeNumber (s : Option UInt8) : Int32 :=
  match s with
  | some s => Int32.ofNat s.toNat
  | none => -1

/-- The number of a token, or 0 for none. -/
def tokenNumber (t : Option Token) : UInt64 :=
  match t with
  | some t => t.raw
  | none => 0

/-- A text that may be missing, if it can be handed over unchanged. -/
def exactOptional? : Option String → Option (Option String)
  | none => some none
  | some s => (exactText? s).map some

/-- The identity for a host. -/
def hostIdentity? (i : Identity) : Option HostIdentity := do
  let manufacturer ← exactText? i.manufacturer
  let name ← exactText? i.name
  let version ← exactText? i.version
  let serialNumber ← exactText? i.serialNumber
  pure { manufacturer, name, version, serialNumber }

/-- The endpoint for a host. -/
def hostEndpoint? (e : Endpoint) : Option HostEndpoint := do
  let serial ← exactOptional? e.serial
  let address ← exactText? e.address
  pure { address, handle := e.handle, secure := e.secure, scope := scopeNumber e.scope, serial }

/-- **The request for a host,** if all its texts can be handed over unchanged. -/
def hostRequest? (r : EngineRequest) : Option HostRequest := do
  let endpoint ← hostEndpoint? r.endpoint
  let path ← exactText? r.path
  let query ← exactOptional? r.query
  pure
    { method := methodNumber r.method
      endpoint
      path
      query
      payload := r.payload
      contentFormat := formatNumber r.contentFormat
      accept := formatNumber r.accept
      confirmable := r.confirmable
      token := tokenNumber r.token }

/-- **The operation that a call of the engine becomes,** if the table holds it and its texts can be
handed over unchanged. -/
def hostCall? (o : Operations) : EngineCall → Option HostCall
  | .init i => if o.init then (hostIdentity? i).map .init else none
  | .poll => if o.poll then some .poll else none
  | .submit r => if o.submit then (hostRequest? r).map .submit else none
  | .discover query scope t =>
    if o.discover then (exactText? query).map fun q => .discover q scope t.raw else none
  | .handshake e password hint t =>
    if o.handshake then do
      let e ← hostEndpoint? e
      let password ← exactText? password
      pure (.handshake e password hint t.raw)
    else none
  | .setMaxPayload n => if o.setMaxPayload then some (.setMaxPayload n) else none
  | .shutdown => if o.shutdown then some .shutdown else none

/-- What an operation returns: whether it accepts what is asked of it or, for a poll, after how many
milliseconds the next one is due, which is never if the number is negative. -/
inductive HostAnswer where
  | accepted (b : Bool)
  | next (ms : Int64)
  deriving DecidableEq, Repr

/-- What a host does with a call. -/
structure HostTurn (τ : Type) where
  answer : HostAnswer
  /-- The events it reported meanwhile. -/
  pushed : List EngineEvent := []
  state : τ

/-- The operations of a host with states of type `τ`. -/
abbrev HostEngine (τ : Type) :=
  HostCall → τ → HostTurn τ

/-- Whether an operation accepted what was asked of it. -/
def HostAnswer.isAccepted : HostAnswer → Bool
  | .accepted b => b
  | .next _ => false

/-- When the next poll is due. -/
def HostAnswer.deadline? : HostAnswer → Option Nat
  | .next ms => if 0 ≤ ms then some ms.toInt.toNat else none
  | .accepted _ => none

/-- The answer of the engine when the host is not asked. -/
def unasked (o : Operations) : (c : EngineCall) → c.Answer
  | .init _ =>
    .failed (.engineInit (if o.init then "identity contains NUL" else "no init operation"))
  | .poll => none
  | .submit _ => false
  | .discover .. => false
  | .handshake .. => false
  | .setMaxPayload _ => ()
  | .shutdown => ()

/-- The answer of the engine from that of the host. -/
def fromHost (a : HostAnswer) : (c : EngineCall) → c.Answer
  | .init _ =>
    if a.isAccepted then InitAnswer.ready else .failed (.engineInit "host engine init failed")
  | .poll => a.deadline?
  | .submit _ => a.isAccepted
  | .discover .. => a.isAccepted
  | .handshake .. => a.isAccepted
  | .setMaxPayload _ => ()
  | .shutdown => ()

/-- **The engine of a host,** made of its operations. -/
def engineOf {τ : Type} (o : Operations) (host : HostEngine τ) : Engine τ := fun c s =>
  match hostCall? o c with
  | none => { answer := unasked o c, state := s }
  | some h =>
    let t := host h s
    { answer := fromHost t.answer c, pushed := t.pushed, state := t.state }

end KnxIoT.Host

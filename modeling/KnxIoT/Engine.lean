import KnxIoT.Correlator
import KnxIoT.Endpoint
import KnxIoT.Request
import KnxIoT.Settings
/-!
# The protocol engine

The engine that speaks the protocol, as a bridge sees it.  It is called from one place at a time,
answers each call at once, and tells what it has to tell by events that it queues during a call.  An
engine is any function of this kind on a state of its own.
-/

namespace KnxIoT

/-- A request as it goes to the engine. -/
structure EngineRequest where
  method : Method
  endpoint : Endpoint
  path : String
  query : Option String := none
  payload : Bytes := []
  contentFormat : Option ContentFormat := none
  /-- The format that is wanted for the response. -/
  accept : Option ContentFormat := none
  /-- Whether the request is repeated until it is confirmed. -/
  confirmable : Bool := true
  token : Option Token := none
  deriving DecidableEq, Repr

/-- What an engine reports. -/
inductive EngineEvent where
  | response (token : Token) (status : Status) (format : ContentFormat) (payload : Bytes)
      (source : Option Endpoint)
  | discoveryReply (token : Token) (payload : Bytes) (source : Endpoint)
  | handshakeResult (token : Token) (status : Int32) (identity secret : Bytes)
  /-- A group message; its payload is CBOR. -/
  | gatewayNotification (sender : String) (payload : Bytes)
  | resourceChanged (anchor uri : String) (types interfaces : List String)
  deriving DecidableEq, Repr

/-- The token of an event, if it has one. -/
def EngineEvent.token? : EngineEvent → Option Token
  | .response t .. => some t
  | .discoveryReply t .. => some t
  | .handshakeResult t .. => some t
  | _ => none

/-- A call of the engine. -/
inductive EngineCall where
  | init (identity : Identity)
  | poll
  | submit (r : EngineRequest)
  | discover (query : String) (scope : UInt8) (token : Token)
  | handshake (endpoint : Endpoint) (password : String) (hint : Bytes) (token : Token)
  /-- To accept payloads of at most that size. -/
  | setMaxPayload (size : Nat)
  | shutdown
  deriving DecidableEq, Repr

/-- How beginning went. -/
inductive InitAnswer where
  | ready
  /-- The engine is ready, and while it began another caller told the bridge to stop. -/
  | readyButStopped
  | failed (e : BridgeError)
  deriving DecidableEq, Repr

/-- The answer to a call: whether it was accepted, for those that ask for something to be sent, and
when the engine wants to be polled again, in milliseconds from now. -/
def EngineCall.Answer : EngineCall → Type
  | .init _ => InitAnswer
  | .poll => Option Nat
  | .submit _ => Bool
  | .discover .. => Bool
  | .handshake .. => Bool
  | .setMaxPayload _ => Unit
  | .shutdown => Unit

/-- What an engine does with a call. -/
structure EngineTurn (σ : Type) (c : EngineCall) where
  answer : c.Answer
  /-- The events it queued meanwhile, in order. -/
  pushed : List EngineEvent := []
  state : σ

/-- An engine with states of type `σ`. -/
abbrev Engine (σ : Type) :=
  (c : EngineCall) → σ → EngineTurn σ c

end KnxIoT

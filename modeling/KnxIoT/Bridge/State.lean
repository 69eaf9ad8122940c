import KnxIoT.Dispatch.Machine
import KnxIoT.Engine
import KnxIoT.Registry
/-!
# The bridge: its state

A bridge owns an engine together with what serves it: the queue of events, the registry, the
correlator, the event loop and the limit for payloads.  The operations of this module are the pieces
from which the commands are made: calling the engine, queueing events and waking the worker.
-/

namespace KnxIoT

/-- Where an engine is in its life. -/
inductive EnginePhase where
  | idle
  | live
  /-- It has ended, or never will begin. -/
  | released
  deriving DecidableEq, Repr

/-- The events that wait to be handled.  Once closed it takes no more. -/
structure EventQueue where
  /-- The waiting events, the first one first. -/
  events : List EngineEvent := []
  /-- Whether nobody is left to handle them. -/
  closed : Bool := false
  deriving DecidableEq, Repr

/-- What happens in a bridge, as far as somebody else could see it. -/
inductive Happening where
  | engine (c : EngineCall) (answer : c.Answer)
  | queued (e : EngineEvent)
  /-- An event was taken from the queue to be handled. -/
  | taken (e : EngineEvent)
  /-- An event was taken from the queue and thrown away. -/
  | discarded (e : EngineEvent)
  /-- A discovery reply was worked through and so many devices entered or refreshed. -/
  | discovered (token : Token) (devices : Nat)

/-- **A bridge** around an engine with states of type `σ`. -/
structure Bridge (σ : Type) where
  settings : Settings
  engine : σ
  phase : EnginePhase := .idle
  queue : EventQueue := {}
  registry : Registry
  correlator : Correlator
  loop : EventLoop := {}
  wake : WakeSignal := {}
  maxPayload : Nat
  /-- What has happened since this was last taken down. -/
  log : List Happening := []

namespace Bridge

variable {σ : Type}

/-- **A bridge around an engine that has not begun,** if the settings are usable. -/
def make (settings : Settings) (engine : σ) : Except BridgeError (Bridge σ) :=
  match settings.validate with
  | .error e => .error (.settings e)
  | .ok settings =>
    .ok
      { settings
        engine
        registry := { capacity := settings.maxDevices }
        correlator := { capacity := settings.maxPendingRequests }
        maxPayload := settings.maxPayloadSize }

/-- The bridge with more on its log. -/
def note (b : Bridge σ) (hs : List Happening) : Bridge σ :=
  { b with log := b.log ++ hs }

/-- Queues an event and wakes the worker; a closed queue refuses it. -/
def push (b : Bridge σ) (e : EngineEvent) : Bool × Bridge σ :=
  if b.queue.closed then (false, b)
  else
    (true,
      { b.note [.queued e] with
        queue := { b.queue with events := b.queue.events ++ [e] }
        wake := b.wake.latch })

/-- Queues several events. -/
def pushAll (b : Bridge σ) (es : List EngineEvent) : Bridge σ :=
  es.foldl (fun b e => (b.push e).2) b

/-- Calls the engine; the events it queues meanwhile come after the call. -/
def callEngine (eng : Engine σ) (c : EngineCall) (b : Bridge σ) : c.Answer × Bridge σ :=
  let t := eng c b.engine
  (t.answer, ({ b.note [.engine c t.answer] with engine := t.state } : Bridge σ).pushAll t.pushed)

/-- Why an engine cannot be called now. -/
def refusal? (b : Bridge σ) : Option BridgeError :=
  match b.phase with
  | .live => none
  | .idle => some .notRunning
  | .released => some .shutDown

/-- Calls the engine if it is live. -/
def callLive (eng : Engine σ) (c : EngineCall) (b : Bridge σ) :
    Except BridgeError (c.Answer × Bridge σ) :=
  match b.refusal? with
  | some e => .error e
  | none => .ok (b.callEngine eng c)

/-- Wakes the worker if the loop runs. -/
def signal (b : Bridge σ) : Bridge σ :=
  { b with wake := b.loop.signal b.wake }

end Bridge

/-- The reply to a command. -/
inductive Reply where
  | unit (r : Except BridgeError Unit)
  | token (r : Except BridgeError Token)
  | device (r : Except BridgeError Device)
  /-- When the engine wants to be polled again. -/
  | deadline (r : Except BridgeError (Option Nat))
  | found (d : Option Device)
  | identifier (s : Option String)
  | identifiers (l : List String)
  | count (n : Nat)
  | flag (b : Bool)
  | state (s : LoopState)
  | settings (s : Settings)
  | text (s : String)

/-- How a poll cycle ends. -/
inductive CycleEnd where
  /-- With a reply to the host that polled. -/
  | reply (r : Reply)
  /-- With the worker going to wait, up to a deadline if there is one. -/
  | wait (next : Option Nat)

/-- The rest of a command after a notification. -/
inductive Rest where
  | reply (r : Reply)
  /-- To handle the queued events and end the poll cycle. -/
  | drain (e : CycleEnd)
  /-- To announce further devices of a discovery reply, then the reply itself. -/
  | announce (token : Token) (found : Nat) (serials : List String) (source : Endpoint)
      (text : String) (e : CycleEnd)

/-- The result of one piece of a command. -/
abbrev Bridge.Piece (σ : Type) :=
  Bridge σ × Dispatch.Outcome Rest Reply

end KnxIoT

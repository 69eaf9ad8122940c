import KnxIoT.Bridge.Devices
import KnxIoT.Bridge.Lifecycle
import KnxIoT.Bridge.Requests
/-!
# The bridge: commands

Everything that a caller can ask of a bridge, as a system for the dispatch machine.
-/

namespace KnxIoT

namespace Bridge

/-- What a caller can ask of a bridge whose engine has states of type `σ`. -/
inductive Command (σ : Type) where
  /-- To start, with an identity or with that of the settings. -/
  | start (identity : Option Identity)
  /-- To run a poll cycle for the host. -/
  | poll
  /-- To run a poll cycle for the worker. -/
  | cycle
  | signal
  | stop
  /-- To stop and accept no more events. -/
  | dispose
  | push (e : EngineEvent)
  | submit (r : Request)
  | discover (scope : UInt8) (query : String)
  /-- To send the discovery query of the settings. -/
  | discoverDefault
  | handshake (identifier password : String)
  | groupMessage (scope : UInt8) (m : GroupMessage)
  | register (identifier address : String)
  | setName (identifier name : String)
  | setSecure (identifier : String) (secure : Bool)
  | device (identifier : String)
  | identifierAt (index : Nat)
  | identifiers
  | deviceCount
  | clearDevices
  | setMaxPayload (size : Nat)
  | maxPayload
  | pendingCount
  | state
  | settings
  | describe
  | describeQueue
  /-- To look at the engine from outside, and perhaps to change it. -/
  | visit (f : σ → Bool × σ)

variable {σ : Type}

/-- The bridge described for a reader. -/
def describe (b : Bridge σ) (installed : Category → Bool) : String :=
  "Bridge \x7b state: " ++ b.loop.state.label ++ ", devices: " ++ toString b.registry.count ++
    ", pending: " ++ toString b.correlator.count ++ ", callbacks: " ++
    describeInstalled installed ++ " \x7d"

/-- The queue described for a reader. -/
def describeQueue (b : Bridge σ) : String :=
  "EventSink \x7b queued: " ++ toString b.queue.events.length ++ " \x7d"

/-- A piece that only replies. -/
def replying {α : Type} (f : α → Reply) (result : α × Bridge σ) : Piece σ :=
  (result.2, .reply (f result.1))

/-- **Carries out a command,** up to its reply or its first notification. -/
def perform (eng : Engine σ) (installed : Category → Bool) (c : Command σ) (b : Bridge σ) :
    Piece σ :=
  match c with
  | .start identity => replying .unit (b.start eng identity)
  | .poll => b.poll eng
  | .cycle => b.workerCycle eng
  | .signal => (b.signal, .reply (.unit (.ok ())))
  | .stop => (b.stop eng, .reply (.unit (.ok ())))
  | .dispose => (b.dispose eng, .reply (.unit (.ok ())))
  | .push e => replying .flag (b.push e)
  | .submit r => b.submit eng r
  | .discover scope query => b.discover eng scope query
  | .discoverDefault => b.discover eng b.settings.discoveryScope b.settings.discoveryQuery
  | .handshake identifier password => b.handshake eng identifier password
  | .groupMessage scope m => b.groupMessage eng scope m
  | .register identifier address => replying .device (b.register identifier address)
  | .setName identifier name => replying .unit (b.setName identifier name)
  | .setSecure identifier secure => replying .unit (b.setSecure identifier secure)
  | .device identifier => (b, .reply (.found (b.registry.find? identifier)))
  | .identifierAt index =>
    (b, .reply (.identifier ((b.registry.at? index).map (·.identifier))))
  | .identifiers => (b, .reply (.identifiers b.registry.identifiers))
  | .deviceCount => (b, .reply (.count b.registry.count))
  | .clearDevices => (b.clearDevices, .reply (.unit (.ok ())))
  | .setMaxPayload size => replying .unit (b.setMaxPayload eng size)
  | .maxPayload => (b, .reply (.count b.maxPayload))
  | .pendingCount => (b, .reply (.count b.correlator.count))
  | .state => (b, .reply (.state b.loop.state))
  | .settings => (b, .reply (.settings b.settings))
  | .describe => (b, .reply (.text (b.describe installed)))
  | .describeQueue => (b, .reply (.text b.describeQueue))
  | .visit f => ({ b with engine := (f b.engine).2 }, .reply (.flag (f b.engine).1))

/-- Goes on after a notification. -/
def proceed (rest : Rest) (b : Bridge σ) : Piece σ :=
  match rest with
  | .reply r => (b, .reply r)
  | .drain e => b.drain e
  | .announce t found serials source text e =>
    let (b, n, rest) := announce t found source text e serials b
    (b, .notify n rest)

/-- A piece for the dispatch machine: what happened meanwhile is taken down. -/
def takeDown (p : Piece σ) : Dispatch.Piece (Bridge σ) Rest Reply Happening :=
  { state := { p.1 with log := [] }, events := p.1.log, outcome := p.2 }

/-- **The bridge as a system** that carries out commands. -/
def system (eng : Engine σ) : Dispatch.System (Bridge σ) (Command σ) Rest Reply Happening :=
  { start := fun installed c b => takeDown (b.perform eng installed c)
    proceed := fun rest _ b => takeDown (b.proceed rest) }

/-- What a caller or a handler does with a bridge. -/
abbrev Program (σ : Type) := KnxIoT.Program (Command σ) Reply

/-- A receiver of a bridge's notifications. -/
abbrev Handler (σ : Type) := KnxIoT.Handler (Command σ) Reply

/-- A run of programs on a bridge. -/
abbrev Machine (σ : Type) := Dispatch.Machine (Bridge σ) (Command σ) Rest Reply Happening

/-- What the trace of a run records. -/
abbrev Entry (σ : Type) := Dispatch.Entry (Command σ) Reply Happening

end Bridge

end KnxIoT

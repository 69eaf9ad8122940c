import KnxIoT.Bridge.State
import KnxIoT.Discovery.Marker
/-!
# The bridge: engine events

Handling the queued events of the engine in their order.  An event under a token that does not stand
for it is dropped; every other one is told to a handler.  A discovery reply enters the devices that
it announces one after the other, each with a notification of its own.
-/

namespace KnxIoT.Bridge

variable {σ : Type}

/-- What is said about a device that was found. -/
def discoveredChange : String := "discovered"

/-- What a discovery reply writes into the device with the given serial number: it is reached where
the reply came from. -/
def announced (source : Endpoint) (secure : Bool) (serial : String) : DeviceUpdate :=
  { address := some source.address
    endpoint := some { source with secure, serial := some serial } }

/-- **Announces the devices of a discovery reply,** up to the first one that can be entered, and
after the last one the reply itself. -/
def announce (t : Token) (found : Nat) (source : Endpoint) (text : String) (e : CycleEnd) :
    List String → Bridge σ → Bridge σ × Notification × Rest
  | [], b => (b.note [.discovered t found], .discoveryResult text, .drain e)
  | s :: rest, b =>
    match b.registry.upsert s (announced source b.settings.secureByDefault s) with
    | .ok (_, registry) =>
      ({ b with registry }, .stateChanged s source.address discoveredChange,
        .announce t (found + 1) rest source text e)
    | .error _ => announce t found source text e rest b

/-- Handles one event: who is to be told, if anybody, and what is to be done after that. -/
def handle (event : EngineEvent) (e : CycleEnd) (b : Bridge σ) :
    Bridge σ × Option (Notification × Rest) :=
  match event with
  | .response t status format payload _ =>
    let (n, correlator) := b.correlator.complete t status format payload
    ({ b with correlator }, n.map fun n => (n, .drain e))
  | .discoveryReply t payload source =>
    match b.correlator.acceptReply t with
    | (true, correlator) =>
      let text := Utf8.decodeLossy payload
      let (b, n, rest) :=
        announce t 0 source text e (Discovery.serialsIn text) { b with correlator }
      (b, some (n, rest))
    | (false, correlator) => ({ b with correlator }, none)
  | .handshakeResult t status identity secret =>
    let (identifier, correlator) := b.correlator.takeHandshake t
    ({ b with correlator },
      identifier.map fun identifier =>
        (.handshakeResult identifier status identity secret, .drain e))
  | .gatewayNotification sender payload =>
    (b, some (.gatewayNotification sender ((Payload.jsonText? payload).getD ""), .drain e))
  | .resourceChanged anchor uri types interfaces =>
    (b, some (.resourceChanged anchor uri types interfaces, .drain e))

/-- The end of a poll cycle. -/
def endCycle (b : Bridge σ) : CycleEnd → Piece σ
  | .reply r => (b, .reply r)
  | .wait next =>
    let (loop, wake) := b.loop.afterCycle b.wake next.isSome
    ({ b with loop, wake }, .reply (.deadline (.ok next)))

/-- Takes the given events from the queue one after the other, up to the first that somebody is told
about. -/
def drainFrom (e : CycleEnd) : List EngineEvent → Bridge σ → Piece σ
  | [], b => b.endCycle e
  | event :: rest, b =>
    let b := { b.note [.taken event] with queue := { b.queue with events := rest } }
    match b.handle event e with
    | (b, some (n, rest)) => (b, .notify n rest)
    | (b, none) => drainFrom e rest b

/-- **Handles the queued events,** up to the first that somebody is told about. -/
def drain (e : CycleEnd) (b : Bridge σ) : Piece σ :=
  drainFrom e b.queue.events b

end KnxIoT.Bridge

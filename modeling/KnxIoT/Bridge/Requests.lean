import KnxIoT.Bridge.State
import KnxIoT.GroupMessage
/-!
# The bridge: requests

The commands that ask the engine to send something.  Each takes a token first, if an outcome is
expected, and gives it back when the engine does not take the request; so nothing stays pending
after a failure.
-/

namespace KnxIoT.Bridge

variable {σ : Type}

/-- The resource that group messages are sent to. -/
def groupPath : String := "/.knx"

/-- The notification that stands in for a response when a request is refused at once. -/
def rejection (r : Request) (status : Status) : Notification :=
  .clientResponse r.identifier status .error r.tag r.path ""

/-- Refuses a request: with a notification, if the settings ask for one, and with an error. -/
def refuse (b : Bridge σ) (r : Request) (status : Status) (e : BridgeError) : Piece σ :=
  let reply := Reply.token (.error e)
  if b.settings.synthesizeRejections then
    (b, .notify (rejection r status) (.reply reply))
  else (b, .reply reply)

/-- The request for the engine. -/
def engineRequest (r : Request) (d : Device) (t : Token) : EngineRequest :=
  { method := r.method
    endpoint := { d.endpoint with secure := r.secure.getD d.endpoint.secure }
    path := r.path
    query := r.query
    payload := r.payload
    contentFormat := r.contentFormat
    accept := r.accept
    token := some t }

/-- Gives up a token that was taken in vain. -/
def giveUp (b : Bridge σ) (t : Token) : Bridge σ :=
  { b with correlator := b.correlator.discard t }

/-- **Sends a request to a registered device.**  The response will come under the token. -/
def submit (eng : Engine σ) (r : Request) (b : Bridge σ) : Piece σ :=
  if b.maxPayload < r.payload.length then
    (b, .reply (.token (.error (.payloadTooLarge r.payload.length b.maxPayload))))
  else match b.registry.find? r.identifier with
    | none => b.refuse r .unknownDevice (.unknownDevice r.identifier)
    | some d =>
      match b.correlator.issue (.request ⟨r.identifier, r.path, r.tag⟩) with
      | .error e => (b, .reply (.token (.error e)))
      | .ok (t, correlator) =>
        let b := { b with correlator }
        match b.callLive eng (.submit (engineRequest r d t)) with
        | .error e => (b.giveUp t, .reply (.token (.error e)))
        | .ok (true, b) => (b.signal, .reply (.token (.ok t)))
        | .ok (false, b) =>
          (b.giveUp t).refuse r .submissionFailed (.submissionRejected (.request r.method))

/-- **Sends a discovery query.**  Replies will come under the token. -/
def discover (eng : Engine σ) (scope : UInt8) (query : String) (b : Bridge σ) : Piece σ :=
  match b.correlator.issue (.discovery (b.settings.discoveryMode = .continuous)) with
  | .error e => (b, .reply (.token (.error e)))
  | .ok (t, correlator) =>
    let b := { b with correlator }
    match b.callLive eng (.discover query scope t) with
    | .error e => (b.giveUp t, .reply (.token (.error e)))
    | .ok (true, b) => (b.signal, .reply (.token (.ok t)))
    | .ok (false, b) =>
      (b.giveUp t, .reply (.token (.error (.submissionRejected .discovery))))

/-- A device with a serial number at its endpoint: its identifier, unless there is one. -/
def withSerial (d : Device) : Device :=
  if d.endpoint.serial.isNone then
    { d with endpoint := { d.endpoint with serial := some d.identifier } }
  else d

/-- **Begins a handshake with a registered device.**  If the engine refuses it, that is also told to
the handler for handshakes, with status -1. -/
def handshake (eng : Engine σ) (identifier password : String) (b : Bridge σ) : Piece σ :=
  match b.registry.find? identifier with
  | none => (b, .reply (.token (.error (.unknownDevice identifier))))
  | some d =>
    let d := withSerial d
    let b := { b with registry := b.registry.modify identifier withSerial }
    match b.correlator.issue (.handshake identifier) with
    | .error e => (b, .reply (.token (.error e)))
    | .ok (t, correlator) =>
      let b := { b with correlator }
      match b.callLive eng (.handshake d.endpoint password (Utf8.encode identifier) t) with
      | .error e => (b.giveUp t, .reply (.token (.error e)))
      | .ok (true, b) => (b.signal, .reply (.token (.ok t)))
      | .ok (false, b) =>
        (b.giveUp t,
          .notify (.handshakeResult identifier (-1) [] [])
            (.reply (.token (.error (.submissionRejected .handshake)))))

/-- **Sends a message to all nodes in a scope.**  No outcome is expected, so there is no token. -/
def groupMessage (eng : Engine σ) (scope : UInt8) (m : GroupMessage) (b : Bridge σ) : Piece σ :=
  let payload := m.encode
  if b.maxPayload < payload.length then
    (b, .reply (.unit (.error (.payloadTooLarge payload.length b.maxPayload))))
  else
    let r : EngineRequest :=
      { method := .post
        endpoint := .allNodes scope
        path := groupPath
        payload
        contentFormat := some .cbor
        confirmable := false }
    match b.callLive eng (.submit r) with
    | .error e => (b, .reply (.unit (.error e)))
    | .ok (true, b) => (b.signal, .reply (.unit (.ok ())))
    | .ok (false, b) => (b, .reply (.unit (.error (.submissionRejected .groupMessage))))

end KnxIoT.Bridge

import KnxIoT.Bridge.Command
import KnxIoT.Host.Callback
import KnxIoT.Host.Code
import KnxIoT.Host.Feed
/-!
# Host programs: calls

The functions that a host program calls.  Each checks its arguments and then either returns at once
or issues one command to the bridge and turns the reply into what it returns; so a call with a bad
argument never reaches the bridge.
-/

namespace KnxIoT.Host

variable {σ α β : Type}

/-- A handle of a bridge: the settings it was made with, or no bridge. -/
abbrev Handle := Option Settings

/-- What a call does. -/
inductive Call (σ α : Type) where
  | done (a : α)
  /-- It issues a command and returns what becomes of the reply. -/
  | ask (c : Bridge.Command σ) (result : Reply → α)

/-- A call as part of a program, which goes on with what the call returns. -/
def Call.andThen (c : Call σ α) (next : α → Bridge.Program σ) : Bridge.Program σ :=
  match c with
  | .done a => next a
  | .ask c result => .command c fun r => next (result r)

/-- The code for a reply. -/
def codeOf : Reply → Code
  | .unit r => .ofResult r
  | .token r => .ofResult r
  | .device r => .ofResult r
  | .deadline r => .ofResult r
  | _ => .ok

/-- The number in a reply. -/
def countOf : Reply → Nat
  | .count n => n
  | _ => 0

/-- A call without effect, for a bad argument. -/
def invalid : Call σ Code :=
  .done .invalidArgument

/-- A command that returns a code. -/
def askCode (c : Bridge.Command σ) : Call σ Code :=
  .ask c codeOf

/-- What a call that gives out a token returns: its code, and what is written where the token should
go. -/
structure TokenResult where
  code : Code
  /-- The token that was written, if any. -/
  written : Option Token := none
  deriving DecidableEq, Repr

/-- The result for a reply; a token is written only where there is room for one. -/
def tokenResult (hasRoom : Bool) : Reply → TokenResult
  | .token (.ok t) => { code := .ok, written := if hasRoom then some t else none }
  | r => { code := codeOf r }

/-- A call without effect that gives out no token. -/
def invalidToken : Call σ TokenResult :=
  .done { code := .invalidArgument }

/-- A command that gives out a token. -/
def askToken (hasRoom : Bool) (c : Bridge.Command σ) : Call σ TokenResult :=
  .ask c (tokenResult hasRoom)

/-! ### Life -/

/-- An identity as a host states it: what is missing is taken from the settings. -/
structure IdentityArgument where
  manufacturer : CText := none
  name : CText := none
  version : CText := none
  serialNumber : CText := none
  deriving DecidableEq, Repr

/-- The identity that a host means. -/
def IdentityArgument.resolve? (a : IdentityArgument) (configured : Identity) : Option Identity := do
  let manufacturer ← optionalText a.manufacturer
  let name ← optionalText a.name
  let version ← optionalText a.version
  let serialNumber ← optionalText a.serialNumber
  pure
    { manufacturer := manufacturer.getD configured.manufacturer
      name := name.getD configured.name
      version := version.getD configured.version
      serialNumber := serialNumber.getD configured.serialNumber }

/-- Starts the bridge. -/
def start (h : Handle) (identity : Option IdentityArgument) : Call σ Code :=
  match h with
  | none => invalid
  | some settings =>
    match identity with
    | none => askCode (.start none)
    | some a =>
      match a.resolve? settings.identity with
      | none => invalid
      | some i => askCode (.start (some i))

/-- What polling returns: the code, and the milliseconds to the next timer or -1, if they were
written. -/
structure PollResult where
  code : Code
  written : Option Int := none
  deriving DecidableEq, Repr

/-- The result for a reply to a poll. -/
def pollResult (hasRoom : Bool) : Reply → PollResult
  | .deadline (.ok next) =>
    { code := .ok
      written := if hasRoom then some ((next.map Int.ofNat).getD (-1)) else none }
  | r => { code := codeOf r }

/-- Runs a poll cycle. -/
def poll (h : Handle) (hasRoom : Bool) : Call σ PollResult :=
  match h with
  | none => .done { code := .invalidArgument }
  | some _ => .ask .poll (pollResult hasRoom)

/-- A command that only needs a bridge. -/
def withBridge (h : Handle) (c : Bridge.Command σ) : Call σ Code :=
  match h with
  | none => invalid
  | some _ => askCode c

/-- Wakes the worker. -/
def signal (h : Handle) : Call σ Code := withBridge h .signal

/-- Stops the bridge. -/
def stop (h : Handle) : Call σ Code := withBridge h .stop

/-- Whether the bridge is running. -/
def isRunning (h : Handle) : Call σ Bool :=
  match h with
  | none => .done false
  | some _ =>
    .ask .state fun
      | .state s => s = .running
      | _ => false

/-- Stops the bridge and gives up its handle. -/
def destroy (h : Handle) : Call σ Unit :=
  match h with
  | none => .done ()
  | some _ => .ask .dispose fun _ => ()

/-! ### Requests -/

/-- The texts that all requests to a device have. -/
structure RequestTexts where
  identifier : CText
  path : CText
  query : CText
  tag : CText
  deriving DecidableEq, Repr

/-- Sends the request that `make` builds for a device and a resource. -/
def request (h : Handle) (t : RequestTexts) (hasRoom : Bool) (make : String → String → Request) :
    Call σ TokenResult :=
  match h, requiredText t.identifier, requiredText t.path, optionalText t.query,
    optionalText t.tag with
  | some _, some identifier, some path, some query, some tag =>
    askToken hasRoom
      (.submit (((make identifier path).withQuery (query.getD "")).withTag (tag.getD "")))
  | _, _, _, _, _ => invalidToken

/-- Asks for structured data. -/
def get (h : Handle) (t : RequestTexts) (hasRoom : Bool) : Call σ TokenResult :=
  request h t hasRoom .get

/-- Asks for a link listing. -/
def getLinks (h : Handle) (t : RequestTexts) (hasRoom : Bool) : Call σ TokenResult :=
  request h t hasRoom .getLinks

/-- Sends a body. -/
def post (h : Handle) (t : RequestTexts) (body : CBuffer) (hasRoom : Bool) : Call σ TokenResult :=
  match body.bytes? with
  | none => invalidToken
  | some bs => request h t hasRoom fun identifier path => .post identifier path bs

/-- Stores a body. -/
def put (h : Handle) (t : RequestTexts) (body : CBuffer) (hasRoom : Bool) : Call σ TokenResult :=
  match body.bytes? with
  | none => invalidToken
  | some bs => request h t hasRoom fun identifier path => .put identifier path bs

/-- Removes a resource. -/
def delete (h : Handle) (t : RequestTexts) (hasRoom : Bool) : Call σ TokenResult :=
  request h t hasRoom .delete

/-- Sends a discovery query, or that of the settings. -/
def discover (h : Handle) (scope : UInt8) (query : CText) (hasRoom : Bool) : Call σ TokenResult :=
  match h, optionalText query with
  | some settings, some query =>
    askToken hasRoom (.discover scope (query.getD settings.discoveryQuery))
  | _, _ => invalidToken

/-- Begins a handshake. -/
def handshake (h : Handle) (identifier password : CText) (hasRoom : Bool) : Call σ TokenResult :=
  match h, requiredText identifier, requiredText password with
  | some _, some identifier, some password => askToken hasRoom (.handshake identifier password)
  | _, _, _ => invalidToken

/-- Sends a group message. -/
def groupMessage (h : Handle) (scope : UInt8) (sender group : UInt32) (service : CText)
    (kind : UInt8) (value : CText) : Call σ Code :=
  match h, (requiredText service).bind GroupService.ofCode?,
    (requiredText value).bind (GroupValue.parse? kind) with
  | some _, some service, some value =>
    askCode (.groupMessage scope { sender, group, service, value })
  | _, _, _ => invalid

/-! ### Devices -/

/-- Enters a device. -/
def registerDevice (h : Handle) (identifier address : CText) : Call σ Code :=
  match h, requiredText identifier, requiredText address with
  | some _, some identifier, some address => askCode (.register identifier address)
  | _, _, _ => invalid

/-- Renames a device. -/
def setDeviceName (h : Handle) (identifier name : CText) : Call σ Code :=
  match h, requiredText identifier, requiredText name with
  | some _, some identifier, some name => askCode (.setName identifier name)
  | _, _, _ => invalid

/-- Sets the protection of a device. -/
def setDeviceSecure (h : Handle) (identifier : CText) (secure : Bool) : Call σ Code :=
  match h, requiredText identifier with
  | some _, some identifier => askCode (.setSecure identifier secure)
  | _, _ => invalid

/-- A command that returns a number, which is 0 without a bridge. -/
def askCount (h : Handle) (c : Bridge.Command σ) : Call σ Nat :=
  match h with
  | none => .done 0
  | some _ => .ask c countOf

/-- Counts the devices. -/
def deviceCount (h : Handle) : Call σ Nat := askCount h .deviceCount

/-- What a call that fills a buffer returns: its code and the bytes that were written. -/
structure CopyResult where
  code : Code
  written : Option Bytes := none
  deriving DecidableEq, Repr

/-- Copies a text and a zero byte into a buffer, if there is one and it is long enough. -/
def copyOut (s : String) (room : Option Nat) : CopyResult :=
  match room with
  | none => { code := .invalidArgument }
  | some n =>
    let bs := Utf8.encode s
    if n < bs.length + 1 then { code := .bufferTooSmall }
    else { code := .ok, written := some (bs ++ [0]) }

/-- Copies the identifier of the device at a position. -/
def deviceIdentifier (h : Handle) (index : Nat) (room : Option Nat) : Call σ CopyResult :=
  match h with
  | none => .done { code := .invalidArgument }
  | some _ =>
    .ask (.identifierAt index) fun
      | .identifier (some s) => copyOut s room
      | _ => { code := .notFound }

/-- Forgets all devices. -/
def clearDevices (h : Handle) : Call σ Code := withBridge h .clearDevices

/-! ### Limits, names and callbacks -/

/-- Changes the limit for payloads. -/
def setMaxPayload (h : Handle) (size : Nat) : Call σ Code := withBridge h (.setMaxPayload size)

/-- The limit for payloads. -/
def maxPayload (h : Handle) : Call σ Nat := askCount h .maxPayload

/-- Counts what is pending. -/
def pendingRequests (h : Handle) : Call σ Nat := askCount h .pendingCount

/-- Copies the name of the status with a number. -/
def statusName (status : Int32) (room : Option Nat) : CopyResult :=
  copyOut (Status.ofCode status).name room

/-- Queues what the engine reports, given where to. -/
def report (hasSink : Bool) (r : Report) : Call σ Bool :=
  match hasSink, r.event? with
  | true, some e =>
    .ask (.push e) fun
      | .flag b => b
      | _ => false
  | _, _ => .done false

/-- **Installs a set of callbacks,** which share one handler.  Categories without a callback keep
what they have; a set without any callback is refused. -/
def setCallbacks (h : Handle) (set : Option CallbackSet) (handler : Bridge.Handler σ)
    (next : Code → Bridge.Program σ) : Bridge.Program σ :=
  match h, set with
  | some _, some s =>
    if s.categories = [] then next .invalidArgument
    else .install s.categories handler fun _ => next .ok
  | _, _ => next .invalidArgument

/-- Installs callbacks, given a pointer to them. -/
def installCallbacks {υ : Type} (h : Handle)
    (callbacks : Option (Callbacks (Bridge.Command σ) Reply υ)) (next : Code → Bridge.Program σ) :
    Bridge.Program σ :=
  match callbacks with
  | some s => setCallbacks h (some s.set) s.handler next
  | none => next .invalidArgument

end KnxIoT.Host

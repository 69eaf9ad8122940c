import KnxIoT.Bridge.State
/-!
# The bridge: devices

Entering and changing devices by hand.
-/

namespace KnxIoT.Bridge

variable {σ : Type}

/-- Enters a device at an address, or moves it there. -/
def register (identifier address : String) (b : Bridge σ) : Except BridgeError Device × Bridge σ :=
  let u : DeviceUpdate :=
    { address := some address
      endpoint := some { Endpoint.unicast address with serial := some identifier } }
  match b.registry.upsert identifier u with
  | .ok (d, registry) => (.ok d, { b with registry })
  | .error e => (.error e, b)

/-- Whether a device may be renamed: it must be known. -/
def mayRename (identifier : String) (r : Registry) : Bool :=
  (r.find? identifier).isSome

/-- Writes a new display name. -/
def writeName (identifier name : String) (r : Registry) : Except BridgeError (Device × Registry) :=
  r.upsert identifier { name := some name }

/-- Sets the display name of a registered device. -/
def setName (identifier name : String) (b : Bridge σ) : Except BridgeError Unit × Bridge σ :=
  if mayRename identifier b.registry then
    match writeName identifier name b.registry with
    | .ok (_, registry) => (.ok (), { b with registry })
    | .error e => (.error e, b)
  else (.error (.unknownDevice identifier), b)

/-- Sets the protection of a registered device. -/
def setSecure (identifier : String) (secure : Bool) (b : Bridge σ) :
    Except BridgeError Unit × Bridge σ :=
  match b.registry.setSecure identifier secure with
  | (some _, registry) => (.ok (), { b with registry })
  | (none, registry) => (.error (.unknownDevice identifier), { b with registry })

/-- Forgets all devices. -/
def clearDevices (b : Bridge σ) : Bridge σ :=
  { b with registry := b.registry.clear }

end KnxIoT.Bridge

import KnxIoT.Endpoint
import KnxIoT.Error
/-!
# The device registry

The known devices, in the order in which they were first entered.  A device is found by its
identifier; its position is only good until the registry is cleared.
-/

namespace KnxIoT

/-- A remote device. -/
structure Device where
  /-- The serial number by which the device is known. -/
  identifier : String
  /-- Where the device was last seen. -/
  address : Option String := none
  name : String := ""
  endpoint : Endpoint := {}
  deriving DecidableEq, Repr, Inhabited

/-- How many characters of a display name are kept. -/
def Device.maxNameLength : Nat := 63

/-- What is to be written into a device; what is not given stays. -/
structure DeviceUpdate where
  address : Option String := none
  endpoint : Option Endpoint := none
  name : Option String := none
  deriving DecidableEq, Repr

namespace DeviceUpdate

/-- The endpoint after an update.  A given one takes the place of the old one; a new address alone
makes a new endpoint that keeps the protection and the serial number. -/
def endpointOf (u : DeviceUpdate) (old : Endpoint) : Endpoint :=
  match u.endpoint, u.address with
  | some e, _ => e
  | none, some a =>
    if old.address = a then old
    else { address := a, serial := old.serial, secure := old.secure }
  | none, none => old

/-- The device after an update. -/
def apply (u : DeviceUpdate) (d : Device) : Device :=
  { identifier := d.identifier
    address := u.address.or d.address
    name := (u.name.map fun s => String.ofList (s.toList.take Device.maxNameLength)).getD d.name
    endpoint := u.endpointOf d.endpoint }

end DeviceUpdate

/-- The known devices and how many there may be. -/
structure Registry where
  /-- The largest number of devices, or 0 for no limit. -/
  capacity : Nat := 0
  /-- The devices in the order of their first entry. -/
  devices : List Device := []
  deriving DecidableEq, Repr

namespace Registry

/-- Whether no further device can be entered. -/
def isFull (r : Registry) : Bool :=
  r.capacity != 0 && r.capacity ≤ r.devices.length

/-- The device with the given identifier. -/
def find? (r : Registry) (identifier : String) : Option Device :=
  r.devices.find? (·.identifier = identifier)

/-- The device at a position. -/
def at? (r : Registry) (index : Nat) : Option Device :=
  r.devices[index]?

/-- How many devices are known. -/
def count (r : Registry) : Nat :=
  r.devices.length

/-- The identifiers of all devices in order. -/
def identifiers (r : Registry) : List String :=
  r.devices.map (·.identifier)

/-- The registry with a changed device; the others stay as they are. -/
def modify (r : Registry) (identifier : String) (f : Device → Device) : Registry :=
  { r with devices := r.devices.map fun d => if d.identifier = identifier then f d else d }

/-- **Enters a device if it is new and then writes what is given.**  A full registry refuses new
devices only. -/
def upsert (r : Registry) (identifier : String) (u : DeviceUpdate) :
    Except BridgeError (Device × Registry) :=
  match r.find? identifier with
  | some d => .ok (u.apply d, r.modify identifier u.apply)
  | none =>
    if r.isFull then .error (.registryFull r.capacity)
    else
      let d := u.apply { identifier }
      .ok (d, { r with devices := r.devices ++ [d] })

/-- Sets the protection of a device. -/
def setSecure (r : Registry) (identifier : String) (secure : Bool) : Option Device × Registry :=
  let f (d : Device) : Device := { d with endpoint := { d.endpoint with secure } }
  ((r.find? identifier).map f, r.modify identifier f)

/-- The registry without any device. -/
def clear (r : Registry) : Registry :=
  { r with devices := [] }

end Registry

end KnxIoT

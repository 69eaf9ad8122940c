import KnxIoT.Text.Hex
/-!
# Endpoints

Where a request goes: one device, or a multicast group.
-/

namespace KnxIoT

/-- A connection descriptor. -/
structure Endpoint where
  address : String := ""
  /-- The engine's own mark for the connection. -/
  handle : UInt64 := 0
  serial : Option String := none
  /-- The multicast scope of a group. -/
  scope : Option UInt8 := none
  /-- Whether requests are protected by OSCORE. -/
  secure : Bool := false
  deriving DecidableEq, Repr, Inhabited

namespace Endpoint

/-- The port of CoAP. -/
def coapPort : Nat := 5683

/-- A single device, unprotected. -/
def unicast (address : String) : Endpoint :=
  { address }

/-- The group of all KNX nodes within a scope, whose low four bits stand in the address. -/
def allNodes (scope : UInt8) : Endpoint :=
  { address := "coap://[ff0" ++ String.singleton (Hex.digit (scope.toNat % 16)) ++ "::fd]:"
      ++ toString coapPort
    scope := some scope }

/-- Whether the endpoint is a group. -/
def isMulticast (e : Endpoint) : Bool :=
  e.scope.isSome

/-- The address, with a remark if requests are protected. -/
def describe (e : Endpoint) : String :=
  if e.secure then e.address ++ " (oscore)" else e.address

end Endpoint

end KnxIoT

import KnxIoT.Decimal.Read
import KnxIoT.Error
import KnxIoT.EventLoop
/-!
# Settings

What a bridge is told when it is made: the identity of the local device, limits, and how it behaves.
Settings come with defaults, can be overridden by environment variables, and are checked before use.
-/

namespace KnxIoT

/-- How long a discovery session lasts. -/
inductive DiscoveryMode where
  /-- The first reply ends it. -/
  | singleShot
  /-- It takes replies until the bridge stops. -/
  | continuous
  deriving DecidableEq, Repr

namespace DiscoveryMode

/-- Both modes. -/
def all : List DiscoveryMode := [.singleShot, .continuous]

/-- The word for a mode. -/
def name : DiscoveryMode → String
  | .singleShot => "single_shot"
  | .continuous => "continuous"

/-- The mode with the given word. -/
def ofName? (s : String) : Option DiscoveryMode :=
  all.find? (·.name = s)

end DiscoveryMode

/-- The identity of the local device. -/
structure Identity where
  manufacturer : String := "Cascoda"
  name : String := "py-client"
  version : String := "1.0.0"
  serialNumber : String := "012349"
  deriving DecidableEq, Repr, Inhabited

/-- The settings of a bridge. -/
structure Settings where
  /-- The identity used when a start names none. -/
  identity : Identity := {}
  /-- The longest payload, in bytes. -/
  maxPayloadSize : Nat := 16384
  /-- The capacity of the registry, or 0 for no limit. -/
  maxDevices : Nat := 50
  /-- How many requests may be pending, or 0 for no limit. -/
  maxPendingRequests : Nat := 256
  /-- The query of a discovery that names none. -/
  discoveryQuery : String := "rt=urn:knx:dpa.*"
  /-- The scope of a discovery that names none. -/
  discoveryScope : UInt8 := 2
  discoveryMode : DiscoveryMode := .singleShot
  threading : Threading := .worker
  /-- Whether newly discovered devices are protected. -/
  secureByDefault : Bool := true
  /-- Whether a request that is refused at once is also reported to the handler for responses. -/
  synthesizeRejections : Bool := false
  deriving DecidableEq, Repr, Inhabited

namespace Settings

/-- What is said about a payload limit of zero. -/
def zeroPayload : SettingsError := .invalid "max_payload_size must be > 0"

/-- **Checks the settings.**  The first fault counts. -/
def validate (s : Settings) : Except SettingsError Settings :=
  if s.maxPayloadSize = 0 then .error zeroPayload
  else if s.discoveryQuery = "" then .error (.invalid "discovery_query is empty")
  else if s.identity.serialNumber = "" then .error (.invalid "identity.serial_number is empty")
  else .ok s

/-- The largest size. -/
def maxSize : Nat := UInt64.size - 1

/-- Environment variables that override settings.  A variable that is not text counts as missing. -/
structure Overrides where
  maxPayload : Option String := none
  discoveryScope : Option String := none
  threading : Option String := none
  deriving DecidableEq, Repr

namespace Overrides

/-- The variable for the longest payload. -/
def maxPayloadVariable : String := "KNX_BRIDGE_MAX_PAYLOAD"

/-- The variable for the discovery scope. -/
def discoveryScopeVariable : String := "KNX_BRIDGE_DISCOVERY_SCOPE"

/-- The variable for who runs the poll cycles. -/
def threadingVariable : String := "KNX_BRIDGE_THREADING"

/-- The overrides in an environment. -/
def ofEnvironment (get : String → Option String) : Overrides :=
  { maxPayload := get maxPayloadVariable
    discoveryScope := get discoveryScopeVariable
    threading := get threadingVariable }

end Overrides

/-- A payload limit, which must be positive. -/
def readMaxPayload? (s : String) : Option Nat :=
  (Decimal.readBounded? maxSize s.toList).filter (0 < ·)

/-- A multicast scope. -/
def readScope? (s : String) : Option UInt8 :=
  (Decimal.readBounded? 255 s.toList).map UInt8.ofNat

/-- Who runs the poll cycles, in letters of either case. -/
def readThreading? (s : String) : Option Threading :=
  Threading.ofName? (String.ofList (s.toList.map Decimal.lowerAscii))

/-- **The settings with overrides.**  One that cannot be read changes nothing. -/
def override (s : Settings) (o : Overrides) : Settings :=
  { s with
    maxPayloadSize := (o.maxPayload.bind readMaxPayload?).getD s.maxPayloadSize
    discoveryScope := (o.discoveryScope.bind readScope?).getD s.discoveryScope
    threading := (o.threading.bind readThreading?).getD s.threading }

end Settings

end KnxIoT

import KnxIoT.LinkFormat
/-!
# Discovery: endpoint markers

A link of a discovery reply may carry an endpoint marker, a parameter whose value is a fixed
beginning followed by the serial number of a device.
-/

namespace KnxIoT.Discovery

/-- What precedes the serial number in a marker. -/
def serialPrefix : String := "urn:knx:sn."

/-- The parameter that carries the marker. -/
def markerParam : String := "ep"

/-- The serial number in a marker, if it has one: the rest after the fixed beginning, without blanks
at its ends, unless that is empty. -/
def serialOfMarker? (marker : String) : Option String :=
  ((Text.dropStart? serialPrefix.toList marker.toList).map Text.trim).filter (· ≠ [])
    |>.map String.ofList

/-- **The serial numbers that a reply announces,** in the order of its links. -/
def serialsIn (reply : String) : List String :=
  ((LinkFormat.parse reply).filterMap (·.param? markerParam)).filterMap serialOfMarker?

end KnxIoT.Discovery

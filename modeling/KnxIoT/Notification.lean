import KnxIoT.Payload
import KnxIoT.Status
/-!
# Notifications

What a bridge tells its callers, and the categories under which handlers are installed for it.
-/

namespace KnxIoT

/-- The categories of notifications. -/
inductive Category where
  | stateChanged
  | resourceChanged
  | clientResponse
  | discoveryResult
  | handshakeResult
  | gatewayNotification
  deriving DecidableEq, Repr

namespace Category

/-- All categories, in their fixed order. -/
def all : List Category :=
  [stateChanged, resourceChanged, clientResponse, discoveryResult, handshakeResult,
    gatewayNotification]

/-- The name of a category. -/
def name : Category → String
  | stateChanged => "state-changed"
  | resourceChanged => "resource-changed"
  | clientResponse => "client-response"
  | discoveryResult => "discovery-result"
  | handshakeResult => "handshake-result"
  | gatewayNotification => "gateway-notification"

end Category

/-- A notification. -/
inductive Notification where
  | stateChanged (identifier address change : String)
  | resourceChanged (anchor uri : String) (types interfaces : List String)
  | clientResponse (identifier : String) (status : Status) (format : TextFormat)
      (tag path payload : String)
  /-- A reply to a discovery query, as it came. -/
  | discoveryResult (payload : String)
  | handshakeResult (identifier : String) (status : Int32) (identity secret : Bytes)
  /-- A group message arrived; its text is JSON. -/
  | gatewayNotification (sender payload : String)
  deriving DecidableEq, Repr

/-- The category of a notification. -/
def Notification.category : Notification → Category
  | .stateChanged .. => .stateChanged
  | .resourceChanged .. => .resourceChanged
  | .clientResponse .. => .clientResponse
  | .discoveryResult .. => .discoveryResult
  | .handshakeResult .. => .handshakeResult
  | .gatewayNotification .. => .gatewayNotification

/-- The device that a notification names. -/
def Notification.identifier? : Notification → Option String
  | .stateChanged identifier .. => some identifier
  | .clientResponse identifier .. => some identifier
  | .handshakeResult identifier .. => some identifier
  | _ => none

end KnxIoT

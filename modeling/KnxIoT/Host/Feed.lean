import KnxIoT.Engine
import KnxIoT.Host.Argument
import KnxIoT.Text.Blank
/-!
# Host programs: reporting events

How a host's engine reports what it has to tell.  Each report is checked first: a buffer with a
length needs a pointer, texts must be UTF-8, and the sender of a discovery reply or of a group
message must be named.  A report that fails is not queued.
-/

namespace KnxIoT.Host

/-- A report with its arguments. -/
inductive Report where
  | response (token : UInt64) (status : Int32) (format : UInt16) (payload : CBuffer)
      (source : CText)
  | discoveryReply (token : UInt64) (payload : CBuffer) (source : CText) (handle : UInt64)
  | handshakeResult (token : UInt64) (status : Int32) (identity secret : CBuffer)
  | gatewayNotification (sender : CText) (payload : CBuffer)
  /-- A changed resource; its types and interfaces are words. -/
  | resourceChanged (anchor uri types interfaces : CText)
  deriving DecidableEq, Repr

/-- The words of a text that may be missing. -/
def wordsOf (s : Option String) : List String :=
  (Text.words (s.getD "").toList).map String.ofList

/-- **The event that a report stands for,** if its arguments are good. -/
def Report.event? : Report → Option EngineEvent
  | .response token status format payload source => do
    let payload ← payload.bytes?
    let source ← optionalText source
    pure (.response ⟨token⟩ (.ofCode status) (.ofNumber format) payload
      (source.map Endpoint.unicast))
  | .discoveryReply token payload source handle => do
    let payload ← payload.bytes?
    let source ← requiredText source
    pure (.discoveryReply ⟨token⟩ payload { Endpoint.unicast source with handle })
  | .handshakeResult token status identity secret => do
    let identity ← identity.bytes?
    let secret ← secret.bytes?
    pure (.handshakeResult ⟨token⟩ status identity secret)
  | .gatewayNotification sender payload => do
    let sender ← requiredText sender
    let payload ← payload.bytes?
    pure (.gatewayNotification sender payload)
  | .resourceChanged anchor uri types interfaces => do
    let anchor ← optionalText anchor
    let uri ← optionalText uri
    let types ← optionalText types
    let interfaces ← optionalText interfaces
    pure (.resourceChanged (anchor.getD "") (uri.getD "") (wordsOf types) (wordsOf interfaces))

end KnxIoT.Host

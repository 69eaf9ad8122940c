import KnxIoT.Dispatch.Machine
/-!
# Dispatch: direct delivery

A system whose only command is to deliver a notification.  The reply says whether there was a
handler.
-/

namespace KnxIoT.Dispatch

/-- The system that delivers notifications. -/
def direct : System Unit Notification Unit Bool Empty :=
  { start := fun _ n s => { state := s, outcome := .notify n () }
    proceed := fun _ delivered s => { state := s, outcome := .reply delivered } }

end KnxIoT.Dispatch

import KnxIoT.Dispatch.Handler
import KnxIoT.Host.Argument
import KnxIoT.Notification
/-!
# Host programs: callbacks

The callbacks of a host program and what they are given.  Texts lose their zero characters, the size
of a payload is that of the text handed over, and an empty buffer comes without a pointer.

The callbacks that are set together are kept together, with their user data, in one handler.
-/

namespace KnxIoT.Host

/-- A call of a callback. -/
inductive CallbackCall where
  | stateChanged (identifier address change : String)
  /-- A resource changed; its types and interfaces are separated by spaces. -/
  | resourceChanged (anchor uri types interfaces : String)
  | clientResponse (identifier : String) (status : Int32) (format tag path : String) (size : Nat)
      (payload : String)
  | discoveryResult (size : Nat) (payload : String)
  | handshakeResult (identifier : String) (status : Int32) (identity secret : Option Bytes)
  | gatewayNotification (sender : String) (size : Nat) (payload : String)
  deriving DecidableEq, Repr

/-- A buffer for a callback: no pointer to no bytes. -/
def bufferOf (bs : Bytes) : Option Bytes :=
  if bs = [] then none else some bs

/-- **What the callback for a notification is given.** -/
def CallbackCall.ofNotification : Notification → CallbackCall
  | .stateChanged identifier address change =>
    .stateChanged (plainText identifier) (plainText address) (plainText change)
  | .resourceChanged anchor uri types interfaces =>
    .resourceChanged (plainText anchor) (plainText uri) (plainText (" ".intercalate types))
      (plainText (" ".intercalate interfaces))
  | .clientResponse identifier status format tag path payload =>
    let body := plainText payload
    .clientResponse (plainText identifier) status.code (plainText format.name) (plainText tag)
      (plainText path) (Utf8.size body) body
  | .discoveryResult payload =>
    let body := plainText payload
    .discoveryResult (Utf8.size body) body
  | .handshakeResult identifier status identity secret =>
    .handshakeResult (plainText identifier) status (bufferOf identity) (bufferOf secret)
  | .gatewayNotification sender payload =>
    let body := plainText payload
    .gatewayNotification (plainText sender) (Utf8.size body) body

/-- The identifier of a device that a callback is given. -/
def CallbackCall.identifier? : CallbackCall → Option String
  | .stateChanged identifier _ _ => some identifier
  | .clientResponse identifier .. => some identifier
  | .handshakeResult identifier .. => some identifier
  | _ => none

/-- A set of callbacks: the categories for which one is given. -/
structure CallbackSet where
  /-- Whether there is a callback for a category. -/
  given : Category → Bool

/-- The categories with a callback, in their order. -/
def CallbackSet.categories (s : CallbackSet) : List Category :=
  Category.all.filter s.given

/-- Callbacks as a host hands them over, at most one for each category, with the user data that is
passed to each of them.  What a callback does may also depend on how often those of its set have
been called before. -/
structure Callbacks (κ ρ υ : Type) where
  label : String
  function : Category → Option (Nat → CallbackCall → υ → Program κ ρ)
  userData : υ

namespace Callbacks

variable {κ ρ υ : Type}

/-- The categories for which a callback is given. -/
def set (s : Callbacks κ ρ υ) : CallbackSet :=
  ⟨fun c => (s.function c).isSome⟩

/-- Forwards a notification to the callback for its category. -/
def onNotification (s : Callbacks κ ρ υ) (times : Nat) (x : Notification) : Program κ ρ :=
  match s.function x.category with
  | some f => f times (.ofNotification x) s.userData
  | none => .done

/-- The handler that all of them share. -/
def handler (s : Callbacks κ ρ υ) : Handler κ ρ :=
  .mk s.label s.onNotification

end Callbacks

end KnxIoT.Host

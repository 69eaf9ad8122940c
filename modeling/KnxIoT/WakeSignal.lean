/-!
# The wake signal

A latch that wakes a waiting worker.  A notification is latched, so one that arrives while nobody
waits is found by the next wait.  A waiter takes the latch at once, or parks and takes it when it is
roused.  The steps that are atomic when several threads use the signal are functions of their own.
-/

namespace KnxIoT

/-- A latch and whether its waiter is parked. -/
structure WakeSignal where
  latched : Bool := false
  parked : Bool := false
  deriving DecidableEq, Repr

/-- How a wait ends. -/
inductive WakeReason where
  | signaled
  | deadline
  deriving DecidableEq, Repr

namespace WakeSignal

/-- Latches a notification. -/
def latch (w : WakeSignal) : WakeSignal :=
  { w with latched := true }

/-- Takes the latch, and tells whether there was something to take. -/
def consume (w : WakeSignal) : Bool × WakeSignal :=
  (w.latched, { w with latched := false })

theorem consume_of_latched (w : WakeSignal) (h : w.latched = true) :
    w.consume = (true, { w with latched := false }) := by
  simp [consume, h]

theorem consume_of_not_latched (w : WakeSignal) (h : w.latched = false) :
    w.consume = (false, w) := by
  cases w
  simp_all [consume]

/-- Marks the waiter as parked or not. -/
def park (w : WakeSignal) (parked : Bool) : WakeSignal :=
  { w with parked }

/-- A notification: it is latched, and a parked waiter has to be roused. -/
def notify (w : WakeSignal) : Bool × WakeSignal :=
  (w.parked, w.latch)

/-- **A wait during which nothing is notified.**  A latched notification ends it at once; otherwise
it ends with its deadline, or not at all. -/
def wait (w : WakeSignal) (hasDeadline : Bool) : Option WakeReason × WakeSignal :=
  match w.consume with
  | (true, w) => (some .signaled, w)
  | (false, w) => (if hasDeadline then some .deadline else none, w)

end WakeSignal

end KnxIoT

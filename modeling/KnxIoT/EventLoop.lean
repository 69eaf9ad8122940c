import KnxIoT.Error
import KnxIoT.WakeSignal
/-!
# The event loop

The life of the loop that drives the engine: stopped, running, draining, stopped again.  The quit
flag is set once and for ever.  In worker mode a thread of its own runs the poll cycles and waits
for the wake signal between them; otherwise the host runs them.  The parts of stopping that are
atomic when several threads use the loop are functions of their own.
-/

namespace KnxIoT

/-- Who runs the poll cycles. -/
inductive Threading where
  | worker
  | cooperative
  deriving DecidableEq, Repr

namespace Threading

/-- Both ways. -/
def all : List Threading := [.worker, .cooperative]

/-- The word for a way. -/
def name : Threading → String
  | .worker => "worker"
  | .cooperative => "cooperative"

/-- The way with the given word. -/
def ofName? (s : String) : Option Threading :=
  all.find? (·.name = s)

end Threading

/-- Where a loop is in its life. -/
inductive LoopState where
  | stopped
  | running
  | draining
  deriving DecidableEq, Repr

namespace LoopState

/-- All states. -/
def all : List LoopState := [stopped, running, draining]

/-- The name of a state. -/
def name : LoopState → String
  | stopped => "stopped"
  | running => "running"
  | draining => "draining"

/-- The name of a state in a description of the loop. -/
def label : LoopState → String
  | stopped => "Stopped"
  | running => "Running"
  | draining => "Draining"

end LoopState

/-- What the worker is doing. -/
inductive Worker where
  | absent
  /-- It is about to run a poll cycle. -/
  | due
  /-- It waits for the wake signal, with or without a deadline. -/
  | waiting (hasDeadline : Bool)
  | gone
  deriving DecidableEq, Repr

/-- The state of an event loop. -/
structure EventLoop where
  state : LoopState := .stopped
  /-- Whether the loop was told to stop. -/
  quit : Bool := false
  worker : Worker := .absent
  deriving DecidableEq, Repr

namespace EventLoop

/-- The name of the worker's thread. -/
def workerName : String := "knx-bridge-event"

/-- Whether the loop accepts work. -/
def isRunning (l : EventLoop) : Bool :=
  l.state = .running

/-- **Starts the loop,** once, and not after it was told to stop. -/
def start (l : EventLoop) (threading : Threading) : Except BridgeError EventLoop :=
  if l.quit then .error .shutDown
  else if l.state ≠ .stopped then .error .alreadyRunning
  else
    .ok
      { l with
        state := .running
        worker := if threading = .worker then .due else l.worker }

/-- Whether a signal reaches the worker: only while the loop runs. -/
def passesSignal (l : EventLoop) : Bool :=
  !l.quit && l.isRunning

/-- Wakes the worker if the loop runs. -/
def signal (l : EventLoop) (w : WakeSignal) : WakeSignal :=
  if l.passesSignal then w.latch else w

/-- Sets the quit flag, and tells whether it was set before. -/
def requestQuit (l : EventLoop) : Bool × EventLoop :=
  (l.quit, { l with quit := true })

/-- The loop accepts no more work. -/
def drain (l : EventLoop) : EventLoop :=
  { l with state := .draining }

/-- The worker has been joined. -/
def join (l : EventLoop) : EventLoop :=
  { l with worker := if l.worker = .absent then .absent else .gone }

/-- The loop has ended. -/
def finish (l : EventLoop) : EventLoop :=
  { l with state := .stopped }

/-- A waiting worker takes a latched notification before anything else happens. -/
def wake (l : EventLoop) (w : WakeSignal) : EventLoop × WakeSignal :=
  match l.worker with
  | .waiting _ => match w.consume with
    | (true, w) => ({ l with worker := .due }, w)
    | (false, w) => (l, w)
  | _ => (l, w)

/-- **Stops the loop.**  The first call does it and the result says so; later ones change nothing.
The notification that ends the worker's wait stays latched if no worker takes it. -/
def stop (l : EventLoop) (w : WakeSignal) : Bool × EventLoop × WakeSignal :=
  match l.requestQuit with
  | (true, l) => (false, l, w)
  | (false, l) =>
    let (l, w) := l.drain.wake w.latch
    (true, l.join.finish, w)

/-- What the worker does after a poll cycle: it ends if the loop was told to stop, and waits
otherwise.  A latched notification ends the wait at once. -/
def afterCycle (l : EventLoop) (w : WakeSignal) (hasDeadline : Bool) : EventLoop × WakeSignal :=
  if l.quit then ({ l with worker := .gone }, w)
  else ({ l with worker := .waiting hasDeadline } : EventLoop).wake w

/-- The loop described for a reader. -/
def describe (l : EventLoop) : String :=
  "EventLoop \x7b state: " ++ l.state.label ++ ", quit: " ++ toString l.quit ++ " \x7d"

end EventLoop

end KnxIoT

import KnxIoT.EventLoop
/-!
# A counting loop

An event loop on its own, whose poll cycles do nothing but count.  The worker runs between the calls
until it waits for more.
-/

namespace KnxIoT.Bench

/-- An event loop with its signal and the number of its poll cycles. -/
structure CountingLoop where
  loop : EventLoop := {}
  wake : WakeSignal := {}
  polls : Nat := 0
  /-- Whether every poll cycle fails, which ends the worker. -/
  fails : Bool := false
  /-- Whether every poll cycle asks for another one after a while. -/
  hasDeadline : Bool := false
  deriving DecidableEq, Repr

namespace CountingLoop

/-- A worker that is due runs one cycle. -/
def cycle (c : CountingLoop) : CountingLoop :=
  if c.loop.worker = .due then
    let c := { c with polls := c.polls + 1 }
    if c.fails then { c with loop := { c.loop with worker := .gone } }
    else
      let (loop, wake) := c.loop.afterCycle c.wake c.hasDeadline
      { c with loop, wake }
  else c

/-- Lets the worker run until it waits.  The signal is latched once at most, so there are two cycles
at most. -/
def settle (c : CountingLoop) : CountingLoop :=
  let (loop, wake) := c.loop.wake c.wake
  ({ c with loop, wake } : CountingLoop).cycle.cycle

/-- Starts the loop. -/
def start (c : CountingLoop) (threading : Threading) : Except BridgeError Unit × CountingLoop :=
  match c.loop.start threading with
  | .ok loop => (.ok (), ({ c with loop } : CountingLoop).settle)
  | .error e => (.error e, c)

/-- Wakes the worker. -/
def signal (c : CountingLoop) : CountingLoop :=
  ({ c with wake := c.loop.signal c.wake } : CountingLoop).settle

/-- Stops the loop. -/
def stop (c : CountingLoop) : Bool × CountingLoop :=
  let (done, loop, wake) := c.loop.stop c.wake
  (done, { c with loop, wake })

/-- Lets time pass until a deadline of the worker is reached. -/
def passDeadline (c : CountingLoop) : CountingLoop :=
  if c.loop.worker = .waiting true then
    ({ c with loop := { c.loop with worker := .due } } : CountingLoop).settle
  else c

/-- Lets so many deadlines pass. -/
def passDeadlines (c : CountingLoop) : Nat → CountingLoop
  | 0 => c
  | n + 1 => (c.passDeadlines n).passDeadline

end CountingLoop

end KnxIoT.Bench

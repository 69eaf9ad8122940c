import KnxIoT.Bridge.Command
/-!
# The bridge: the worker

A bridge with a worker between the calls of its callers: the worker runs poll cycles as long as it
is woken, and then waits.
-/

namespace KnxIoT.Bridge

variable {σ : Type}

/-- The machine after its program has come to an end. -/
def runToEnd (eng : Engine σ) (m : Machine σ) : Machine σ :=
  m.run (system eng) 1000000000

/-- Lets the worker take a latched notification. -/
def wakeWorker (m : Machine σ) : Machine σ :=
  let (loop, wake) := m.state.loop.wake m.state.wake
  { m with state := { m.state with loop, wake } }

/-- Whether the worker runs a cycle next.  A worker that waits is woken as long as the engine has
something in store. -/
def workerGoesOn (inStore : σ → Bool) (b : Bridge σ) : Bool :=
  match b.loop.worker with
  | .due => true
  | .waiting _ => inStore b.engine
  | _ => false

/-- **Lets the worker run** until it would wait for more, for at most so many cycles. -/
def runWorker (eng : Engine σ) (inStore : σ → Bool) : (cycles : Nat) → Machine σ → Machine σ
  | 0, m => m
  | cycles + 1, m =>
    let m := wakeWorker m
    if workerGoesOn inStore m.state then
      let m := { m with state.loop.worker := .due }
      runWorker eng inStore cycles (runToEnd eng (m.load (.command .cycle fun _ => .done)))
    else m

end KnxIoT.Bridge

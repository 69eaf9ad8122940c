import KnxIoT.Bridge.Worker
/-!
# Sessions

Trying out a bridge: programs are run on it one after the other, and after each of them the worker
is given the time it wants.
-/

namespace KnxIoT.Bench

variable {σ : Type}

/-- A bridge with its engine and the machine that runs programs on it. -/
structure Session (σ : Type) where
  engine : Engine σ
  /-- Whether another poll would bring something forth. -/
  inStore : σ → Bool
  /-- Whether the owner of the bridge has let it go. -/
  letGo : σ → Bool := fun _ => false
  /-- The machine, with the trace of the last run. -/
  machine : Bridge.Machine σ

namespace Session

/-- The bridge as it is now. -/
def bridge (s : Session σ) : Bridge σ :=
  s.machine.state

/-- Whether the host runs the poll cycles. -/
def isCooperative (s : Session σ) : Bool :=
  s.bridge.settings.threading = .cooperative

/-- The session with an empty trace. -/
def quiet (s : Session σ) : Session σ :=
  { s with machine := { s.machine with trace := [] } }

/-- The remark at the end of a trace and what comes before it. -/
def splitResult (trace : List (Bridge.Entry σ)) : Option String × List (Bridge.Entry σ) :=
  match trace.getLast? with
  | some (.remarked text) => (some text, trace.dropLast)
  | _ => (none, trace)

/-- Goes on with a program. -/
def goOn (s : Session σ) (p : Bridge.Program σ) : Session σ :=
  { s with machine := Bridge.runToEnd s.engine (s.machine.load p) }

/-- Gives the worker the time it wants, if there is one. -/
def rest (s : Session σ) : Session σ :=
  if s.isCooperative then s
  else { s with machine := Bridge.runWorker s.engine s.inStore 1000000 s.machine }

/-- Disposes of a bridge that its owner has let go.  What was under way when that happened has come
to its end before. -/
def release (s : Session σ) : Session σ :=
  if s.letGo s.bridge.engine then s.goOn (.command .dispose fun _ => .done) else s

/-- **Runs a program and then the worker.**  If the program ends with a remark, that is its result
and not part of the trace. -/
def run (s : Session σ) (p : Bridge.Program σ) : Option String × Session σ :=
  let s := s.quiet.goOn p
  let (result, trace) := splitResult s.machine.trace
  let s := { s with machine := { s.machine with trace } }
  (result, s.rest.release)

end Session

end KnxIoT.Bench

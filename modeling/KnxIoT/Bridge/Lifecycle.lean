import KnxIoT.Bridge.Events
/-!
# The bridge: its life

Starting, polling and stopping.  The engine begins once at most and ends once at most; a bridge that
was stopped never starts again.
-/

namespace KnxIoT.Bridge

variable {σ : Type}

/-- Ends the engine if it is live; from then on it cannot be called. -/
def release (eng : Engine σ) (b : Bridge σ) : Bridge σ :=
  let b := if b.phase = .live then (b.callEngine eng .shutdown).2 else b
  { b with phase := .released }

/-- Throws away the queued events. -/
def discardQueue (b : Bridge σ) : Bridge σ :=
  { b.note (b.queue.events.map .discarded) with queue := { b.queue with events := [] } }

/-- Sets the quit flag and ends the event loop; tells whether this call did it. -/
def stopLoop (b : Bridge σ) : Bool × Bridge σ :=
  let (done, loop, wake) := b.loop.stop b.wake
  (done, { b with loop, wake })

/-- What stopping does after the event loop has ended: the engine ends, and what is pending, queued
or registered is given up. -/
def finishStop (eng : Engine σ) (b : Bridge σ) : Bridge σ :=
  let b := b.release eng
  let b := { b with correlator := b.correlator.abandonAll }
  let b := b.discardQueue
  { b with registry := b.registry.clear }

/-- **Stops the bridge for good.**  Later calls have no effect. -/
def stop (eng : Engine σ) (b : Bridge σ) : Bridge σ :=
  match b.stopLoop with
  | (true, b) => b.finishStop eng
  | (false, b) => b

/-- Makes a live engine out of one that has begun: it is told the limit for payloads. -/
def goLive (eng : Engine σ) (b : Bridge σ) : Bridge σ :=
  { (b.callEngine eng (.setMaxPayload b.maxPayload)).2 with phase := .live }

/-- Starts the event loop; if that fails the engine ends again. -/
def startLoop (eng : Engine σ) (b : Bridge σ) : Except BridgeError Unit × Bridge σ :=
  match b.loop.start b.settings.threading with
  | .ok loop => (.ok (), { b with loop })
  | .error e => (.error e, b.release eng)

/-- Why the engine cannot begin. -/
def startRefusal? (b : Bridge σ) : Option BridgeError :=
  if b.loop.quit then some .shutDown
  else match b.phase with
    | .live => some .alreadyRunning
    | .released => some .shutDown
    | .idle => none

/-- **Starts the engine and the event loop.**  When another caller stops the bridge while the engine
begins, the loop does not start, the engine ends again and the stop is completed. -/
def start (eng : Engine σ) (identity : Option Identity) (b : Bridge σ) :
    Except BridgeError Unit × Bridge σ :=
  match b.startRefusal? with
  | some e => (.error e, b)
  | none =>
    match b.callEngine eng (.init (identity.getD b.settings.identity)) with
    | (.failed e, b) => (.error e, b)
    | (.ready, b) => (b.goLive eng).startLoop eng
    | (.readyButStopped, b) =>
      let (result, b) := (b.stopLoop.2.goLive eng).startLoop eng
      (result, b.finishStop eng)

/-- One poll cycle: the engine goes on, and then the queued events are handled. -/
def pollCycle (eng : Engine σ) (finish : Option Nat → CycleEnd) (b : Bridge σ) : Piece σ :=
  if b.phase = .live then
    let (next, b) := b.callEngine eng .poll
    b.drain (finish next)
  else b.endCycle (finish none)

/-- **One poll cycle of the host,** which only a bridge without a worker allows. -/
def poll (eng : Engine σ) (b : Bridge σ) : Piece σ :=
  if !b.loop.isRunning then
    (b, .reply (.deadline (.error (if b.loop.quit then .shutDown else .notRunning))))
  else if b.settings.threading = .worker then
    (b, .reply (.deadline (.error .workerDriven)))
  else b.pollCycle eng fun next => .reply (.deadline (.ok next))

/-- **One poll cycle of the worker.**  A worker that finds the quit flag set ends instead. -/
def workerCycle (eng : Engine σ) (b : Bridge σ) : Piece σ :=
  if b.loop.quit then b.endCycle (.wait none) else b.pollCycle eng .wait

/-- Changes the limit for payloads, which must be positive; a live engine is told at once. -/
def setMaxPayload (eng : Engine σ) (size : Nat) (b : Bridge σ) :
    Except BridgeError Unit × Bridge σ :=
  if size = 0 then (.error (.settings Settings.zeroPayload), b)
  else
    let b := { b with maxPayload := size }
    match b.callLive eng (.setMaxPayload size) with
    | .ok ((), b) => (.ok (), b)
    | .error _ => (.ok (), b)

/-- Stops the bridge and closes its queue, as nobody is left to use it. -/
def dispose (eng : Engine σ) (b : Bridge σ) : Bridge σ :=
  let b := (b.stop eng).discardQueue
  { b with queue := { b.queue with closed := true } }

end KnxIoT.Bridge

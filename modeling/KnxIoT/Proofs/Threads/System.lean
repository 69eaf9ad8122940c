import KnxIoT.Bench.ScriptedEngine
import KnxIoT.Bridge.Command
import Mathlib.Data.Nat.Notation
import Mathlib.Logic.Function.Basic

/-! # A bridge used by several threads

Any number of calls, each of them somewhere on its way, share a bridge with the worker. What is one
step here is one section under a lock, one access to an atomic flag, or one transfer through the
queue:

* a call stands at a program point (`Pc`) and, before it leaves it, works off its *chores*, which
  all have to do with waking the worker: a notification is latched, then the flag of the sleeper is
  looked at under its mutex, then a parked sleeper is roused;
* the worker stands at a `Place` of its loop and has chores too, for what the engine queues while
  the worker polls;
* starting the loop holds the lock of its state over several steps, so that lock has an owner; the
  mutex of the sleeper is held by the worker at the places that are `locked`; all other sections are
  one step each.

A call that a handler makes is a call like any other, also when its handler runs on the worker. So
more orders are allowed here than a scheduler can produce. `Sys.move` is one step, and `Sys.run` a
schedule of them. -/

namespace KnxIoT

/-- What asks the engine to send something. -/
def EngineCall.Asks : EngineCall → Prop
  | .submit _ | .discover .. | .handshake .. => True
  | _ => False

/-- The token under which the engine is asked to send something. -/
def EngineCall.token? : EngineCall → Option Token
  | .submit r => r.token
  | .discover _ _ t => some t
  | .handshake _ _ _ t => some t
  | _ => none

/-- Whether the engine took what it was asked to send. -/
def EngineCall.accepts : (c : EngineCall) → c.Answer → Bool
  | .submit _, a => a
  | .discover .., a => a
  | .handshake .., a => a
  | _, _ => false

/-- Why the engine did not begin. That another caller stops the bridge meanwhile is no failure. -/
def InitAnswer.failure? : InitAnswer → Option BridgeError
  | .failed e => some e
  | _ => none

namespace Threads

variable {σ : Type}

/-! ## What the threads do -/

/-- What the worker is woken for. -/
inductive Cause where
  | event
  | request
  | stop
  deriving DecidableEq, Repr

/-- What a thread has to do for the worker before it goes on. -/
inductive Chore where
  | send (e : EngineEvent)
  -- the two reads that decide whether a signal is passed on
  | signal
  | ifRunning
  -- the loop takes no more work, which a stop tells before it notifies
  | drain
  -- the three parts of a notification
  | latch (c : Cause)
  | look (c : Cause)
  | rouse (c : Cause)
  deriving DecidableEq

/-- What the worker is woken for by a chore. -/
def Chore.cause? : Chore → Option Cause
  | .signal | .ifRunning => some .request
  | .latch c | .look c | .rouse c => some c
  | _ => none

/-- What is left to be done of the queued events. -/
inductive Serving where
  | drain
  | event (e : EngineEvent)
  | announce (token : Token) (found : ℕ) (serials : List String) (source : Endpoint) (text : String)

/-- Where the worker is in its loop, with the time at which the engine wants to be polled again. -/
inductive Place where
  | absent
  | check
  | cycle
  | serving (s : Serving) (next : Option ℕ)
  | recheck (next : Option ℕ)
  | swap (next : Option ℕ)
  | enter (next : Option ℕ)
  | scan (next : Option ℕ)
  | decide (next : Option ℕ)
  | parked (next : Option ℕ)
  | roused (next : Option ℕ)
  | leave
  | ended

/-- Something for the engine to send, with its token if an outcome is expected. -/
structure Errand where
  call : EngineCall
  token : Option Token
  word : Submission
  asks : call.Asks

/-- Something to be sent as soon as it has a token. -/
inductive Wish where
  | request (r : Request) (d : Device)
  | discovery (scope : UInt8) (query : String)
  | handshake (identifier password : String) (endpoint : Endpoint)

/-- Starting: the quit flag is read, then the engine begins, then the loop does. -/
inductive StartPc where
  | check (identity : Option Identity)
  | begin (identity : Option Identity)
  | enter
  | read
  | spawn
  | run
  | release (e : BridgeError)

/-- Stopping, on the worker or not. A stop at `done` has ended the bridge and returned. -/
inductive StopPc where
  | swap (onWorker : Bool)
  | join (onWorker : Bool)
  | finish
  | release
  | abandon
  | discard
  | clear
  | done

/-- A request on its way to the engine. -/
inductive RequestPc where
  | size (r : Request)
  | find (r : Request)
  | peer (identifier password : String)
  | group (scope : UInt8) (m : GroupMessage)
  | issue (w : Wish)
  | put (e : Errand)
  | giveUp (t : Token) (r : Reply)

/-- A poll cycle of the host. -/
inductive PollPc where
  | state
  | quit
  | cycle
  | serve (s : Serving) (next : Option ℕ)

/-- Changing the limit for payloads. -/
inductive LimitPc where
  | store (size : ℕ)
  | tell (size : ℕ)

/-- Where a call is. -/
inductive Pc where
  | idle
  | start (p : StartPc)
  | stop (p : StopPc)
  | request (p : RequestPc)
  | poll (p : PollPc)
  | limit (p : LimitPc)
  | push (e : EngineEvent)
  | edit (f : Registry → Registry)
  | returned (r : Reply)

/-- What a caller or a producer of events can call. Entering and changing devices by hand is any
change of the registry. -/
inductive Call where
  | start (identity : Option Identity)
  | stop (onWorker : Bool)
  | submit (r : Request)
  | discover (scope : UInt8) (query : String)
  | handshake (identifier password : String)
  | groupMessage (scope : UInt8) (m : GroupMessage)
  | setMaxPayload (size : ℕ)
  | poll
  | signal
  | push (e : EngineEvent)
  | edit (f : Registry → Registry)

/-- Where a call begins, and with which chores. -/
def Call.entry : Call → List Chore × Pc
  | .start identity => ([], .start (.check identity))
  | .stop onWorker => ([], .stop (.swap onWorker))
  | .submit r => ([], .request (.size r))
  | .discover scope query => ([], .request (.issue (.discovery scope query)))
  | .handshake identifier password => ([], .request (.peer identifier password))
  | .groupMessage scope m => ([], .request (.group scope m))
  | .setMaxPayload size => ([], .limit (.store size))
  | .poll => ([], .poll .state)
  | .signal => ([.signal], .returned (.unit (.ok ())))
  | .push e => ([], .push e)
  | .edit f => ([], .edit f)

/-- What all threads share. `polled` is how long the log was right after the latest poll of the
worker. -/
structure Core (σ : Type) where
  bridge : Bridge σ
  owner : Option ℕ := none
  place : Place := .absent
  polled : ℕ := 0

/-! ## Pieces of the bridge, without waking anybody -/

/-- A call of the engine. -/
def turn (eng : Engine σ) (c : EngineCall) (b : Bridge σ) : Bridge σ :=
  { b.note [.engine c (eng c b.engine).answer] with engine := (eng c b.engine).state }

/-- What the engine queues during a call is sent by the thread that called it. -/
def sends (eng : Engine σ) (c : EngineCall) (b : Bridge σ) : List Chore :=
  (eng c b.engine).pushed.map .send

/-- Puts an event into the queue. -/
def enqueue (e : EngineEvent) (b : Bridge σ) : Bridge σ :=
  { b.note [.queued e] with queue := { b.queue with events := b.queue.events ++ [e] } }

/-- Ends the engine if it is live. -/
def endEngine (eng : Engine σ) (b : Bridge σ) : Bridge σ × List Chore :=
  if b.phase = .live then
    ({ turn eng .shutdown b with phase := .released }, sends eng .shutdown b)
  else ({ b with phase := .released }, [])

/-- What is left after a notification. -/
def Serving.ofRest : Rest → Serving
  | .announce token found serials source text _ => .announce token found serials source text
  | _ => .drain

/-- Goes on with the queued events, one lock at a time, until there is none. -/
def serveOne (b : Bridge σ) : Serving → Bridge σ × Option Serving
  | .drain => match b.queue.events with
    | [] => (b, none)
    | e :: es =>
      ({ b.note [.taken e] with queue := { b.queue with events := es } }, some (.event e))
  | .event e => match b.handle e (.wait none) with
    | (b, some (_, rest)) => (b, some (.ofRest rest))
    | (b, none) => (b, some .drain)
  | .announce token found serials source text =>
    let (b, _, rest) := Bridge.announce token found source text (.wait none) serials b
    (b, some (.ofRest rest))

namespace Wish

/-- What the token will stand for. -/
def pending (s : Settings) : Wish → Pending
  | .request r _ => .request ⟨r.identifier, r.path, r.tag⟩
  | .discovery .. => .discovery (s.discoveryMode = .continuous)
  | .handshake identifier .. => .handshake identifier

def errand (t : Token) : Wish → Errand
  | .request r d => ⟨.submit (Bridge.engineRequest r d t), some t, .request r.method, trivial⟩
  | .discovery scope query => ⟨.discover query scope t, some t, .discovery, trivial⟩
  | .handshake identifier password endpoint =>
    ⟨.handshake endpoint password (Utf8.encode identifier) t, some t, .handshake, trivial⟩

end Wish

namespace Errand

/-- A group message, for which there is no token. -/
def group (scope : UInt8) (m : GroupMessage) : Errand :=
  ⟨.submit
    { method := .post
      endpoint := .allNodes scope
      path := Bridge.groupPath
      payload := m.encode
      contentFormat := some .cbor
      confirmable := false }, none, .groupMessage, trivial⟩

def reply (e : Errand) (r : Except BridgeError Unit) : Reply :=
  match e.token with
  | some t => .token (r.map fun _ => t)
  | none => .unit r

/-- After a failure the token is given up first. -/
def drop (e : Errand) (r : Except BridgeError Unit) : Pc :=
  match e.token with
  | some t => .request (.giveUp t (e.reply r))
  | none => .returned (e.reply r)

end Errand

/-! ## Steps -/

/-- Whether the worker holds the mutex of the sleeper. -/
def Place.locked : Place → Bool
  | .scan _ | .decide _ | .leave => true
  | _ => false

/-- Rousing reaches a parked worker only. -/
def Place.rouse : Place → Place
  | .parked next => .roused next
  | p => p

/-- Whether there never was a worker. -/
def Place.isAbsent : Place → Bool
  | .absent => true
  | _ => false

/-- Whether there is no worker that a stop would have to wait for. -/
def Place.isOver : Place → Bool
  | .absent | .ended => true
  | _ => false

/-- **Does a chore,** unless it has to wait for a lock. -/
def Chore.exec (k : Core σ) : Chore → Option (Core σ × List Chore)
  | .send e =>
    if k.bridge.queue.closed then some (k, [])
    else some ({ k with bridge := enqueue e k.bridge }, [.latch .event])
  | .signal => some (k, if k.bridge.loop.quit then [] else [.ifRunning])
  | .ifRunning =>
    if k.owner.isSome then none
    else some (k, if k.bridge.loop.isRunning then [.latch .request] else [])
  | .drain =>
    if k.owner.isSome then none
    else some ({ k with bridge.loop := k.bridge.loop.drain }, [])
  | .latch c => some ({ k with bridge.wake := k.bridge.wake.latch }, [.look c])
  | .look c =>
    if k.place.locked then none else some (k, if k.bridge.wake.parked then [.rouse c] else [])
  | .rouse _ => some ({ k with place := k.place.rouse }, [])

def StartPc.exec (eng : Engine σ) (n : ℕ) (k : Core σ) :
    StartPc → Option (Core σ × List Chore × Pc)
  | .check identity =>
    some (k, [],
      if k.bridge.loop.quit then .returned (.unit (.error .shutDown)) else .start (.begin identity))
  | .begin identity => match k.bridge.phase with
    | .live => some (k, [], .returned (.unit (.error .alreadyRunning)))
    | .released => some (k, [], .returned (.unit (.error .shutDown)))
    | .idle =>
      let init := EngineCall.init (identity.getD k.bridge.settings.identity)
      let b := turn eng init k.bridge
      match InitAnswer.failure? (eng init k.bridge.engine).answer with
      | some e =>
        some ({ k with bridge := b }, sends eng init k.bridge, .returned (.unit (.error e)))
      | none =>
        let tell := EngineCall.setMaxPayload b.maxPayload
        some ({ k with bridge := { turn eng tell b with phase := .live } },
          sends eng init k.bridge ++ sends eng tell b, .start .enter)
  | .enter =>
    if k.owner.isSome then none else some ({ k with owner := some n }, [], .start .read)
  | .read =>
    if k.bridge.loop.quit then some ({ k with owner := none }, [], .start (.release .shutDown))
    else if k.bridge.loop.state ≠ .stopped then
      some ({ k with owner := none }, [], .start (.release .alreadyRunning))
    else
      some (k, [], .start (if k.bridge.settings.threading = .worker then .spawn else .run))
  | .spawn => some ({ k with place := .check, bridge.loop.worker := .due }, [], .start .run)
  | .run =>
    some ({ k with owner := none, bridge.loop.state := .running }, [], .returned (.unit (.ok ())))
  | .release e =>
    let ended := endEngine eng k.bridge
    some ({ k with bridge := ended.1 }, ended.2, .returned (.unit (.error e)))

def StopPc.exec (eng : Engine σ) (k : Core σ) : StopPc → Option (Core σ × List Chore × Pc)
  | .swap onWorker => match k.bridge.loop.requestQuit with
    | (true, _) => some (k, [], .returned (.unit (.ok ())))
    | (false, loop) =>
      some ({ k with bridge.loop := loop }, [.drain, .latch .stop], .stop (.join onWorker))
  | .join onWorker =>
    if onWorker || k.place.isOver then
      some ({ k with bridge.loop := k.bridge.loop.join }, [], .stop .finish)
    else none
  | .finish =>
    if k.owner.isSome then none
    else some ({ k with bridge.loop := k.bridge.loop.finish }, [], .stop .release)
  | .release =>
    let ended := endEngine eng k.bridge
    some ({ k with bridge := ended.1 }, ended.2, .stop .abandon)
  | .abandon =>
    some ({ k with bridge.correlator := k.bridge.correlator.abandonAll }, [], .stop .discard)
  | .discard => match k.bridge.queue.events with
    | [] => some (k, [], .stop .clear)
    | e :: es =>
      some ({ k with bridge := { k.bridge.note [.discarded e] with queue.events := es } }, [],
        .stop .discard)
  | .clear => some ({ k with bridge.registry := k.bridge.registry.clear }, [], .stop .done)
  | .done => none

def RequestPc.exec (eng : Engine σ) (k : Core σ) : RequestPc → Option (Core σ × List Chore × Pc)
  | .size r =>
    some (k, [],
      if k.bridge.maxPayload < r.payload.length then
        .returned (.token (.error (.payloadTooLarge r.payload.length k.bridge.maxPayload)))
      else .request (.find r))
  | .find r => match k.bridge.registry.find? r.identifier with
    | none => some (k, [], .returned (.token (.error (.unknownDevice r.identifier))))
    | some d => some (k, [], .request (.issue (.request r d)))
  | .peer identifier password => match k.bridge.registry.find? identifier with
    | none => some (k, [], .returned (.token (.error (.unknownDevice identifier))))
    | some d =>
      some
        ({ k with bridge.registry := k.bridge.registry.modify identifier Bridge.withSerial }, [],
          .request (.issue (.handshake identifier password (Bridge.withSerial d).endpoint)))
  | .group scope m =>
    some (k, [],
      if k.bridge.maxPayload < m.encode.length then
        .returned (.unit (.error (.payloadTooLarge m.encode.length k.bridge.maxPayload)))
      else .request (.put (.group scope m)))
  | .issue w => match k.bridge.correlator.issue (w.pending k.bridge.settings) with
    | .error e => some (k, [], .returned (.token (.error e)))
    | .ok (t, correlator) =>
      some ({ k with bridge.correlator := correlator }, [], .request (.put (w.errand t)))
  | .put e => match k.bridge.refusal? with
    | some why => some (k, [], e.drop (.error why))
    | none =>
      if e.call.accepts (eng e.call k.bridge.engine).answer then
        some ({ k with bridge := turn eng e.call k.bridge },
          sends eng e.call k.bridge ++ [.signal], .returned (e.reply (.ok ())))
      else
        some ({ k with bridge := turn eng e.call k.bridge }, sends eng e.call k.bridge,
          e.drop (.error (.submissionRejected e.word)))
  | .giveUp t r =>
    some ({ k with bridge.correlator := k.bridge.correlator.discard t }, [], .returned r)

def PollPc.exec (eng : Engine σ) (k : Core σ) : PollPc → Option (Core σ × List Chore × Pc)
  | .state =>
    if k.owner.isSome then none
    else if !k.bridge.loop.isRunning then some (k, [], .poll .quit)
    else if k.bridge.settings.threading = .worker then
      some (k, [], .returned (.deadline (.error .workerDriven)))
    else some (k, [], .poll .cycle)
  | .quit =>
    some (k, [],
      .returned (.deadline (.error (if k.bridge.loop.quit then .shutDown else .notRunning))))
  | .cycle =>
    if k.bridge.phase = .live then
      some ({ k with bridge := turn eng .poll k.bridge }, sends eng .poll k.bridge,
        .poll (.serve .drain (eng .poll k.bridge.engine).answer))
    else some (k, [], .returned (.deadline (.ok none)))
  | .serve s next => match serveOne k.bridge s with
    | (b, some s) => some ({ k with bridge := b }, [], .poll (.serve s next))
    | (b, none) => some ({ k with bridge := b }, [], .returned (.deadline (.ok next)))

def LimitPc.exec (eng : Engine σ) (k : Core σ) : LimitPc → Option (Core σ × List Chore × Pc)
  | .store size =>
    if size = 0 then some (k, [], .returned (.unit (.error (.settings Settings.zeroPayload))))
    else some ({ k with bridge.maxPayload := size }, [], .limit (.tell size))
  | .tell size =>
    if k.bridge.phase = .live then
      some ({ k with bridge := turn eng (.setMaxPayload size) k.bridge },
        sends eng (.setMaxPayload size) k.bridge, .returned (.unit (.ok ())))
    else some (k, [], .returned (.unit (.ok ())))

/-- **Moves call `n` on from its program point,** unless it has to wait or has returned. -/
def Pc.exec (eng : Engine σ) (n : ℕ) (k : Core σ) : Pc → Option (Core σ × List Chore × Pc)
  | .start p => p.exec eng n k
  | .stop p => p.exec eng k
  | .request p => p.exec eng k
  | .poll p => p.exec eng k
  | .limit p => p.exec eng k
  | .push e =>
    if k.bridge.queue.closed then some (k, [], .returned (.flag false))
    else some ({ k with bridge := enqueue e k.bridge }, [.latch .event], .returned (.flag true))
  | .edit f =>
    some ({ k with bridge.registry := f k.bridge.registry }, [], .returned (.unit (.ok ())))
  | .idle | .returned _ => none

/-- **Moves the worker on.** A wait with a deadline may find that it has passed; a parked worker may
be roused by nobody at any time. -/
def Core.advance (eng : Engine σ) (late : Bool) (k : Core σ) : Option (Core σ × List Chore) :=
  match k.place with
  | .absent | .ended => none
  | .check => some ({ k with place := if k.bridge.loop.quit then .ended else .cycle }, [])
  | .cycle =>
    if k.bridge.phase = .live then
      let b := turn eng .poll k.bridge
      some
        ({ k with
            bridge := b
            place := .serving .drain (eng .poll k.bridge.engine).answer
            polled := b.log.length },
          sends eng .poll k.bridge)
    else some ({ k with place := .recheck none }, [])
  | .serving s next => match serveOne k.bridge s with
    | (b, some s) => some ({ k with bridge := b, place := .serving s next }, [])
    | (b, none) => some ({ k with bridge := b, place := .recheck next }, [])
  | .recheck next =>
    some ({ k with place := if k.bridge.loop.quit then .ended else .swap next }, [])
  | .swap next => match k.bridge.wake.consume with
    | (taken, wake) =>
      some ({ k with bridge.wake := wake, place := if taken then .check else .enter next }, [])
  | .enter next =>
    some ({ k with bridge.wake := k.bridge.wake.park true, place := .scan next }, [])
  | .scan next => match k.bridge.wake.consume with
    | (taken, wake) =>
      some ({ k with bridge.wake := wake, place := if taken then .leave else .decide next }, [])
  | .decide next =>
    some ({ k with place := if late && next.isSome then .leave else .parked next }, [])
  | .parked next => some ({ k with place := .roused next }, [])
  | .roused next => some ({ k with place := .scan next }, [])
  | .leave => some ({ k with bridge.wake := k.bridge.wake.park false, place := .check }, [])

/-- **A bridge between two steps:** what is shared, the chores of each call and of the worker (which
is `none`), and where each call is. -/
structure Sys (σ : Type) where
  core : Core σ
  chores : Option ℕ → List Chore := fun _ => []
  pcs : ℕ → Pc := fun _ => .idle

/-- What the scheduler chooses. -/
inductive Move where
  | call (n : ℕ) (c : Call)
  | chore (a : Option ℕ)
  | act (n : ℕ)
  | work (late : Bool)

namespace Sys

/-- A bridge that nobody uses yet. -/
def fresh (b : Bridge σ) : Sys σ :=
  { core := { bridge := b } }

/-- **One step.** A call number is used once; who has chores does them first. -/
def move (eng : Engine σ) (s : Sys σ) : Move → Option (Sys σ)
  | .call n c => match s.pcs n, s.chores (some n) with
    | .idle, [] =>
      some
        { s with
          chores := Function.update s.chores (some n) c.entry.1
          pcs := Function.update s.pcs n c.entry.2 }
    | _, _ => none
  | .chore a => match s.chores a with
    | [] => none
    | x :: xs => match x.exec s.core with
      | none => none
      | some (k, more) =>
        some { s with core := k, chores := Function.update s.chores a (more ++ xs) }
  | .act n => match s.chores (some n) with
    | _ :: _ => none
    | [] => match (s.pcs n).exec eng n s.core with
      | none => none
      | some (k, more, pc) =>
        some
          { core := k
            chores := Function.update s.chores (some n) more
            pcs := Function.update s.pcs n pc }
  | .work late => match s.chores none with
    | _ :: _ => none
    | [] => match s.core.advance eng late with
      | none => none
      | some (k, more) => some { s with core := k, chores := Function.update s.chores none more }

/-- **A schedule:** one move after the other, each of which must be possible. -/
def run (eng : Engine σ) : List Move → Sys σ → Option (Sys σ)
  | [], s => some s
  | m :: ms, s => match s.move eng m with
    | none => none
    | some s => s.run eng ms

end Sys

/-- A bridge with the usual settings, around an engine that takes everything. -/
def usual : Bridge Bench.ScriptedEngine :=
  { settings := {}
    engine := {}
    registry := { capacity := Settings.maxDevices {} }
    correlator := { capacity := Settings.maxPendingRequests {} }
    maxPayload := Settings.maxPayloadSize {} }

end Threads

end KnxIoT

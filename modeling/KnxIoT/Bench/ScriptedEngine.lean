import KnxIoT.Engine
/-!
# A scripted engine

An engine for trying out a bridge.  It does what its script says: how it answers, what it refuses,
and which events it reports at each poll.  It can also echo requests by answering them with their
own path.
-/

namespace KnxIoT.Bench

/-- What a scripted engine can refuse. -/
inductive Refusal where
  | submit
  | discover
  | handshake
  deriving DecidableEq, Repr

/-- The script of an engine, and the requests that it has yet to answer. -/
structure ScriptedEngine where
  initAnswer : InitAnswer := .ready
  refuses : List Refusal := []
  echo : Bool := false
  deadline : Option Nat := none
  /-- The events for each poll to come. -/
  batches : List (List EngineEvent) := []
  /-- The requests without an answer, with their paths. -/
  outbox : List (Token × String) := []
  /-- Whether the owner of the bridge has let it go. -/
  letGo : Bool := false

namespace ScriptedEngine

/-- The echo of a request. -/
def echoOf (r : Token × String) : EngineEvent :=
  .response r.1 .ok .json (Utf8.encode r.2) none

/-- The state after a request was accepted. -/
def accept (s : ScriptedEngine) (r : EngineRequest) : ScriptedEngine :=
  match r.token with
  | some t => { s with outbox := s.outbox ++ [(t, r.path)] }
  | none => s

/-- **The engine.** -/
def engine : Engine ScriptedEngine
  | .init _, s => { answer := s.initAnswer, state := s }
  | .poll, s =>
    { answer := s.deadline
      pushed := s.batches.headD [] ++ if s.echo then s.outbox.map echoOf else []
      state := { s with batches := s.batches.tail, outbox := [] } }
  | .submit r, s =>
    if .submit ∈ s.refuses then { answer := false, state := s }
    else { answer := true, state := s.accept r }
  | .discover .., s => { answer := decide (.discover ∉ s.refuses), state := s }
  | .handshake .., s => { answer := decide (.handshake ∉ s.refuses), state := s }
  | .setMaxPayload _, s => { answer := (), state := s }
  | .shutdown, s => { answer := (), state := s }

/-- Whether another poll would bring something forth. -/
def inStore (s : ScriptedEngine) : Bool :=
  s.batches != [] || (s.echo && s.outbox != [])

end ScriptedEngine

end KnxIoT.Bench

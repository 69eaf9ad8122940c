import KnxIoT.Bench.ScriptedEngine
import KnxIoT.Host.Engine
import KnxIoT.Host.Feed
/-!
# A scripted host

The engine of a host program for trying out a bridge.  It does what its script says, and keeps the
place where events are reported to from its beginning to its end.
-/

namespace KnxIoT.Bench

open Host

/-- The script of a host's engine, and the requests that it has yet to answer. -/
structure ScriptedHost where
  initSucceeds : Bool := true
  refuses : List Refusal := []
  echo : Bool := false
  pollMs : Int64 := -1
  /-- The reports for each poll to come. -/
  batches : List (List Report) := []
  /-- The requests without an answer, with their paths. -/
  outbox : List (UInt64 × String) := []
  /-- Whether the engine knows where to report events to. -/
  hasSink : Bool := false

namespace ScriptedHost

/-- The echo of a request. -/
def echoOf (r : UInt64 × String) : Report :=
  .response r.1 0 50 (.ofBytes (Utf8.encode r.2)) none

/-- What is reported at the next poll. -/
def reports (s : ScriptedHost) : List Report :=
  s.batches.headD [] ++ if s.echo then s.outbox.map echoOf else []

/-- The state after a request was accepted. -/
def accept (s : ScriptedHost) (r : HostRequest) : ScriptedHost :=
  if r.token = 0 then s else { s with outbox := s.outbox ++ [(r.token, r.path)] }

/-- **The operations of the engine.** -/
def operations : HostEngine ScriptedHost
  | .init _, s =>
    { answer := .accepted s.initSucceeds, state := { s with hasSink := s.initSucceeds } }
  | .poll, s =>
    { answer := .next s.pollMs
      pushed := s.reports.filterMap Report.event?
      state := { s with batches := s.batches.tail, outbox := [] } }
  | .submit r, s =>
    if .submit ∈ s.refuses then { answer := .accepted false, state := s }
    else { answer := .accepted true, state := s.accept r }
  | .discover .., s => { answer := .accepted (.discover ∉ s.refuses), state := s }
  | .handshake .., s => { answer := .accepted (.handshake ∉ s.refuses), state := s }
  | .setMaxPayload _, s => { answer := .accepted true, state := s }
  | .shutdown, s => { answer := .accepted true, state := { s with hasSink := false } }

/-- Whether another poll would bring something forth. -/
def inStore (s : ScriptedHost) : Bool :=
  s.batches != [] || (s.echo && s.outbox != [])

/-- Forgets where to report events to. -/
def dropSink (s : ScriptedHost) : ScriptedHost :=
  { s with hasSink := false }

end ScriptedHost

end KnxIoT.Bench

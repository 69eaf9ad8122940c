import KnxIoT.Proofs.Bridge.Frame
import KnxIoT.Proofs.Bridge.Ledger
import KnxIoT.Proofs.Correlator.Table
import KnxIoT.Proofs.Threads.System

/-! # How a request can go

The commands that ask the engine to send something go in the same few ways, and `Attempt` lists
them: they fail early, the engine does not live, it refuses, or it takes what it was asked. Each
command has one lemma that says so, and `perform_attempt` puts them together; what is proved about
requests is proved about `Attempt`.

A handshake writes a serial number into its device before it can fail, so an attempt begins at a
bridge that may differ in this from the one at which the command begins. -/

namespace KnxIoT

/-- Why a command failed, if it did. -/
def Reply.failure? : Reply → Option BridgeError
  | .unit (.error e) => some e
  | .token (.error e) => some e
  | .device (.error e) => some e
  | .deadline (.error e) => some e
  | _ => none

theorem EngineCall.Asks.ne_init {c : EngineCall} (h : c.Asks) : ∀ i, c ≠ .init i := by
  rintro i rfl
  exact h

namespace Bridge

variable {σ : Type}

/-- A command that asks the engine to send something. -/
def Command.IsRequest : Command σ → Prop
  | .submit _ | .discover .. | .discoverDefault | .handshake .. | .groupMessage .. => True
  | _ => False

theorem isRequest_of_opens? {s : Settings} {c : Command σ} {q : Pending}
    (hq : opens? s c = some q) : c.IsRequest := by
  cases c with
  | submit r => trivial
  | discover scope query => trivial
  | discoverDefault => trivial
  | handshake identifier password => trivial
  | _ => cases hq

/-- **What handlers are told of a request that fails.** A refused handshake has a result at once;
requests to unknown devices and refused ones have responses, if the settings ask for them. -/
def Command.rejection? (s : Settings) : Command σ → BridgeError → Option Notification
  | .submit r, .unknownDevice _ =>
    if s.synthesizeRejections then
      some (.clientResponse r.identifier .unknownDevice .error r.tag r.path "")
    else none
  | .submit r, .submissionRejected _ =>
    if s.synthesizeRejections then
      some (.clientResponse r.identifier .submissionFailed .error r.tag r.path "")
    else none
  | .handshake identifier _, .submissionRejected _ => some (.handshakeResult identifier (-1) [] [])
  | _, _ => none

/-- What follows a request that fails: its notification if there is one, and its reply. -/
def failing (s : Settings) (c : Command σ) (e : BridgeError) (r : Reply) :
    Dispatch.Outcome Rest Reply :=
  match c.rejection? s e with
  | some n => .notify n (.reply r)
  | none => .reply r

/-- The engine has not refused anything. -/
def IsEarly : BridgeError → Prop
  | .submissionRejected _ => False
  | _ => True

/-- An error of which no handler is told. -/
def IsSilent : BridgeError → Prop
  | .unknownDevice _ => False
  | .submissionRejected _ => False
  | _ => True

/-- **How the request `c` can go** that is made in `b`. -/
inductive Attempt (eng : Engine σ) (b : Bridge σ) (c : Command σ) : Piece σ → Prop
  | early {e : BridgeError} {r : Reply} (hr : r.failure? = some e) (he : IsEarly e) :
      Attempt eng b c (b, failing b.settings c e r)
  /-- The engine does not live when its call for a token is due. -/
  | unsent {q : Pending} {t : Token} {k : Correlator} {e : BridgeError} {call : EngineCall}
      (hiss : b.correlator.issue q = .ok (t, k))
      (h : ({ b with correlator := k } : Bridge σ).callLive eng call = .error e) :
      Attempt eng b c (({ b with correlator := k } : Bridge σ).giveUp t, .reply (.token (.error e)))
  /-- The engine refuses what it was asked under a token. -/
  | refused {q : Pending} {t : Token} {k : Correlator} {call : EngineCall} {a : call.Answer}
      {b' : Bridge σ} {w : Submission} (hiss : b.correlator.issue q = .ok (t, k))
      (h : ({ b with correlator := k } : Bridge σ).callLive eng call = .ok (a, b'))
      (asks : call.Asks) (ha : call.accepts a = false) :
      Attempt eng b c (b'.giveUp t,
        failing b.settings c (.submissionRejected w) (.token (.error (.submissionRejected w))))
  /-- The engine takes what it was asked under a token. -/
  | sent {q : Pending} {t : Token} {k : Correlator} {call : EngineCall} {a : call.Answer}
      {b' : Bridge σ} (ho : opens? b.settings c = some q) (hiss : b.correlator.issue q = .ok (t, k))
      (h : ({ b with correlator := k } : Bridge σ).callLive eng call = .ok (a, b'))
      (asks : call.Asks) (ha : call.accepts a = true) :
      Attempt eng b c (b'.signal, .reply (.token (.ok t)))
  /-- The engine refuses what it was asked without a token. -/
  | unheard {call : EngineCall} {a : call.Answer} {b' : Bridge σ} {w : Submission}
      (h : b.callLive eng call = .ok (a, b')) (asks : call.Asks) (ha : call.accepts a = false) :
      Attempt eng b c (b',
        failing b.settings c (.submissionRejected w) (.unit (.error (.submissionRejected w))))
  /-- The engine takes what it was asked without a token. -/
  | heard {call : EngineCall} {a : call.Answer} {b' : Bridge σ}
      (h : b.callLive eng call = .ok (a, b')) (asks : call.Asks) (ha : call.accepts a = true) :
      Attempt eng b c (b'.signal, .reply (.unit (.ok ())))

section Attempt
variable {eng : Engine σ} {b b' : Bridge σ} {c : Command σ} {q : Pending} {t : Token}
  {k : Correlator} {call : EngineCall} {e : BridgeError} {r : Reply}

theorem IsSilent.isEarly (he : IsSilent e) : IsEarly e := by
  cases e with
  | submissionRejected w => exact he.elim
  | _ => trivial

theorem failing_of_silent {s : Settings} (he : IsSilent e) : failing s c e r = .reply r := by
  have : c.rejection? s e = none := by
    cases e with
    | unknownDevice i => exact he.elim
    | submissionRejected w => exact he.elim
    | _ => cases c <;> rfl
  unfold failing
  rw [this]

theorem failing_eq {s : Settings} : failing s c e r = .reply r ∨
    ∃ n, failing s c e r = .notify n (.reply r) := by
  unfold failing
  split
  · exact Or.inr ⟨_, rfl⟩
  · exact Or.inl rfl

theorem callLive_eq_error (h : b.callLive eng call = .error e) : IsSilent e := by
  unfold callLive refusal? at h
  cases hp : b.phase <;> rw [hp] at h <;> cases h <;> trivial

theorem attempt_silent (hr : r.failure? = some e) (he : IsSilent e) :
    Attempt eng b c (b, .reply r) := by
  rw [← failing_of_silent (s := b.settings) (c := c) he]
  exact .early hr he.isEarly

theorem attempt_full (h : b.correlator.issue q = .error e) :
    Attempt eng b c (b, .reply (.token (.error e))) := by
  refine attempt_silent rfl ?_
  rw [Correlator.issue_eq_error h]
  trivial

theorem refuse_eq {s : Settings} {r : Request} {status : Status} (hs : b.settings = s)
    (h : (Command.submit r : Command σ).rejection? s e =
      if s.synthesizeRejections then some (rejection r status) else none) :
    b.refuse r status e = (b, failing s (.submit r : Command σ) e (.token (.error e))) := by
  subst hs
  unfold refuse failing
  rw [h]
  split_ifs <;> rfl

theorem submit_attempt (eng : Engine σ) (b : Bridge σ) (r : Request) :
    Attempt eng b (.submit r) (b.submit eng r) := by
  unfold submit
  split
  · exact attempt_silent rfl trivial
  split
  · rw [refuse_eq rfl rfl]
    exact .early rfl trivial
  split
  · next he => exact attempt_full he
  next d hd t k hiss =>
  dsimp only
  split
  · next h => exact .unsent hiss h
  · next h => exact .sent rfl hiss h trivial rfl
  · next b' h =>
    have hset : (b'.giveUp t).settings = b.settings := (callLive_steady (by simp) h).1.settings
    rw [refuse_eq hset rfl]
    exact .refused hiss h trivial rfl

theorem discover_attempt (eng : Engine σ) (b : Bridge σ)
    (ho : opens? b.settings c = some (.discovery (b.settings.discoveryMode = .continuous)))
    (hc : ∀ s w, c.rejection? s (.submissionRejected w) = none) (scope : UInt8) (query : String) :
    Attempt eng b c (b.discover eng scope query) := by
  unfold discover
  split
  · next he => exact attempt_full he
  next t k hiss =>
  dsimp only
  split
  · next h => exact .unsent hiss h
  · next h => exact .sent ho hiss h trivial rfl
  · next b' h =>
    have hfail : ∀ r, failing b.settings c (.submissionRejected .discovery) r = .reply r := by
      intro r
      unfold failing
      rw [hc]
    rw [← hfail]
    exact .refused hiss h trivial rfl

theorem handshake_attempt (eng : Engine σ) (b : Bridge σ) (identifier password : String) :
    Attempt eng b (.handshake identifier password) (b.handshake eng identifier password) ∨
      Attempt eng { b with registry := b.registry.modify identifier withSerial }
        (.handshake identifier password) (b.handshake eng identifier password) := by
  unfold handshake
  split
  · exact Or.inl (.early (e := .unknownDevice identifier) rfl trivial)
  next d hd =>
  refine Or.inr ?_
  dsimp only
  split
  · next he => exact attempt_full he
  next t k hiss =>
  split
  · next h => exact .unsent hiss h
  · next h => exact .sent rfl hiss h trivial rfl
  · next h => exact .refused hiss h trivial rfl

theorem groupMessage_attempt (eng : Engine σ) (b : Bridge σ) (scope : UInt8) (m : GroupMessage) :
    Attempt eng b (.groupMessage scope m) (b.groupMessage eng scope m) := by
  unfold groupMessage
  dsimp only
  split
  · exact attempt_silent rfl trivial
  split
  · next h => exact attempt_silent rfl (callLive_eq_error h)
  · next h => exact .heard h trivial rfl
  · next h => exact .unheard h trivial rfl

/-- **A request is an attempt,** perhaps after its device has got a serial number. -/
theorem perform_attempt (eng : Engine σ) (installed : Category → Bool) (hc : c.IsRequest)
    (b : Bridge σ) : Attempt eng b c (b.perform eng installed c) ∨
      ∃ i, Attempt eng { b with registry := b.registry.modify i withSerial } c
        (b.perform eng installed c) := by
  cases c with
  | submit r => exact Or.inl (submit_attempt eng b r)
  | discover scope query => exact Or.inl (discover_attempt eng b rfl (fun _ _ => rfl) scope query)
  | discoverDefault => exact Or.inl (discover_attempt eng b rfl (fun _ _ => rfl) _ _)
  | handshake identifier password =>
    exact (handshake_attempt eng b identifier password).imp_right fun h => ⟨identifier, h⟩
  | groupMessage scope m => exact Or.inl (groupMessage_attempt eng b scope m)
  | _ => exact hc.elim

end Attempt

end Bridge

end KnxIoT

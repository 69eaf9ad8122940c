import KnxIoT.Proofs.Bridge.Life

/-! # A request is sent, or nothing has happened

A command that asks the engine to send something either succeeds, and then the engine was called
once and took the request, or it fails, and then the registry and the pending tokens are as before,
already when a handler is told of the failure.

* `FailsWith`, `Succeeds`: the two outcomes of such a command, up to its reply or its notification.
* `Attempt.atomic`: there are no others. A handshake writes a serial number into its device before
  it can fail; `Numbered` says that every device has one already.
* `requests_atomic`: the same for the calls of whole runs, with what is left to be done after a
  notification. -/

namespace KnxIoT

namespace Bridge

variable {σ : Type}

/-- The calls of the engine, with its answers. -/
def callsIn (hs : List Happening) : List ((c : EngineCall) × c.Answer) :=
  hs.filterMap fun
    | .engine c a => some ⟨c, a⟩
    | _ => none

/-- **The engine was called once,** asked to send something, and answered so. -/
def AskedOnce (hs : List Happening) (accepted : Bool) : Prop :=
  ∃ c a, callsIn hs = [⟨c, a⟩] ∧ c.Asks ∧ c.accepts a = accepted

/-- The engine was called only if it refused. -/
def AskedInVain (hs : List Happening) : BridgeError → Prop
  | .submissionRejected _ => AskedOnce hs false
  | _ => callsIn hs = []

/-- **The request `c` fails,** and nothing has happened. -/
structure FailsWith (b : Bridge σ) (c : Command σ) (p : Piece σ) (e : BridgeError) : Prop where
  registry : p.1.registry = b.registry
  pending : b.correlator.Fresh → p.1.correlator.table = b.correlator.table
  calls : AskedInVain p.1.log e
  outcome : ∃ r, r.failure? = some e ∧ p.2 = failing b.settings c e r

/-- **The request `c` succeeds,** and nobody is told. Its token, if it has one, is pending. -/
structure Succeeds (b : Bridge σ) (c : Command σ) (p : Piece σ) : Prop where
  registry : p.1.registry = b.registry
  calls : AskedOnce p.1.log true
  outcome : ∃ r, r.failure? = none ∧ p.2 = .reply r ∧
    (b.correlator.Fresh → p.1.correlator.table =
      b.correlator.table ++ match r.granted?, opens? b.settings c with
        | some t, some q => [(t, q)]
        | _, _ => [])

/-- A request fails and nothing has happened, or it succeeds. -/
def Atomic (b : Bridge σ) (c : Command σ) (p : Piece σ) : Prop :=
  (∃ e, FailsWith b c p e) ∨ Succeeds b c p

section Pieces
variable {eng : Engine σ} {b b' : Bridge σ} {c : Command σ} {call : EngineCall} {a : call.Answer}
  {e : BridgeError}

theorem callsIn_callEngine (hl : b.log = []) (eng : Engine σ) (call : EngineCall) :
    callsIn (b.callEngine eng call).2.log = [⟨call, (b.callEngine eng call).1⟩] := by
  rw [callEngine_log, hl]
  simp [callsIn, List.filterMap_map]

theorem askedOnce_of_callLive (hl : b.log = []) (h : b.callLive eng call = .ok (a, b'))
    (hasks : call.Asks) {accepted : Bool} (ha : call.accepts a = accepted) :
    AskedOnce b'.log accepted := by
  obtain ⟨-, he⟩ := callLive_eq_ok h
  have h₁ := congrArg Prod.fst he
  have h₂ := congrArg Prod.snd he
  dsimp only at h₁ h₂
  refine ⟨call, a, ?_, hasks, ha⟩
  rw [h₁, h₂]
  exact callsIn_callEngine hl eng call

theorem callLive_registry (h : b.callLive eng call = .ok (a, b')) : b'.registry = b.registry := by
  obtain ⟨-, he⟩ := callLive_eq_ok h
  have h₂ := congrArg Prod.snd he
  dsimp only at h₂
  rw [h₂, callEngine_registry]

theorem inVain_of_early (he : IsEarly e) {hs : List Happening} (h : callsIn hs = []) :
    AskedInVain hs e := by
  cases e with
  | submissionRejected w => exact he.elim
  | _ => exact h

/-- **Attempts are atomic.** -/
theorem Attempt.atomic {p : Piece σ} (hl : b.log = []) (h : Attempt eng b c p) : Atomic b c p := by
  have hl' : ∀ k, ({ b with correlator := k } : Bridge σ).log = [] := fun _ => hl
  cases h with
  | @early e r hr he =>
    exact Or.inl ⟨e, rfl, fun _ => rfl, inVain_of_early he (by rw [hl]; rfl), r, hr, rfl⟩
  | @unsent q t k e call hiss h =>
    have he := callLive_eq_error h
    refine Or.inl ⟨e, rfl, fun hfresh => Correlator.table_discard_issue hfresh hiss,
      inVain_of_early he.isEarly (congrArg callsIn hl), .token (.error e), rfl, ?_⟩
    exact (failing_of_silent he).symm
  | @refused q t k call a b' w hiss h asks ha =>
    refine Or.inl ⟨.submissionRejected w, (callLive_registry h).trans rfl, fun hfresh => ?_,
      askedOnce_of_callLive (hl' k) h asks ha, _, rfl, rfl⟩
    rw [show (b'.giveUp t).correlator = b'.correlator.discard t from rfl, callLive_correlator h]
    exact Correlator.table_discard_issue hfresh hiss
  | @sent q t k call a b' ho hiss h asks ha =>
    refine Or.inr ⟨(callLive_registry h).trans rfl, askedOnce_of_callLive (hl' k) h asks ha, _,
      rfl, rfl, fun hfresh => ?_⟩
    rw [show b'.signal.correlator = b'.correlator from rfl, callLive_correlator h, ho]
    exact Correlator.table_issue hfresh hiss
  | @unheard call a b' w h asks ha =>
    exact Or.inl ⟨.submissionRejected w, callLive_registry h,
      fun _ => by rw [callLive_correlator h], askedOnce_of_callLive hl h asks ha, _, rfl, rfl⟩
  | @heard call a b' h asks ha =>
    refine Or.inr ⟨(callLive_registry h).trans rfl, askedOnce_of_callLive hl h asks ha, _, rfl,
      rfl, fun _ => ?_⟩
    rw [show b'.signal.correlator = b'.correlator from rfl, callLive_correlator h]
    exact (List.append_nil _).symm

/-- Every device has a serial number at its endpoint. -/
def Numbered (b : Bridge σ) : Prop := ∀ d ∈ b.registry.devices, d.endpoint.serial.isSome = true

theorem withSerial_eq_self {d : Device} (h : d.endpoint.serial.isSome = true) :
    withSerial d = d := by
  unfold withSerial
  rw [if_neg]
  rw [Option.isNone_iff_eq_none]
  exact fun hn => by rw [hn] at h; cases h

theorem modify_withSerial (hn : Numbered b) (identifier : String) :
    b.registry.modify identifier withSerial = b.registry := by
  have h : b.registry.devices.map
      (fun d => if d.identifier = identifier then withSerial d else d) = b.registry.devices := by
    refine (List.map_congr_left fun d hd => ?_).trans (List.map_id _)
    rw [withSerial_eq_self (hn d hd), ite_self]
    rfl
  exact congrArg (fun l => { b.registry with devices := l }) h

/-- **A request is sent, or nothing has happened.** -/
theorem request_atomic (hl : b.log = []) (hn : Numbered b) (installed : Category → Bool)
    (hc : c.IsRequest) : Atomic b c (b.perform eng installed c) := by
  rcases perform_attempt eng installed hc b with h | ⟨i, h⟩
  · exact h.atomic hl
  · -- The device has a serial number already.
    rw [modify_withSerial hn] at h
    exact h.atomic hl

end Pieces

/-! ### Devices have serial numbers -/

/-- An update that writes an endpoint with a serial number. -/
def Numbers (_ : String) (u : DeviceUpdate) : Prop :=
  ∃ e, u.endpoint = some e ∧ e.serial.isSome = true

theorem numbers_apply {i : String} {u : DeviceUpdate} (h : Numbers i u) (d : Device) :
    (u.apply d).endpoint.serial.isSome = true := by
  obtain ⟨e, he, hs⟩ := h
  simp only [DeviceUpdate.apply, DeviceUpdate.endpointOf, he]
  exact hs

theorem Touch.numbered {r r' : Registry} (h : Touch Numbers r r')
    (hr : ∀ d ∈ r.devices, d.endpoint.serial.isSome = true) :
    ∀ d ∈ r'.devices, d.endpoint.serial.isSome = true := by
  cases h with
  | enter allowed h =>
    exact Registry.forall_upsert h hr (fun d _ _ => numbers_apply allowed d) fun _ =>
      numbers_apply allowed _
  | rename known h =>
    refine Registry.forall_upsert h hr (fun d hd _ => hr d hd) fun hnone => ?_
    rw [hnone] at known
    cases known
  | secure i on => exact Registry.forall_modify hr fun d hd _ => hr d hd
  | number i =>
    refine Registry.forall_modify hr fun d hd _ => ?_
    rw [withSerial_eq_self (hr d hd)]
    exact hr d hd
  | clear => exact fun d hd => nomatch hd

/-- **Every device of a bridge in use has a serial number.** -/
theorem numbered_kept (eng : Engine σ) : Kept eng Numbers (Numbered (σ := σ)) where
  free := ⟨fun _ _ => ⟨_, rfl, rfl⟩, fun _ _ _ => ⟨_, rfl, rfl⟩⟩
  move h hb := by
    rcases h.registry with h | h
    · unfold Numbered
      rw [h]
      exact hb
    · exact h.numbered hb
  life {b} installed c hc hb := by
    unfold Numbered
    rcases life_clears eng installed hc b with ⟨-, h⟩ | ⟨-, -, h⟩ <;> rw [h]
    · exact hb
    · exact fun d hd => nomatch hd
  takeDown hb := hb

/-! ### Runs -/

section Calls
variable (s : Settings) (m m' : Machine σ) (c : Command σ) (next : Reply → Program σ)
  (below : List (Dispatch.Frame (Command σ) Rest Reply))

/-- **The call of `c` that begins in `m` fails with `e`.** In `m'` it has returned, or a handler has
been told and nothing is left of the call but to return. -/
structure CallFails (e : BridgeError) : Prop where
  registry : m'.state.registry = m.state.registry
  pending : m.state.correlator.Fresh →
    m'.state.correlator.table = m.state.correlator.table
  told : ∃ hs r, r.failure? = some e ∧ AskedInVain hs e ∧ match c.rejection? s e with
    | none => m'.trace = m.trace ++ .called c :: (hs.map .happened ++ [.returned c r]) ∧
        m'.stack = .run (next r) :: below
    | some n => ∃ h d,
        m'.trace = m.trace ++ .called c :: (hs.map .happened ++ [.notified n h]) ∧
        (m'.stack = .rest (.reply r) d :: .await c next :: below ∨
          ∃ q, m'.stack = .run q :: .rest (.reply r) d :: .await c next :: below)

/-- **The call of `c` that begins in `m` succeeds,** and in `m'` it has returned. -/
structure CallSucceeds : Prop where
  registry : m'.state.registry = m.state.registry
  told : ∃ hs r, r.failure? = none ∧ AskedOnce hs true ∧
    m'.trace = m.trace ++ .called c :: (hs.map .happened ++ [.returned c r]) ∧
    m'.stack = .run (next r) :: below ∧
    (m.state.correlator.Fresh → m'.state.correlator.table =
      m.state.correlator.table ++ match r.granted?, opens? s c with
        | some t, some q => [(t, q)]
        | _, _ => [])

end Calls

/-- **The requests of a run are atomic.** -/
structure RequestsAtomic (s : Settings) (eng : Engine σ) (m : Machine σ) : Prop where
  /-- The call of a request fails and nothing has happened, or it succeeds. -/
  call : ∀ n c next below, (m.run (system eng) n).stack = .run (.command c next) :: below →
    c.IsRequest →
      (∃ e, CallFails s (m.run (system eng) n) (m.run (system eng) (n + 1)) c next below e) ∨
        CallSucceeds s (m.run (system eng) n) (m.run (system eng) (n + 1)) c next below
  /-- As long as the tokens fit into 64 bits, none that is given out is pending. -/
  fresh : ∀ n, (m.run (system eng) n).state.correlator.issued < Token.limit →
    (m.run (system eng) n).state.correlator.Fresh
  /-- When nothing is left of a call but to return, it returns and does nothing else. -/
  back : ∀ n r d c next below,
    (m.run (system eng) n).stack = .rest (.reply r) d :: .await c next :: below →
      (m.run (system eng) (n + 1)).state = (m.run (system eng) n).state ∧
      (m.run (system eng) (n + 1)).trace = (m.run (system eng) n).trace ++ [.returned c r] ∧
      (m.run (system eng) (n + 1)).stack = .run (next r) :: below

section Step
variable {eng : Engine σ} {m : Machine σ} {c : Command σ} {next : Reply → Program σ}
  {below : List (Dispatch.Frame (Command σ) Rest Reply)}

theorem call_of_atomic (hs : m.stack = .run (.command c next) :: below)
    (h : Atomic m.state c (m.state.perform eng m.table.isInstalled c)) :
    (∃ e, CallFails m.state.settings m (m.step (system eng)) c next below e) ∨
      CallSucceeds m.state.settings m (m.step (system eng)) c next below := by
  have hstep := Dispatch.Machine.step_command (system eng) hs
  have hstate : (m.step (system eng)).state =
      { (m.state.perform eng m.table.isInstalled c).1 with log := [] } := by
    rw [hstep]
    exact Dispatch.Machine.settle_state _ _ _ _ _
  obtain ⟨hn, htrace⟩ := Dispatch.Machine.step_command_trace (system eng) hs
  -- What follows a piece that only replies.
  have hreply : ∀ r, (m.state.perform eng m.table.isInstalled c).2 = .reply r →
      (m.step (system eng)).trace = m.trace ++ .called c ::
        ((m.state.perform eng m.table.isInstalled c).1.log.map .happened ++ [.returned c r]) ∧
      (m.step (system eng)).stack = .run (next r) :: below := by
    intro r ho
    have ho' : ((system eng).start m.table.isInstalled c m.state).outcome = .reply r := ho
    refine ⟨?_, ?_⟩
    · rw [ho'] at htrace
      exact htrace
    · rw [hstep]
      exact Dispatch.Machine.settle_reply _ _ _ _ ho'
  rcases h with ⟨e, hr, hp, hcalls, r, hr', ho⟩ | ⟨hr, hcalls, r, hr', ho, hp⟩
  · refine Or.inl ⟨e, by rw [hstate]; exact hr, fun hl => by rw [hstate]; exact hp hl, _, r, hr',
      hcalls, ?_⟩
    unfold failing at ho
    cases hrej : c.rejection? m.state.settings e with
    | none =>
      rw [hrej] at ho
      exact hreply r ho
    | some n =>
      rw [hrej] at ho
      have ho' : ((system eng).start m.table.isInstalled c m.state).outcome =
        .notify n (.reply r) := ho
      obtain ⟨d, hd⟩ := Dispatch.Machine.settle_notify (m.record [.called c]) c next below ho'
      rw [ho'] at htrace
      rw [← hstep] at hd
      exact ⟨hn, d, htrace, hd⟩
  · obtain ⟨htr, hst⟩ := hreply r ho
    exact Or.inr ⟨by rw [hstate]; exact hr, _, r, hr', hcalls, htr, hst, fun hl => by
      rw [hstate]; exact hp hl⟩

theorem step_of_rest_reply {r : Reply} {d : Bool} (hl : m.state.log = [])
    (hs : m.stack = .rest (.reply r) d :: .await c next :: below) :
    (m.step (system eng)).state = m.state ∧
      (m.step (system eng)).trace = m.trace ++ [.returned c r] ∧
      (m.step (system eng)).stack = .run (next r) :: below := by
  have hstep := Dispatch.Machine.step_rest (system eng) hs
  obtain ⟨hn, htrace⟩ := Dispatch.Machine.step_rest_trace (system eng) hs
  refine ⟨?_, ?_, ?_⟩
  · rw [hstep, Dispatch.Machine.settle_state]
    exact congrArg (fun log => { m.state with log }) hl.symm
  · rw [htrace]
    exact congrArg (fun log => m.trace ++ (log.map .happened ++ [.returned c r])) hl
  · rw [hstep]
    exact Dispatch.Machine.settle_reply _ _ _ _ rfl

end Step

/-- **Requests are atomic** in every run of a program on a new bridge. As to the pending tokens, a
token that is given out must not be pending still, which it cannot be before its number comes
again. -/
theorem requests_atomic {settings : Settings} {engine : σ} {b : Bridge σ} (eng : Engine σ)
    (hb : make settings engine = .ok b) (p : Program σ) :
    RequestsAtomic settings eng (Dispatch.Machine.load { state := b } p) := by
  have hcoh := load_coherent hb p
  have hnum : Numbered b := by
    rw [make_eq_ok hb]
    exact fun d hd => nomatch hd
  have huse := use_run eng (Dispatch.Machine.load { state := b } p)
  refine ⟨fun n c next below hs hc => ?_,
    fun n hlim => (run_coherent hcoh n hlim).sound.bounded.find?_after hlim,
    fun n r d c next below hs => ?_⟩
  · have hset := (settings_kept eng settings).use (huse n) trivial hcoh.settings
    have hn := (numbered_kept eng).use (huse n) trivial hnum
    rw [← hset, Dispatch.Machine.run_succ]
    exact call_of_atomic hs (request_atomic (use_log (huse n) trivial hcoh.log) hn _ hc)
  · rw [Dispatch.Machine.run_succ]
    exact step_of_rest_reply (use_log (huse n) trivial hcoh.log) hs

section Demo

/-- A program that asks a device for something and begins a handshake with it. A handler hears of
responses. -/
def askAndShake : Program Bench.ScriptedEngine :=
  .install [.clientResponse] (.mk "listener" fun _ _ => .done) fun _ =>
    .command (.start none) fun _ => .command (.register "00FA" "ff02::1") fun _ =>
      .command (.submit (.get "00FA" "/dev")) fun _ =>
        .command (.handshake "00FA" "secret") fun _ => .done

/-- The run of the program with an engine that refuses both, whose owner drives it. -/
def refusedTwice (b : Bridge Bench.ScriptedEngine) (n : ℕ) : Machine Bench.ScriptedEngine :=
  (Dispatch.Machine.load { state := b } askAndShake : Machine _).run
    (system Bench.ScriptedEngine.engine) n

/-- The handler hears that the request was refused; nobody is there to hear of the handshake. -/
theorem requests_atomic_refused :
    ∃ b, make { threading := .cooperative, synthesizeRejections := true }
        { refuses := [.submit, .handshake] } = .ok b ∧
      RequestsAtomic { threading := .cooperative, synthesizeRejections := true }
        Bench.ScriptedEngine.engine (Dispatch.Machine.load { state := b } askAndShake) ∧
      (∃ next, (refusedTwice b 3).stack = [.run (.command (.submit (.get "00FA" "/dev")) next)]) ∧
      (refusedTwice b 4).trace[9]? =
        some (.notified (.clientResponse "00FA" .submissionFailed .error "" "/dev" "")
          (some ⟨0, "listener"⟩)) ∧
      (refusedTwice b 7).trace[13]? = some (.notified (.handshakeResult "00FA" (-1) [] []) none) ∧
      (refusedTwice b 9).stack = [] ∧ (refusedTwice b 9).state.correlator.table = [] := by
  have hb : make { threading := .cooperative, synthesizeRejections := true }
    ({ refuses := [.submit, .handshake] } : Bench.ScriptedEngine) = .ok _ := rfl
  exact ⟨_, hb, requests_atomic _ hb _, ⟨_, rfl⟩, rfl, rfl, rfl, rfl⟩

end Demo

end Bridge

end KnxIoT

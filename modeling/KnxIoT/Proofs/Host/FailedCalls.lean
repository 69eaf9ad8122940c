import KnxIoT.Proofs.Bridge.Replies
import KnxIoT.Proofs.Host.Handover
import KnxIoT.Proofs.Host.RoundTrip

/-! # Calls of a host that fail

A host calls functions of a bridge with arguments of its own, and no callback issues a command
meanwhile. A call with a bad argument does nothing at all. A call that gives out a token writes it
exactly if it succeeds, and then the engine of the host was asked under it and it is pending; after
any other result the pending tokens are as before.

* `Counted` is what any bridge in use is like as to its pending tokens.
* `command_returns` runs a command to its end, with the handler that is told of a failure.
* `perform_granting`: a request for a token fails, or the engine takes what it is asked under the
  token. With `answer_of_accepts` the host of the engine has taken it then.
* `TokenEffect`, `CodeEffect` and `ReportEffect` say what a call does, and `calls_all_or_nothing`
  that every call does this, at any point of the use of a bridge. -/

namespace KnxIoT

namespace Bridge

variable {σ : Type}

/-! ### Pending tokens -/

/-- The pending tokens are among those given out, as long as the numbers of 64 bits last. -/
def Counted (b : Bridge σ) : Prop := b.correlator.issued ≤ Token.limit → b.correlator.Bounded

section Counted
variable {eng : Engine σ} {E : String → DeviceUpdate → Prop} {b b' : Bridge σ}

theorem Counted.of_correlator (hb : Counted b) (hk : b'.correlator = b.correlator) :
    Counted b' := by
  unfold Counted
  rw [hk]
  exact hb

theorem Move.counted (h : Move eng E b b') (hb : Counted b) : Counted b' := by
  cases h with
  | call c live hc => exact hb.of_correlator (callEngine_correlator eng c b)
  | push e => exact hb.of_correlator (push_correlator e b)
  | settle e =>
    intro hlim
    have hi := Correlator.settle_issued b.correlator e
    exact (hb (hi ▸ hlim)).of_find? (fun _ _ => Correlator.find?_of_settle) hi.ge
  | grant live h =>
    obtain ⟨rfl, hi, -, hf⟩ := Correlator.issue_eq_ok h
    intro hlim u p hu
    dsimp only at hlim hu ⊢
    rw [hi] at hlim ⊢
    rw [hf] at hu
    split_ifs at hu with hut
    · rw [hut, Token.toNat_after (Nat.lt_of_succ_le hlim)]
    · exact (hb (Nat.le_of_succ_le hlim) u p hu).trans (Nat.le_succ _)
  | @vain p t k h =>
    have hi : (k.discard t).issued = b.correlator.issued + 1 := (Correlator.issue_eq_ok h).2.1
    intro hlim
    dsimp only at hlim ⊢
    rw [hi] at hlim
    exact (hb (Nat.le_of_succ_le hlim)).of_find? (fun _ _ => find?_of_giveUp h)
      (by rw [hi]; exact Nat.le_succ _)
  | _ => exact hb

theorem stop_counted (eng : Engine σ) (hb : Counted b) : Counted (b.stop eng) := by
  rcases stop_cases eng b with ⟨-, h⟩ | ⟨-, h⟩
  · rw [h]
    exact hb
  · exact fun _ => Correlator.bounded_of_table h.table

/-- **The tokens of any bridge in use are counted.** -/
theorem counted_kept (eng : Engine σ) : Kept eng (fun _ _ => True) (Counted (σ := σ)) where
  free := free_any
  move h hb := h.counted hb
  life {b} installed c hc hb := by
    cases c with
    | start identity =>
      rcases (start_started eng identity : Started eng b _).correlator with h | ⟨h, -⟩
      · exact hb.of_correlator h
      · exact fun _ => Correlator.bounded_of_table h
    | stop => exact stop_counted eng hb
    | dispose => exact (stop_counted eng hb).of_correlator rfl
    | _ => exact hc.elim
  takeDown hb := hb

end Counted

/-! ### Commands up to their end -/

theorem Command.IsRequest.not_isCycle {c : Command σ} (hc : c.IsRequest) : ¬ c.IsCycle := by
  cases c with
  | poll => exact hc.elim
  | cycle => exact hc.elim
  | _ => exact id

/-- **A command returns,** if it is no poll cycle and no handler issues a command: what it does is
done in one piece. -/
theorem command_returns (eng : Engine σ) {m : Machine σ} {c : Command σ}
    {next : Reply → Program σ} {below : List (Dispatch.Frame (Command σ) Rest Reply)} {p : Piece σ}
    (ht : m.table.CommandFree) (hc : ¬ c.IsCycle)
    (hp : m.state.perform eng m.table.isInstalled c = p)
    (hs : m.stack = .run (.command c next) :: below) :
    ∃ n m', m.run (system eng) n = m' ∧ m'.stack = .run (next (finalReply p)) :: below ∧
      m'.state = { p.1 with log := [] } ∧
      ∀ r, p.2 = .reply r →
        m'.trace = m.trace ++ .called c :: (p.1.log.map .happened ++ [.returned c r]) := by
  have hstep : m.step (system eng) =
      (m.record [.called c]).settle (takeDown p) (.await c next :: below) := by
    rw [← hp]
    exact Dispatch.Machine.step_command (system eng) hs
  have hbrief : Brief p := hp ▸ perform_brief m.table.isInstalled hc
  obtain ⟨b, r | ⟨n, a⟩⟩ := p
  · refine ⟨1, _, Dispatch.Machine.run_succ (system eng) 0 m, ?_⟩
    rw [Dispatch.Machine.run, hstep]
    refine ⟨rfl, rfl, ?_⟩
    rintro _ ⟨⟩
    simp [Dispatch.Machine.settle, Dispatch.Machine.answer, Dispatch.Machine.record, takeDown]
  · obtain ⟨r, rfl⟩ := hbrief n a rfl
    obtain ⟨h, d, m₁, ⟨k, hrun, hall⟩, hstack⟩ :=
      notify_through eng (m := m.record [.called c]) ht b n (.reply r) (.await c next :: below)
    have hbeside := hall k le_rfl
    rw [hrun] at hbeside
    rw [← hstep] at hrun
    have hlog : m₁.state.log = [] := by rw [hbeside.state]
    obtain ⟨hstate, -, hlast⟩ : (m₁.step (system eng)).state = m₁.state ∧ _ ∧
        (m₁.step (system eng)).stack = .run (next r) :: below := step_of_rest_reply hlog hstack
    refine ⟨1 + (k + 1), m₁.step (system eng), ?_, hlast, hstate.trans hbeside.state, ?_⟩
    · rw [Dispatch.Machine.run_add, Dispatch.Machine.run_succ (system eng) 0,
        Dispatch.Machine.run_succ (system eng) k]
      exact congrArg (Dispatch.Machine.step (system eng)) hrun
    · rintro _ ⟨⟩

/-! ### What the engine is asked under a token -/

/-- The engine takes what it is asked under the token `t` in the piece `p`, and is asked nothing
else. -/
structure AskedUnder (eng : Engine σ) (b : Bridge σ) (p : Piece σ) (t : Token)
    (call : EngineCall) : Prop where
  token : call.token? = some t
  accepted : call.accepts (eng call b.engine).answer = true
  calls : callsIn p.1.log = [⟨call, (eng call b.engine).answer⟩]

/-- **How a request for a token can end.** -/
inductive Granting (eng : Engine σ) (b : Bridge σ) (p : Piece σ) : Prop
  | failed (e : BridgeError) (reply : finalReply p = .token (.error e))
  | granted (call : EngineCall) (reply : p.2 = .reply (.token (.ok (.after b.correlator.issued))))
      (asked : AskedUnder eng b p (.after b.correlator.issued) call)

section Granting
variable {eng : Engine σ} {b b₀ b' : Bridge σ} {t : Token} {q : Pending} {k : Correlator}
  {call : EngineCall} {a : call.Answer}

theorem granting_refuse (b₀ : Bridge σ) (r : Request) (status : Status) (e : BridgeError) :
    Granting eng b (b₀.refuse r status e) := by
  refine .failed e ?_
  unfold refuse
  split_ifs <;> rfl

theorem granting_of_callLive (h : b₀.callLive eng call = .ok (a, b')) (hl : b₀.log = [])
    (he : b₀.engine = b.engine) (hiss : b.correlator.issue q = .ok (t, k))
    (ht : call.token? = some t) (ha : call.accepts a = true) :
    Granting eng b (b'.signal, .reply (.token (.ok t))) := by
  obtain rfl := (Correlator.issue_eq_ok hiss).1
  obtain ⟨-, heq⟩ := callLive_eq_ok h
  have hanswer : a = (eng call b.engine).answer := by
    rw [← he]
    exact (congrArg Prod.fst heq).trans (by rw [callEngine_eq])
  subst hanswer
  refine .granted call rfl ⟨ht, ha, ?_⟩
  have hcalls := callsIn_callEngine hl eng call
  rw [← heq] at hcalls
  exact hcalls

theorem submit_granting (hl : b.log = []) (r : Request) : Granting eng b (b.submit eng r) := by
  unfold submit
  split
  · exact .failed _ rfl
  split
  · exact granting_refuse _ _ _ _
  split
  · exact .failed _ rfl
  next t k hiss =>
  dsimp only
  split
  · exact .failed _ rfl
  · next h => exact granting_of_callLive h hl rfl hiss rfl rfl
  · exact granting_refuse _ _ _ _

theorem discover_granting (hl : b.log = []) (scope : UInt8) (query : String) :
    Granting eng b (b.discover eng scope query) := by
  unfold discover
  split
  · exact .failed _ rfl
  next t k hiss =>
  dsimp only
  split
  · exact .failed _ rfl
  · next h => exact granting_of_callLive h hl rfl hiss rfl rfl
  · exact .failed _ rfl

theorem handshake_granting (hl : b.log = []) (identifier password : String) :
    Granting eng b (b.handshake eng identifier password) := by
  unfold handshake
  split
  · exact .failed _ rfl
  dsimp only
  split
  · exact .failed _ rfl
  next t k hiss =>
  split
  · exact .failed _ rfl
  · next h => exact granting_of_callLive h hl rfl hiss rfl rfl
  · exact .failed _ rfl

/-- **A request for a token fails, or the engine takes what it is asked under the token.** -/
theorem perform_granting (hl : b.log = []) (installed : Category → Bool) {c : Command σ}
    (hc : opens? b.settings c = some q) : Granting eng b (b.perform eng installed c) := by
  cases c with
  | submit r => exact submit_granting hl r
  | discover scope query => exact discover_granting hl scope query
  | discoverDefault => exact discover_granting hl _ _
  | handshake identifier password => exact handshake_granting hl identifier password
  | _ => cases hc

end Granting

section Atomic
variable {b : Bridge σ} {c : Command σ} {p : Piece σ} {q : Pending} {t : Token} {e : BridgeError}

theorem Atomic.pending_of_failed (h : Atomic b c p) (hr : (finalReply p).failure? = some e)
    (hfresh : b.correlator.Fresh) : p.1.correlator.table = b.correlator.table := by
  rcases h with ⟨e', hf⟩ | hs
  · exact hf.pending hfresh
  · obtain ⟨r, hnone, ho, -⟩ := hs.outcome
    rw [finalReply_of_reply ho, hnone] at hr
    cases hr

theorem Atomic.pending_of_granted (h : Atomic b c p) (hr : p.2 = .reply (.token (.ok t)))
    (hq : opens? b.settings c = some q) (hfresh : b.correlator.Fresh) :
    p.1.correlator.table = b.correlator.table ++ [(t, q)] := by
  rcases h with ⟨e, hf⟩ | hs
  · obtain ⟨r, hfail, ho⟩ := hf.outcome
    have hreply := finalReply_failing b b.settings e r (c := c)
    rw [← ho, hr] at hreply
    cases hreply
    cases hfail
  · obtain ⟨r, -, ho, hnew⟩ := hs.outcome
    rw [hr] at ho
    cases ho
    have hnew := hnew hfresh
    rw [hq] at hnew
    exact hnew

end Atomic

end Bridge

namespace Host

variable {τ α : Type}

/-! ### What a call does -/

/-- The number under which a host is asked to send something, or 0. -/
def HostCall.token : HostCall → UInt64
  | .submit r => r.token
  | .discover _ _ t => t
  | .handshake _ _ _ t => t
  | _ => 0

/-- **The call of `c` gives out the token `t`,** and the host takes `hc` under it and is asked
nothing else: `call` is what the bridge asks of its engine, and `hs` is all that happens. -/
structure Received (o : Operations) (host : HostEngine τ) (m m' : Bridge.Machine τ) (t : Token)
    (c : Bridge.Command τ) (hs : List Happening) (call : EngineCall) (hc : HostCall) : Prop where
  trace : m'.trace =
    m.trace ++ .called c :: (hs.map .happened ++ [.returned c (.token (.ok t))])
  calls : Bridge.callsIn hs = [⟨call, (engineOf o host call m.state.engine).answer⟩]
  handed : hostCall? o call = some hc
  token : hc.token = t.raw
  answer : (host hc m.state.engine).answer = .accepted true

/-- **What a call that gives out a token does** to the machine `m`, when it returns with `r`. -/
structure TokenEffect (o : Operations) (host : HostEngine τ) (hasRoom : Bool)
    (m : Bridge.Machine τ) (r : TokenResult) (m' : Bridge.Machine τ) : Prop where
  /-- A bad argument has no effect at all. -/
  invalid : r.code = .invalidArgument → m' = m
  /-- The token is written where there is room for it, the host has received it, and it is pending
  now. -/
  granted : r.code = .ok → ∃ t q c hs call hc,
    r.written = (if hasRoom then some t else none) ∧ t.raw ≠ 0 ∧
      Received o host m m' t c hs call hc ∧
      m'.state.correlator.table = m.state.correlator.table ++ [(t, q)]
  /-- Nothing is written, and the pending tokens are as before. -/
  failed : r.code ≠ .ok → r.written = none ∧
    m'.state.correlator.table = m.state.correlator.table

/-- **What a call that returns a code does.** -/
structure CodeEffect (m : Bridge.Machine τ) (code : Code) (m' : Bridge.Machine τ) : Prop where
  invalid : code = .invalidArgument → m' = m
  pending : m'.state.correlator.table = m.state.correlator.table

/-- **What a report does.** -/
structure ReportEffect (hasSink : Bool) (r : Report) (m : Bridge.Machine τ) (ok : Bool)
    (m' : Bridge.Machine τ) : Prop where
  bad : hasSink = false ∨ r.event? = none → ok = false ∧ m' = m
  refused : ok = false → m'.state = m.state

/-- **The call that is made in `m` returns,** and `P` is so then. -/
def Returns (eng : Engine τ) (m : Bridge.Machine τ) (call : Call τ α)
    (P : α → Bridge.Machine τ → Prop) : Prop :=
  ∀ next : α → Bridge.Program τ, ∃ n a m',
    (m.load (call.andThen next)).run (Bridge.system eng) n = m'.load (next a) ∧
      m'.stack = m.stack ∧ P a m'

/-- The calls that give out a token. -/
inductive TokenCall (h : Handle) (hasRoom : Bool) : Call τ TokenResult → Prop
  | request {x : RequestTexts} {call : Call τ TokenResult} (hc : RequestCall h x hasRoom call) :
      TokenCall h hasRoom call
  | discover (scope : UInt8) (query : CText) : TokenCall h hasRoom (discover h scope query hasRoom)
  | handshake (identifier password : CText) :
      TokenCall h hasRoom (handshake h identifier password hasRoom)

/-- The calls that start the bridge, send a group message or change a device. -/
inductive CodeCall (h : Handle) : Call τ Code → Prop
  | start (identity : Option IdentityArgument) : CodeCall h (start h identity)
  | groupMessage (scope : UInt8) (sender group : UInt32) (service : CText) (kind : UInt8)
      (value : CText) : CodeCall h (groupMessage h scope sender group service kind value)
  | registerDevice (identifier address : CText) : CodeCall h (registerDevice h identifier address)
  | setDeviceName (identifier name : CText) : CodeCall h (setDeviceName h identifier name)
  | setDeviceSecure (identifier : CText) (secure : Bool) :
      CodeCall h (setDeviceSecure h identifier secure)

/-- **What the calls of a host do** in `m`, with whatever arguments. -/
structure AllOrNothing (o : Operations) (host : HostEngine τ) (m : Bridge.Machine τ) : Prop where
  token : ∀ h hasRoom call, TokenCall h hasRoom call →
    Returns (engineOf o host) m call (TokenEffect o host hasRoom m)
  code : ∀ h call, CodeCall h call → Returns (engineOf o host) m call (CodeEffect m)
  report : ∀ hasSink r,
    Returns (engineOf o host) m (report hasSink r) (ReportEffect hasSink r m)

/-! ### Codes -/

theorem ofError_ne_ok (e : BridgeError) : Code.ofError e ≠ .ok := by
  cases e <;> exact nofun

theorem ofError_ne_invalidArgument (e : BridgeError) : Code.ofError e ≠ .invalidArgument := by
  cases e <;> exact nofun

theorem ofResult_ne_invalidArgument {β : Type} (r : Except BridgeError β) :
    Code.ofResult r ≠ .invalidArgument := by
  cases r with
  | ok x => exact nofun
  | error e => exact ofError_ne_invalidArgument e

/-- **No reply of a bridge means a bad argument.** -/
theorem codeOf_ne_invalidArgument (r : Reply) : codeOf r ≠ .invalidArgument := by
  cases r with
  | unit r => exact ofResult_ne_invalidArgument r
  | token r => exact ofResult_ne_invalidArgument r
  | device r => exact ofResult_ne_invalidArgument r
  | deadline r => exact ofResult_ne_invalidArgument r
  | _ => exact nofun

/-! ### Calls up to their return -/

section Returns
variable {eng : Engine τ} {m : Bridge.Machine τ} {P : α → Bridge.Machine τ → Prop}

theorem returns_done {a : α} (h : P a m) : Returns eng m (.done a) P :=
  fun _ => ⟨0, a, m, rfl, rfl, h⟩

/-- **A call with a command returns what becomes of the reply.** -/
theorem returns_ask {c : Bridge.Command τ} {result : Reply → α} {p : Bridge.Piece τ}
    (ht : m.table.CommandFree) (hc : ¬ c.IsCycle)
    (hp : m.state.perform eng m.table.isInstalled c = p)
    (h : ∀ m' : Bridge.Machine τ, m'.state = { p.1 with log := [] } →
      (∀ r, p.2 = .reply r →
        m'.trace = m.trace ++ .called c :: (p.1.log.map .happened ++ [.returned c r])) →
      P (result (Bridge.finalReply p)) m') :
    Returns eng m (.ask c result) P := by
  intro next
  obtain ⟨n, m', hrun, hstack, hstate, htrace⟩ := Bridge.command_returns eng
    (m := m.load ((Call.ask c result).andThen next)) ht hc hp rfl
  refine ⟨n, _, { m' with stack := m.stack }, ?_, rfl, h _ hstate htrace⟩
  rw [hrun]
  exact congrArg (fun stack => { m' with stack }) hstack

end Returns

/-! ### The engine of a host -/

section Engine
variable {o : Operations} {host : HostEngine τ} {call : EngineCall} {hc : HostCall} {t : Token}

theorem token_of_hostCall? (h : hostCall? o call = some hc) (ht : call.token? = some t) :
    hc.token = t.raw := by
  rw [hostCall?_eq] at h
  split_ifs at h
  obtain rfl := Option.some.inj h
  cases call with
  | submit r =>
    simp only [EngineCall.token?] at ht
    simp [handed, handedRequest, HostCall.token, ht, tokenNumber]
  | discover query scope u => exact congrArg Token.raw (Option.some.inj ht)
  | handshake e password hint u => exact congrArg Token.raw (Option.some.inj ht)
  | _ => cases ht

theorem eq_accepted {a : HostAnswer} (h : call.accepts (fromHost a call) = true) :
    a = .accepted true := by
  have hacc : a.isAccepted = true := by
    cases call with
    | submit r => exact h
    | discover query scope u => exact h
    | handshake e password hint u => exact h
    | _ => cases h
  cases a with
  | accepted b => exact congrArg _ hacc
  | next ms => cases hacc

/-- **What the engine takes, the host has taken.** -/
theorem answer_of_accepts {x : τ} (h : call.accepts (engineOf o host call x).answer = true) :
    ∃ hc, hostCall? o call = some hc ∧ (host hc x).answer = .accepted true := by
  unfold engineOf at h
  split at h
  · cases call <;> cases h
  · next hc hcall => exact ⟨hc, hcall, eq_accepted h⟩

theorem init_answer_ne (o : Operations) (host : HostEngine τ) (i : Identity) (x : τ) :
    (engineOf o host (.init i) x).answer ≠ .readyButStopped := by
  unfold engineOf
  split
  · exact InitAnswer.noConfusion
  · next hc _ =>
    cases h : (host hc x).answer.isAccepted <;> simp only [fromHost, h] <;>
      exact InitAnswer.noConfusion

end Engine

/-! ### All calls -/

section Calls
variable {o : Operations} {host : HostEngine τ} {m : Bridge.Machine τ} {h : Handle}
  {hasRoom : Bool}

theorem tokenResult_of_failure {r : Reply} {e : BridgeError} (hr : r.failure? = some e) :
    tokenResult hasRoom r = { code := .ofError e } := by
  rcases r with (_ | _) | (_ | _) | (_ | _) | (_ | _) | _ | _ | _ | _ | _ | _ | _ | _ <;>
    cases hr <;> rfl

theorem request_cases (h : Handle) (x : RequestTexts) (hasRoom : Bool)
    (make : String → String → Request) :
    (request h x hasRoom make : Call τ _) = invalidToken ∨
      ∃ r, (request h x hasRoom make : Call τ _) = askToken hasRoom (.submit r) := by
  unfold request
  split
  · exact Or.inr ⟨_, rfl⟩
  · exact Or.inl rfl

theorem requestCall_cases {x : RequestTexts} {call : Call τ TokenResult}
    (hc : RequestCall h x hasRoom call) :
    call = invalidToken ∨ ∃ r, call = askToken hasRoom (.submit r) := by
  cases hc with
  | get => exact request_cases h x hasRoom _
  | getLinks => exact request_cases h x hasRoom _
  | post body =>
    unfold post
    split
    · exact Or.inl rfl
    · exact request_cases h x hasRoom _
  | put body =>
    unfold put
    split
    · exact Or.inl rfl
    · exact request_cases h x hasRoom _
  | delete => exact request_cases h x hasRoom _

/-- **A call that gives out a token** is refused for its arguments, or it asks for one. -/
theorem tokenCall_cases {call : Call τ TokenResult} (hc : TokenCall h hasRoom call)
    (s : Settings) : call = invalidToken ∨
      ∃ c q, call = askToken hasRoom c ∧ Bridge.opens? s c = some q := by
  cases hc with
  | request hc => exact (requestCall_cases hc).imp_right fun ⟨r, h⟩ => ⟨.submit r, _, h, rfl⟩
  | discover scope query =>
    unfold discover
    split
    · exact Or.inr ⟨_, _, rfl, rfl⟩
    · exact Or.inl rfl
  | handshake identifier password =>
    unfold handshake
    split
    · exact Or.inr ⟨_, _, rfl, rfl⟩
    · exact Or.inl rfl

/-- A command that starts the bridge, sends a group message or changes a device. -/
def LeavesTokens : Bridge.Command τ → Prop
  | .start _ | .groupMessage .. | .register .. | .setName .. | .setSecure .. => True
  | _ => False

theorem codeCall_cases {call : Call τ Code} (hc : CodeCall h call) :
    call = invalid ∨ ∃ c, call = askCode c ∧ LeavesTokens c := by
  cases hc with
  | start identity =>
    unfold start
    split
    · exact Or.inl rfl
    split
    · exact Or.inr ⟨_, rfl, trivial⟩
    split
    · exact Or.inl rfl
    · exact Or.inr ⟨_, rfl, trivial⟩
  | groupMessage scope sender group service kind value =>
    unfold groupMessage
    split
    · exact Or.inr ⟨_, rfl, trivial⟩
    · exact Or.inl rfl
  | registerDevice identifier address =>
    unfold registerDevice
    split
    · exact Or.inr ⟨_, rfl, trivial⟩
    · exact Or.inl rfl
  | setDeviceName identifier name =>
    unfold setDeviceName
    split
    · exact Or.inr ⟨_, rfl, trivial⟩
    · exact Or.inl rfl
  | setDeviceSecure identifier secure =>
    unfold setDeviceSecure
    split
    · exact Or.inr ⟨_, rfl, trivial⟩
    · exact Or.inl rfl

theorem LeavesTokens.not_isCycle {c : Bridge.Command τ} (hc : LeavesTokens c) :
    ¬ c.IsCycle := by
  cases c with
  | poll => exact hc.elim
  | cycle => exact hc.elim
  | _ => exact id

/-- **Such a command leaves the pending tokens as they are.** -/
theorem LeavesTokens.correlator {c : Bridge.Command τ} (hc : LeavesTokens c) (o : Operations)
    (host : HostEngine τ) (installed : Category → Bool) (b : Bridge τ) :
    (b.perform (engineOf o host) installed c).1.correlator = b.correlator := by
  cases c with
  | start identity =>
    exact (Bridge.start_started (engineOf o host) identity).correlator.resolve_right
      fun ⟨_, i, hi⟩ => init_answer_ne o host i b.engine hi
  | groupMessage scope msg =>
    simp only [Bridge.perform, Bridge.groupMessage]
    split
    · rfl
    split
    · rfl
    all_goals
      next hcall => exact (Bridge.callLive_correlator hcall :)
  | register identifier address =>
    simp only [Bridge.perform, Bridge.replying, Bridge.register]
    split <;> rfl
  | setName identifier name =>
    simp only [Bridge.perform, Bridge.replying, Bridge.setName]
    split
    · split <;> rfl
    · rfl
  | setSecure identifier secure =>
    simp only [Bridge.perform, Bridge.replying, Bridge.setSecure]
    split <;> rfl
  | _ => exact hc.elim

/-- **A piece that is to give out a token** has the effect of such a call. -/
theorem tokenEffect_of_piece {c : Bridge.Command τ} {q : Pending} {p : Bridge.Piece τ}
    {m' : Bridge.Machine τ} (hq : Bridge.opens? m.state.settings c = some q)
    (hg : Bridge.Granting (engineOf o host) m.state p) (hat : Bridge.Atomic m.state c p)
    (hfresh : m.state.correlator.Fresh) (hlim : m.state.correlator.issued < Token.limit)
    (hstate : m'.state = { p.1 with log := [] })
    (htrace : ∀ r, p.2 = .reply r →
      m'.trace = m.trace ++ .called c :: (p.1.log.map .happened ++ [.returned c r])) :
    TokenEffect o host hasRoom m (tokenResult hasRoom (Bridge.finalReply p)) m' := by
  have htable : m'.state.correlator.table = p.1.correlator.table := by rw [hstate]
  cases hg with
  | failed e reply =>
    have hfail : (Bridge.finalReply p).failure? = some e := by rw [reply]; rfl
    rw [tokenResult_of_failure hfail]
    exact ⟨fun h => absurd h (ofError_ne_invalidArgument e), fun h => absurd h (ofError_ne_ok e),
      fun _ => ⟨rfl, htable.trans (hat.pending_of_failed hfail hfresh)⟩⟩
  | granted call reply asked =>
    obtain ⟨hc, hhanded, hanswer⟩ := answer_of_accepts asked.accepted
    rw [Bridge.finalReply_of_reply reply]
    exact ⟨nofun,
      fun _ => ⟨_, q, c, _, call, hc, rfl, Correlator.raw_after_ne_zero hlim,
        ⟨htrace _ reply, asked.calls, hhanded, token_of_hostCall? hhanded asked.token, hanswer⟩,
        htable.trans (hat.pending_of_granted reply hq hfresh)⟩,
      fun h => absurd rfl h⟩

theorem tokenCall_returns (ht : m.table.CommandFree) (hl : m.state.log = [])
    (hn : Bridge.Numbered m.state) (hfresh : m.state.correlator.Fresh)
    (hlim : m.state.correlator.issued < Token.limit) {call : Call τ TokenResult}
    (hc : TokenCall h hasRoom call) :
    Returns (engineOf o host) m call (TokenEffect o host hasRoom m) := by
  rcases tokenCall_cases hc m.state.settings with rfl | ⟨c, q, rfl, hq⟩
  · exact returns_done ⟨fun _ => rfl, nofun, fun _ => ⟨rfl, rfl⟩⟩
  · have hr := Bridge.isRequest_of_opens? hq
    exact returns_ask ht hr.not_isCycle rfl fun m' hstate htrace =>
      tokenEffect_of_piece hq (Bridge.perform_granting hl m.table.isInstalled hq)
        (Bridge.request_atomic hl hn m.table.isInstalled hr) hfresh hlim hstate htrace

theorem codeCall_returns (ht : m.table.CommandFree) {call : Call τ Code} (hc : CodeCall h call) :
    Returns (engineOf o host) m call (CodeEffect m) := by
  rcases codeCall_cases hc with rfl | ⟨c, rfl, hleaves⟩
  · exact returns_done ⟨fun _ => rfl, rfl⟩
  · refine returns_ask ht hleaves.not_isCycle rfl fun m' hstate _ =>
      ⟨fun h => absurd h (codeOf_ne_invalidArgument _), ?_⟩
    rw [hstate]
    exact congrArg _ (hleaves.correlator o host m.table.isInstalled m.state)

theorem report_returns (ht : m.table.CommandFree) (hl : m.state.log = []) (hasSink : Bool)
    (r : Report) : Returns (engineOf o host) m (report hasSink r) (ReportEffect hasSink r m) := by
  unfold report
  split
  · next e he =>
    refine returns_ask ht id rfl fun m' hstate _ => ⟨?_, fun hfalse => ?_⟩
    · rintro (h | h)
      · cases h
      · rw [he] at h
        cases h
    · -- The queue was closed, or else the event would be in it.
      have hperf : m.state.perform (engineOf o host) m.table.isInstalled (.push e) =
          Bridge.replying .flag (m.state.push e) := rfl
      rw [hperf] at hstate hfalse
      unfold Bridge.push at hstate hfalse
      split_ifs at hstate hfalse
      · rw [hstate]
        exact congrArg (fun log => { m.state with log }) hl.symm
      · cases hfalse
  · exact returns_done ⟨fun _ => ⟨rfl, rfl⟩, fun _ => rfl⟩

end Calls

/-- **A call does what it is asked, or nothing.** At any point of the use of a bridge that a host
made, no callback issues a command, there are numbers left for tokens, and the host makes a
call. -/
theorem calls_all_or_nothing {o : Operations} {path : CText} {contents : String → Option Bytes}
    {overrides : Settings.Overrides} {threading : Option Threading} {engine : τ} {b : Bridge τ}
    (host : HostEngine τ)
    (hb : create? (some o) path contents overrides threading engine = some b)
    (p : Bridge.Program τ) {m : Bridge.Machine τ}
    (hu : Bridge.Use (engineOf o host) (Dispatch.Machine.load { state := b } p) m)
    (ht : m.table.CommandFree) (hlim : m.state.correlator.issued < Token.limit) :
    AllOrNothing o host m := by
  have hnew := Bridge.make_eq_ok (make_of_create? hb)
  have hl : m.state.log = [] := Bridge.use_log hu trivial (by rw [hnew]; rfl)
  have hn : Bridge.Numbered m.state := (Bridge.numbered_kept _).use hu trivial
    (by rw [hnew]; exact fun d hd => nomatch hd)
  have hcounted : Bridge.Counted m.state := (Bridge.counted_kept _).use hu trivial
    (by rw [hnew]; exact fun _ => Correlator.bounded_of_table rfl)
  have hfresh := (hcounted hlim.le).find?_after hlim
  exact ⟨fun _ _ _ hc => tokenCall_returns ht hl hn hfresh hlim hc,
    fun _ _ hc => codeCall_returns ht hc, report_returns ht hl⟩

section Demo

open Bench

theorem asking_commandFree (b : Bridge ScriptedHost) :
    ((Dispatch.Machine.load { state := b } asking : Bridge.Machine _).step
      (Bridge.system (engineOf {} ScriptedHost.operations))).table.CommandFree := by
  refine HandlerTable.CommandFree.installAll ?quiet Category.all nofun
  case quiet => exact fun _ _ => .done

/-- A request is pending, and the handler that all categories share does nothing. -/
theorem calls_all_or_nothing_asked :
    ∃ b, create? (some {}) none (fun _ => none) {} (some .cooperative) ({} : ScriptedHost) =
        some b ∧
      (asked b).state.correlator.table = [(⟨1⟩, .request ⟨"A", "/p", "t"⟩)] ∧
      AllOrNothing {} ScriptedHost.operations (asked b) := by
  have hb : create? (some {}) none (fun _ => none) {} (some .cooperative) ({} : ScriptedHost) =
    some _ := rfl
  exact ⟨_, hb, by decide +kernel,
    calls_all_or_nothing ScriptedHost.operations hb asking (m := asked _) (Bridge.use_run _ _ 5)
      (by with_unfolding_all exact asking_commandFree _) (by decide +kernel)⟩

end Demo

end Host

end KnxIoT

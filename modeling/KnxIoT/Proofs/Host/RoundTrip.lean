import KnxIoT.Proofs.Bridge.Cycles
import KnxIoT.Proofs.Bridge.Grants
import KnxIoT.Proofs.Bridge.Queue
import KnxIoT.Proofs.Host.Identifiers
import KnxIoT.Proofs.Status.Numbers

/-! # What a host reports and what its callbacks are given

The engine of a host reports events, and the callbacks of the host are called when it polls. In
between an event is read from its arguments in C, waits in the queue, is connected with what its
token stands for, and is put into arguments in C again.

`Delivers` says what calls follow from reports: in their order, one for each report whose token
stands for something of its kind at that moment, and none for any other; `Carries` says what a call
is given. `carries_of_tells` is one report, `delivers_of_tellings` a whole queue, and
`reports_round_trip` puts this together with the poll cycle that handles the queue. It holds when
the callbacks ask nothing and there is one for every category (`attended_of_setCallbacks`). -/

namespace KnxIoT

namespace Host

variable {τ α : Type}

/-! ### Reports and calls -/

/-- A report of one event, not of a discovery reply, whose texts are texts in C. -/
def Report.IsSingle : Report → Prop
  | .response _ _ _ _ source => source.IsText
  | .discoveryReply .. => False
  | .handshakeResult .. => True
  | .gatewayNotification sender _ => sender.IsText
  | .resourceChanged anchor uri types interfaces =>
    anchor.IsText ∧ uri.IsText ∧ types.IsText ∧ interfaces.IsText

/-- **The token of a report, if it has one, stands for something of its kind.** -/
def Report.Fits (c : Correlator) : Report → Prop
  | .response t .. => ∃ x, c.find? ⟨t⟩ = some (.request x)
  | .discoveryReply t .. => ∃ k, c.find? ⟨t⟩ = some (.discovery k)
  | .handshakeResult t .. => ∃ i, c.find? ⟨t⟩ = some (.handshake i)
  | _ => True

/-- What a response brings back of the texts of its request are texts in C. -/
structure RequestTexts.AreTexts (x : RequestTexts) : Prop where
  identifier : x.identifier.IsText
  path : x.path.IsText
  tag : x.tag.IsText

/-- The calls by which a host sends a request with the given texts. -/
inductive RequestCall (h : Handle) (x : RequestTexts) (hasRoom : Bool) : Call τ TokenResult → Prop
  | get : RequestCall h x hasRoom (get h x hasRoom)
  | getLinks : RequestCall h x hasRoom (getLinks h x hasRoom)
  | post (body : CBuffer) : RequestCall h x hasRoom (post h x body hasRoom)
  | put (body : CBuffer) : RequestCall h x hasRoom (put h x body hasRoom)
  | delete : RequestCall h x hasRoom (delete h x hasRoom)

/-- A call issues the command `c`. -/
def Call.Issues (call : Call τ α) (c : Bridge.Command τ) : Prop :=
  ∃ result, call = .ask c result

/-- The texts in the callback for a response are those with which its request was sent. -/
def Recalls (τ : Type) (r : Request) (identifier path tag : String) : Prop :=
  ∀ h x hasRoom (call : Call τ TokenResult), RequestCall h x hasRoom call →
    call.Issues (.submit r) → x.AreTexts →
      textOf identifier = x.identifier ∧ textOf path = x.path ∧
        textOf tag = some (x.tag.getD [])

/-- **What the call of a callback carries for a report,** after the trace `tr`. What belongs to a
token is from the call that gave it out last. -/
def Carries (s : Settings) (tr : List (Bridge.Entry τ)) : Report → CallbackCall → Prop
  | .response t status _ _ _, .clientResponse identifier status' _ tag path _ _ =>
    status' = status ∧ ∃ r, Bridge.GivenBy s tr ⟨t⟩ (.submit r) ∧ Recalls τ r identifier path tag
  | .handshakeResult t status identity secret,
      .handshakeResult identifier status' identity' secret' =>
    status' = status ∧ identity.bytes? = some (identity'.getD []) ∧
      secret.bytes? = some (secret'.getD []) ∧
      ∃ i password, Bridge.GivenBy s tr ⟨t⟩ (.handshake i password) ∧
        ∀ h x y hasRoom, (handshake h x y hasRoom : Call τ _).Issues (.handshake i password) →
          x.IsText → textOf identifier = x
  | .gatewayNotification sender _, .gatewayNotification sender' _ _ => textOf sender' = sender
  | .resourceChanged anchor uri types interfaces,
      .resourceChanged anchor' uri' types' interfaces' =>
    textOf anchor' = some (anchor.getD []) ∧ textOf uri' = some (uri.getD []) ∧
      wordsIn (textOf types') = wordsIn types ∧ wordsIn (textOf interfaces') = wordsIn interfaces
  | _, _ => False

/-- The size that a callback is given is that of the payload that it is given. -/
def CallbackCall.Sized : CallbackCall → Prop
  | .clientResponse _ _ _ _ _ size payload => (textOf payload).map List.length = some size
  | .discoveryResult size payload => (textOf payload).map List.length = some size
  | .gatewayNotification _ size payload => (textOf payload).map List.length = some size
  | _ => True

/-- **The calls that follow from reports,** where `c` is pending. -/
inductive Delivers (s : Settings) (tr : List (Bridge.Entry τ)) :
    Correlator → List Report → List CallbackCall → Prop
  | done (c : Correlator) : Delivers s tr c [] []
  | told {c : Correlator} {r : Report} {e : EngineEvent} {k : CallbackCall} {rs : List Report}
      {ks : List CallbackCall} (event : r.event? = some e) (fits : r.Fits c)
      (carries : Carries s tr r k) (rest : Delivers s tr (c.settle e) rs ks) :
      Delivers s tr c (r :: rs) (k :: ks)
  | dropped {c : Correlator} {r : Report} {rs : List Report} {ks : List CallbackCall}
      (fits : ¬ r.Fits c) (rest : Delivers s tr c rs ks) : Delivers s tr c (r :: rs) ks

section Carries
variable {s : Settings} {tr : List (Bridge.Entry τ)}

/-- **The size of a payload is right** in the call for any notification. -/
theorem sized_ofNotification (n : Notification) : (CallbackCall.ofNotification n).Sized := by
  have key : ∀ p, (textOf (plainText p)).map List.length = some (Utf8.size (plainText p)) := by
    intro p
    rw [textOf_eq (hasZero_plainText p)]
    rfl
  cases n with
  | clientResponse => exact key _
  | discoveryResult => exact key _
  | gatewayNotification => exact key _
  | _ => trivial

theorem texts_of_request {h : Handle} {x : RequestTexts} {hasRoom : Bool}
    {make : String → String → Request} {r : Request}
    (hi : ∀ i p, (make i p).identifier = i) (hp : ∀ i p, (make i p).path = p)
    (hr : (request h x hasRoom make : Call τ TokenResult).Issues (.submit r)) :
    requiredText x.identifier = some r.identifier ∧ requiredText x.path = some r.path ∧
      ∃ tag, optionalText x.tag = some tag ∧ r.tag = tag.getD "" := by
  obtain ⟨result, heq⟩ := hr
  unfold request at heq
  split at heq
  · next s' i p q g hi' hp' hq' hg' =>
    cases heq
    exact ⟨hi'.trans (congrArg some (hi i p).symm), hp'.trans (congrArg some (hp i p).symm), g, hg',
      rfl⟩
  · cases heq

theorem texts_of_requestCall {h : Handle} {x : RequestTexts} {hasRoom : Bool}
    {call : Call τ TokenResult} {r : Request} (hc : RequestCall h x hasRoom call)
    (hr : call.Issues (.submit r)) :
    requiredText x.identifier = some r.identifier ∧ requiredText x.path = some r.path ∧
      ∃ tag, optionalText x.tag = some tag ∧ r.tag = tag.getD "" := by
  cases hc with
  | get => exact texts_of_request (fun _ _ => rfl) (fun _ _ => rfl) hr
  | getLinks => exact texts_of_request (fun _ _ => rfl) (fun _ _ => rfl) hr
  | post body =>
    obtain ⟨result, heq⟩ := hr
    unfold post at heq
    split at heq
    · cases heq
    · exact texts_of_request (fun _ _ => rfl) (fun _ _ => rfl) ⟨result, heq⟩
  | put body =>
    obtain ⟨result, heq⟩ := hr
    unfold put at heq
    split at heq
    · cases heq
    · exact texts_of_request (fun _ _ => rfl) (fun _ _ => rfl) ⟨result, heq⟩
  | delete => exact texts_of_request (fun _ _ => rfl) (fun _ _ => rfl) hr

/-- **A host reads the texts of its request again.** -/
theorem recalls_plainText (r : Request) :
    Recalls τ r (plainText r.identifier) (plainText r.path) (plainText r.tag) := by
  intro h x hasRoom call hc hr hx
  obtain ⟨hi, hp, tag, hg, htag⟩ := texts_of_requestCall hc hr
  obtain ⟨hi, hiz⟩ := eq_of_requiredText hx.identifier hi
  obtain ⟨hp, hpz⟩ := eq_of_requiredText hx.path hp
  obtain ⟨hg, hgz⟩ := eq_of_optionalText hx.tag hg
  rw [plainText_eq_self_iff.mpr hiz, plainText_eq_self_iff.mpr hpz, htag,
    plainText_eq_self_iff.mpr hgz]
  exact ⟨hi.symm, hp.symm, hg⟩

theorem recalls_handshake {h : Handle} {x y : CText} {hasRoom : Bool} {i password : String}
    (hr : (handshake h x y hasRoom).Issues (.handshake i password : Bridge.Command τ))
    (hx : x.IsText) : textOf (plainText i) = x := by
  obtain ⟨result, heq⟩ := hr
  unfold handshake at heq
  split at heq
  · next _ j w hj hw =>
    cases heq
    obtain ⟨hi, hz⟩ := eq_of_requiredText hx hj
    rw [plainText_eq_self_iff.mpr hz, hi]
  · cases heq

theorem getD_bufferOf (bs : Bytes) : (bufferOf bs).getD [] = bs := by
  unfold bufferOf
  split_ifs with h
  · exact h.symm
  · rfl

/-- A token that stands for a request was given out by it. -/
theorem givenBy_of_request {t : Token} {x : RequestContext}
    (h : Bridge.GivenFor s tr t (.request x)) :
    ∃ r, Bridge.GivenBy s tr t (.submit r) ∧ x = ⟨r.identifier, r.path, r.tag⟩ := by
  obtain ⟨c, hc, ho⟩ := h
  cases c with
  | submit r =>
    cases ho
    exact ⟨r, hc, rfl⟩
  | _ => cases ho

theorem givenBy_of_handshake {t : Token} {i : String}
    (h : Bridge.GivenFor s tr t (.handshake i)) :
    ∃ password, Bridge.GivenBy s tr t (.handshake i password) := by
  obtain ⟨c, hc, ho⟩ := h
  cases c with
  | handshake j password =>
    cases ho
    exact ⟨password, hc⟩
  | _ => cases ho

variable {c : Correlator} {r : Report} {e : EngineEvent} {ns : List Notification}

/-- **One report:** it is told once with all that it carries, or not at all. -/
theorem carries_of_tells (hr : r.IsSingle) (he : r.event? = some e) (h : e.Tells c ns)
    (hg : ∀ t p, c.find? t = some p → Bridge.GivenFor s tr t p) :
    (r.Fits c ∧ ∃ n, ns = [n] ∧ Carries s tr r (.ofNotification n)) ∨
      ¬ r.Fits c ∧ ns = [] ∧ c.settle e = c := by
  cases r with
  | response t status format payload source =>
    simp only [Report.event?, Option.bind_eq_bind, Option.pure_def, Option.bind_eq_some_iff,
      Option.some.injEq] at he
    obtain ⟨bs, -, src, -, rfl⟩ := he
    by_cases hf : ∃ x, c.find? ⟨t⟩ = some (.request x)
    · obtain ⟨x, hp⟩ := hf
      obtain ⟨r, hgiven, rfl⟩ := givenBy_of_request (hg _ _ hp)
      exact Or.inl ⟨⟨_, hp⟩, _, h.eq_news rfl hp rfl, Status.code_ofCode status, r, hgiven,
        recalls_plainText r⟩
    · refine Or.inr ⟨hf, h.eq_nil rfl fun p hp => ?_⟩
      cases p with
      | request x => exact absurd ⟨x, hp⟩ hf
      | _ => rfl
  | discoveryReply t payload source handle => exact hr.elim
  | handshakeResult t status identity secret =>
    simp only [Report.event?, Option.bind_eq_bind, Option.pure_def, Option.bind_eq_some_iff,
      Option.some.injEq] at he
    obtain ⟨bs, hbs, bs', hbs', rfl⟩ := he
    by_cases hf : ∃ i, c.find? ⟨t⟩ = some (.handshake i)
    · obtain ⟨i, hp⟩ := hf
      obtain ⟨password, hgiven⟩ := givenBy_of_handshake (hg _ _ hp)
      refine Or.inl ⟨⟨_, hp⟩, _, h.eq_news rfl hp rfl, rfl, ?_, ?_, i, password, hgiven,
        fun _ _ _ _ => recalls_handshake⟩
      · rw [getD_bufferOf, hbs]
      · rw [getD_bufferOf, hbs']
    · refine Or.inr ⟨hf, h.eq_nil rfl fun p hp => ?_⟩
      cases p with
      | handshake i => exact absurd ⟨i, hp⟩ hf
      | _ => rfl
  | gatewayNotification sender payload =>
    simp only [Report.event?, Option.bind_eq_bind, Option.pure_def, Option.bind_eq_some_iff,
      Option.some.injEq] at he
    obtain ⟨str, hstr, bs, hbs, rfl⟩ := he
    refine Or.inl ⟨trivial, _, h, ?_⟩
    obtain ⟨heq, hz⟩ := eq_of_requiredText hr hstr
    simp only [CallbackCall.ofNotification, Carries, plainText_eq_self_iff.mpr hz, heq]
  | resourceChanged anchor uri types interfaces =>
    simp only [Report.event?, Option.bind_eq_bind, Option.pure_def, Option.bind_eq_some_iff,
      Option.some.injEq] at he
    obtain ⟨a, ha, u, hu, ts, hts, is, his, rfl⟩ := he
    obtain ⟨hra, hru, hrt, hri⟩ := hr
    obtain ⟨haeq, haz⟩ := eq_of_optionalText hra ha
    obtain ⟨hueq, huz⟩ := eq_of_optionalText hru hu
    refine Or.inl ⟨trivial, _, h, ?_, ?_, wordsIn_textOf hrt hts, wordsIn_textOf hri his⟩
    · rw [plainText_eq_self_iff.mpr haz, haeq]
    · rw [plainText_eq_self_iff.mpr huz, hueq]

/-- **A whole queue of reports.** -/
theorem delivers_of_tellings {rs : List Report} {es : List EngineEvent}
    (hr : ∀ r ∈ rs, r.IsSingle) (he : List.Forall₂ (fun r e => r.event? = some e) rs es)
    (h : Tellings c es ns) (hg : ∀ t p, c.find? t = some p → Bridge.GivenFor s tr t p) :
    Delivers s tr c rs (ns.map .ofNotification) := by
  induction he generalizing c ns with
  | nil =>
    cases h
    exact .done c
  | @cons r e rs es hre _ ih =>
    cases h with
    | @cons _ _ _ now later hnow hlater =>
      have hrest : Delivers s tr (c.settle e) rs (later.map .ofNotification) :=
        ih (fun r hr' => hr r (by simp [hr'])) hlater fun t p hp =>
          hg t p (Correlator.find?_of_settle hp)
      rcases carries_of_tells (hr r (by simp)) hre hnow hg with ⟨hf, n, rfl, hk⟩ | ⟨hf, rfl, hc⟩
      · exact .told hre hf hk hrest
      · rw [hc] at hrest
        exact .dropped hf hrest

end Carries

/-! ### Runs -/

/-- A program that reports one event after the other and goes on with what the calls return. -/
def feed : List Report → (List Bool → Bridge.Program τ) → Bridge.Program τ
  | [], next => next []
  | r :: rs, next => (report true r).andThen fun ok => feed rs fun oks => next (ok :: oks)

/-- A program that reports events and then polls. -/
def reportAndPoll (h : Handle) (rs : List Report) (hasRoom : Bool)
    (next : List Bool → PollResult → Bridge.Program τ) : Bridge.Program τ :=
  feed rs fun oks => (poll h hasRoom).andThen (next oks)

/-- **What has come of reports** when the machine has gone from `m` to `m'`: calls for the events
that were waiting already, and then calls for the reports. -/
structure RoundTrip (s : Settings) (m m' : Bridge.Machine τ) (rs : List Report)
    (earlier calls : List CallbackCall) : Prop where
  called : ∃ es, m'.trace = m.trace ++ es ∧
    (Bridge.toldIn es).map CallbackCall.ofNotification = earlier ++ calls
  waiting : ∃ ns, Tellings m.state.correlator m.state.queue.events ns ∧
    earlier = ns.map CallbackCall.ofNotification
  delivers : Delivers s m.trace (m.state.queue.events.foldl Correlator.settle m.state.correlator) rs
    calls
  sized : ∀ k ∈ earlier ++ calls, k.Sized

section Runs
variable {eng : Engine τ} {m : Bridge.Machine τ}
  {below : List (Dispatch.Frame (Bridge.Command τ) Rest Reply)}

/-- **A set of all callbacks attends to every category,** if none of them asks anything. -/
theorem attended_of_setCallbacks (eng : Engine τ) {s : Settings} {set : CallbackSet}
    {handler : Bridge.Handler τ} {next : Code → Bridge.Program τ} (hall : ∀ c, set.given c = true)
    (hq : ∀ k n, (handler.react k n).Quiet)
    (hs : m.stack = .run (setCallbacks (some s) (some set) handler next) :: below) :
    (m.step (Bridge.system eng)).stack = .run (next .ok) :: below ∧
      (m.step (Bridge.system eng)).table.Attended := by
  have hset : set.categories = Category.all := List.filter_eq_self.mpr fun c _ => hall c
  have hprogram : setCallbacks (some s) (some set) handler next =
      .install Category.all handler fun _ => next .ok := by
    simp only [setCallbacks, hset]
    rfl
  have hstep : m.step (Bridge.system eng) =
      { (m.install Category.all handler).2 with stack := .run (next .ok) :: below } := by
    unfold Dispatch.Machine.step
    rw [hs, hprogram]
  rw [hstep]
  exact ⟨rfl, fun c => ⟨⟨m.calls.length, handler⟩, by cases c <;> rfl, hq⟩⟩

/-- The bridge with further events in its queue. -/
def withQueued (b : Bridge τ) (es : List EngineEvent) (wake : WakeSignal) : Bridge τ :=
  { b with queue := { b.queue with events := b.queue.events ++ es }, wake }

theorem report_eq {r : Report} {e : EngineEvent} (h : r.event? = some e) : ∃ result,
    (report true r : Call τ Bool) = .ask (.push e) result ∧ result (.flag true) = true := by
  unfold report
  rw [h]
  exact ⟨_, rfl, rfl⟩

/-- **Reporting events queues them,** and nobody is told. -/
theorem feed_steps (eng : Engine τ) {rs : List Report} {es : List EngineEvent}
    (he : List.Forall₂ (fun r e => r.event? = some e) rs es) (hl : m.state.log = [])
    (hc : m.state.queue.closed = false) {next : List Bool → Bridge.Program τ}
    (hs : m.stack = .run (feed rs next) :: below) :
    ∃ m' wake, Bridge.Steps eng m m' ∧ m'.stack = .run (next (rs.map fun _ => true)) :: below ∧
      m'.table = m.table ∧ Bridge.toldIn m'.trace = Bridge.toldIn m.trace ∧
      m'.state = withQueued m.state es wake := by
  induction he generalizing m next with
  | nil => exact ⟨m, m.state.wake, .refl, hs, rfl, rfl, by simp [withQueued]⟩
  | @cons r e rs es hre _ ih =>
    obtain ⟨result, hreport, hresult⟩ := report_eq (τ := τ) hre
    rw [feed, hreport, Call.andThen] at hs
    have hpush : m.state.perform eng m.table.isInstalled (.push e) =
        ({ withQueued m.state [e] m.state.wake.latch with log := [.queued e] },
          .reply (.flag true)) := by
      simp [Bridge.perform, Bridge.replying, Bridge.push, Bridge.note, hc, hl, withQueued]
    obtain ⟨m₁, h₁, hstack₁, htable₁, htold₁, hstate₁⟩ := Bridge.reply_steps hs hpush
    dsimp only at hstack₁ hstate₁
    rw [hresult] at hstack₁
    obtain ⟨m', wake, h, hstack, htable, htold, hstate⟩ :=
      ih (by rw [hstate₁]) (by rw [hstate₁]; exact hc) hstack₁
    refine ⟨m', wake, h₁.trans h, hstack, htable.trans htable₁, htold.trans htold₁, ?_⟩
    rw [hstate, hstate₁]
    simp [withQueued, hl]

/-- **A host that polls without anything new** has the queue handled to its end. -/
theorem poll_steps {o : Operations} (host : HostEngine τ) (hpoll : o.poll = true)
    (ht : m.table.Attended) (hrun : m.state.loop.state = .running) (hlive : m.state.phase = .live)
    (hcoop : m.state.settings.threading = .cooperative)
    (hidle : (host .poll m.state.engine).pushed = []) {s : Settings} {hasRoom : Bool}
    (next : PollResult → Bridge.Program τ)
    (hs : m.stack = .run ((poll (some s) hasRoom).andThen next) :: below) :
    ∃ m' ns result, Bridge.Steps (engineOf o host) m m' ∧ m'.stack = .run (next result) :: below ∧
      result.code = .ok ∧ Bridge.toldIn m'.trace = Bridge.toldIn m.trace ++ ns ∧
      Tellings m.state.correlator m.state.queue.events ns := by
  have hpushed : (engineOf o host .poll m.state.engine).pushed = [] := by
    simp only [engineOf, hostCall?, hpoll, if_true]
    exact hidle
  have hc : Bridge.cycle? (engineOf o host) .poll m.state =
      some (.reply (.deadline (.ok (m.state.callEngine (engineOf o host) .poll).1)),
        (m.state.callEngine (engineOf o host) .poll).2) :=
    if_pos ⟨by simp [EventLoop.isRunning, hrun], by simp [hcoop], hlive⟩
  have hq : (m.state.callEngine (engineOf o host) .poll).2.queue.events = m.state.queue.events := by
    rw [Bridge.callEngine_eq]
    simp [Bridge.pushedBy, hpushed, Bridge.accepted]
  rw [poll, Call.andThen] at hs
  obtain ⟨m', ns, hsteps, hstack, htold, hns⟩ := Bridge.cycle_steps ht hs hc
  rw [hq] at hns
  exact ⟨m', ns, _, hsteps, hstack, rfl, htold, hns⟩

end Runs

theorem exists_events {rs : List Report} (h : ∀ r ∈ rs, r.event?.isSome) :
    ∃ es, List.Forall₂ (fun r e => Report.event? r = some e) rs es := by
  induction rs with
  | nil => exact ⟨[], .nil⟩
  | cons r rs ih =>
    obtain ⟨e, he⟩ := Option.isSome_iff_exists.mp (h r (by simp))
    obtain ⟨es, hes⟩ := ih fun r hr => h r (by simp [hr])
    exact ⟨e :: es, .cons he hes⟩

theorem poll_of_create? {o : Operations} {path : CText} {contents : String → Option Bytes}
    {overrides : Settings.Overrides} {threading : Option Threading} {engine : τ} {b : Bridge τ}
    (h : create? (some o) path contents overrides threading engine = some b) : o.poll = true := by
  unfold create? at h
  split at h
  · next o' _ ho _ =>
    cases ho
    split_ifs at h with hcomplete
    simp only [Operations.isComplete, Bool.and_eq_true] at hcomplete
    exact hcomplete.1.2
  · cases h

/-- **What a host reports comes back to its callbacks.** At any point of the use of a bridge that a
host made, while the bridge runs and no callback asks anything, the host reports events and then
polls. -/
theorem reports_round_trip {o : Operations} {path : CText} {contents : String → Option Bytes}
    {overrides : Settings.Overrides} {threading : Option Threading} {engine : τ} {b : Bridge τ}
    (host : HostEngine τ)
    (hb : create? (some o) path contents overrides threading engine = some b)
    (p : Bridge.Program τ) {m : Bridge.Machine τ}
    (hu : Bridge.Use (engineOf o host) (Dispatch.Machine.load { state := b } p) m)
    (hrun : m.state.loop.state = .running) (hcoop : b.settings.threading = .cooperative)
    (ht : m.table.Attended) (hidle : (host .poll m.state.engine).pushed = []) {rs : List Report}
    (hr : ∀ r ∈ rs, r.IsSingle ∧ r.event?.isSome) (hasRoom : Bool)
    (next : List Bool → PollResult → Bridge.Program τ) :
    ∃ n m' result earlier calls,
      (m.load (reportAndPoll (some b.settings) rs hasRoom next)).run
        (Bridge.system (engineOf o host)) n = m' ∧
      m'.stack = .run (next (rs.map fun _ => true) result) :: m.stack ∧ result.code = .ok ∧
      RoundTrip b.settings m m' rs earlier calls := by
  have hmake := make_of_create? hb
  have hstacked : Dispatch.Machine.Stacked m.stack := Bridge.use_stacked hu trivial
  have hlog : m.state.log = [] := Bridge.use_log hu trivial (by rw [Bridge.make_eq_ok hmake]; rfl)
  have hset : m.state.settings = b.settings :=
    (Bridge.settings_kept _ b.settings).use hu trivial rfl
  have horderly : Bridge.Orderly m.state :=
    (Bridge.orderly_kept _).use hu trivial (Bridge.orderly_make hmake)
  have hgiven : Bridge.Given b.settings m := (Bridge.load_given hmake p).use hu trivial rfl
  have hlive : m.state.phase = .live := horderly.running hrun
  obtain ⟨events, he⟩ := exists_events fun r h => (hr r h).2
  -- The reports are queued, and then the queue is handled.
  obtain ⟨m₁, wake, h₁, hstack₁, htable₁, htold₁, hstate₁⟩ :=
    feed_steps (engineOf o host) (m := m.load (reportAndPoll (some b.settings) rs hasRoom next)) he
      hlog (Bridge.not_closed_of_live horderly hlive) rfl
  obtain ⟨m', ns, result, h₂, hstack, hcode, htold, hns⟩ :=
    poll_steps host (poll_of_create? hb) (by rw [htable₁]; exact ht)
      (by rw [hstate₁]; exact hrun) (by rw [hstate₁]; exact hlive)
      (by rw [hstate₁]; exact (congrArg Settings.threading hset).trans hcoop)
      (by rw [hstate₁]; exact hidle) (next (rs.map fun _ => true)) hstack₁
  obtain ⟨n, hn⟩ := (h₁.trans h₂).exists_run
  obtain ⟨es, hes⟩ := Dispatch.Machine.run_trace_mono (Bridge.system (engineOf o host))
    (m := m.load (reportAndPoll (some b.settings) rs hasRoom next)) hstacked (Nat.zero_le n)
  rw [hn] at hes
  have htrace : m'.trace = m.trace ++ es := hes.symm
  have hes : Bridge.toldIn es = ns := by
    rw [htrace, Bridge.toldIn_append, htold₁] at htold
    exact List.append_cancel_left htold
  rw [hstate₁] at hns
  obtain ⟨ns₁, ns₂, rfl, hns₁, hns₂⟩ := Tellings.split hns
  refine ⟨n, m', result, ns₁.map .ofNotification, ns₂.map .ofNotification, hn, hstack, hcode,
    ⟨es, htrace, by rw [hes, List.map_append]⟩, ⟨ns₁, hns₁, rfl⟩, ?_, fun k hk => ?_⟩
  · refine delivers_of_tellings (fun r h => (hr r h).1) he hns₂ fun t q hq => ?_
    exact hgiven.pending t q (Correlator.find?_of_settleAll hq)
  · rw [← List.map_append] at hk
    obtain ⟨x, -, rfl⟩ := List.mem_map.mp hk
    exact sized_ofNotification x

section Demo

open Bench

/-- A host program that installs all callbacks, starts the bridge and sends a request. -/
def asking : Bridge.Program ScriptedHost :=
  setCallbacks (some polled) (some ⟨fun _ => true⟩) (.mk "host" fun _ _ => .done) fun _ =>
    (start (some polled) none).andThen fun _ =>
      (registerDevice (some polled) (some (Utf8.encode "A")) (some (Utf8.encode "fe80::1"))).andThen
        fun _ => (get (some polled) ⟨some (Utf8.encode "A"), some (Utf8.encode "/p"), none,
          some (Utf8.encode "t")⟩ true).andThen fun _ => .done

theorem asking_attended (b : Bridge ScriptedHost) :
    ((Dispatch.Machine.load { state := b } asking : Bridge.Machine _).step
      (Bridge.system (engineOf {} ScriptedHost.operations))).table.Attended := by
  refine (attended_of_setCallbacks _ ?given ?quiet rfl).2
  case given => exact fun _ => rfl
  case quiet => exact fun _ _ => .done

/-- The run of the program up to its end. -/
def asked (b : Bridge ScriptedHost) : Bridge.Machine ScriptedHost :=
  (Dispatch.Machine.load { state := b } asking : Bridge.Machine _).run
    (Bridge.system (engineOf {} ScriptedHost.operations)) 5

/-- The request is answered twice, and a handshake that nobody asked for is reported. -/
def answers : List Report :=
  [.response 1 (-40) 60 (.ofBytes []) none, .response 1 0 60 (.ofBytes []) none,
    .handshakeResult 1 0 (.ofBytes []) (.ofBytes []),
    .resourceChanged none none (some (Utf8.encode "a  b")) none]

theorem answers_single : ∀ r ∈ answers, r.IsSingle ∧ r.event?.isSome := by
  intro r hr
  simp only [answers, List.mem_cons, List.not_mem_nil, or_false] at hr
  rcases hr with rfl | rfl | rfl | rfl
  · exact ⟨nofun, by decide⟩
  · exact ⟨nofun, by decide⟩
  · exact ⟨trivial, by decide⟩
  · exact ⟨⟨nofun, nofun, by rintro _ ⟨⟩; decide, nofun⟩, by decide +kernel⟩

theorem reports_round_trip_answered_twice :
    ∃ b, create? (some {}) none (fun _ => none) {} (some .cooperative) ({} : ScriptedHost) =
        some b ∧
      (asked b).state.correlator.find? ⟨1⟩ = some (.request ⟨"A", "/p", "t"⟩) ∧
      ∃ n m', ∃ result : PollResult, ∃ earlier calls,
        ((asked b).load (reportAndPoll (some polled) answers true fun _ _ => .done)).run
          (Bridge.system (engineOf {} ScriptedHost.operations)) n = m' ∧
        m'.stack = .run .done :: (asked b).stack ∧ result.code = Code.ok ∧
        RoundTrip polled (asked b) m' answers earlier calls := by
  have hb : create? (some {}) none (fun _ => none) {} (some .cooperative) ({} : ScriptedHost) =
    some _ := rfl
  refine ⟨_, hb, by decide +kernel, ?_⟩
  obtain ⟨n, m', result, earlier, calls, h⟩ := reports_round_trip ScriptedHost.operations hb asking
    (m := asked _) (Bridge.use_run _ _ 5) (by decide +kernel) rfl
    (by with_unfolding_all exact asking_attended _) (by decide +kernel) answers_single true
    fun _ _ => .done
  exact ⟨n, m', result, earlier, calls, h⟩

end Demo

end Host

end KnxIoT

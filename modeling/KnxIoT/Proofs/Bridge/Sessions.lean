import KnxIoT.Bench.ScriptedEngine
import KnxIoT.Proofs.Bridge.Moments
import KnxIoT.Proofs.Bridge.News

/-! # Sessions and handshakes are correlated

`Correlated` says of a run how discovery replies and handshake results go with the commands that
returned their tokens, and that an event under any other token changes nothing. It speaks of the
moments at which events are handled, and says that what the handling comes to is what the steps of
the run leave (`Carried`). `sessions_correlated`: every run of programs on a bridge has this
property. -/

namespace KnxIoT.Bridge

variable {σ : Type}

section Positions
variable (tr : List (Entry σ))

/-- At position `i` a discovery returns the token `t`. -/
def DiscoveringAt (i : ℕ) (t : Token) : Prop :=
  ∃ c, (c = .discoverDefault ∨ ∃ scope query, c = .discover scope query) ∧
    tr[i]? = some (.returned c (.token (.ok t)))

/-- At position `i` the beginning of a handshake with a device returns the token `t`. -/
def ShakingAt (i : ℕ) (identifier : String) (t : Token) : Prop :=
  ∃ password, tr[i]? = some (.returned (.handshake identifier password) (.token (.ok t)))

/-- At position `j` the result of the handshake `t` is taken from the queue. -/
def ResultAt (j : ℕ) (t : Token) (status : Int32) (identity secret : Bytes) : Prop :=
  tr[j]? = some (.happened (.taken (.handshakeResult t status identity secret)))

/-- At position `k` the notification `n` of a handshake is dispatched. -/
def ToldAt (k : ℕ) (n : Notification) : Prop :=
  n.category = .handshakeResult ∧ ∃ h, tr[k]? = some (.notified n h)

/-- The result of the handshake `t` that is taken at `j` is dispatched at once. -/
def ShakenAt (j : ℕ) (t : Token) : Prop :=
  (∃ status identity secret, ResultAt tr j t status identity secret) ∧ ∃ n, ToldAt tr (j + 1) n

end Positions

/-- At this moment the event has no effect: all stays as it is, and nobody is told. -/
def Moment.Inert (M : Moment σ) : Prop := M.outcome = (M.bridge, none)

/-- At this moment the event is announced as a reply to a discovery. -/
def Moment.Announces (M : Moment σ) (t : Token) (payload : Bytes) (source : Endpoint) : Prop :=
  let text := Utf8.decodeLossy payload
  let r := announce t 0 source text M.finish (Discovery.serialsIn text) M.bridge
  M.outcome = (r.1, some (r.2.1, r.2.2))

/-- **How sessions and handshakes go** in a run of `n` steps from `m`. -/
structure Correlated (s : Settings) (eng : Engine σ) (m : Machine σ) (n : ℕ)
    (tr : List (Entry σ)) : Prop where
  /-- Every event that is taken from the queue is handled at some moment. -/
  handled : ∀ j e, tr[j]? = some (.happened (.taken e)) → ∃ M, HandledAt eng m n j M ∧ M.event = e
  /-- What handling it makes of the bridge, and whom it tells, is what its step goes on with. -/
  carried : ∀ j M, HandledAt eng m n j M →
    ∃ k < n, M ∈ moments eng (m.run (system eng) k) ∧ Carried eng (m.run (system eng) k)
  /-- A discovery that ends with the first reply: one reply at most has an effect. -/
  singleShot : s.discoveryMode = .singleShot → ∀ i t, DiscoveringAt tr i t →
    ∀ j j' M M', HandledAt eng m n j M → HandledAt eng m n j' M' →
      (∃ payload source, M.event = .discoveryReply t payload source) →
      (∃ payload source, M'.event = .discoveryReply t payload source) →
      ¬ M.Inert → ¬ M'.Inert → j = j'
  /-- A discovery that goes on: every reply is announced until somebody stops the bridge. -/
  continuous : s.discoveryMode = .continuous → ∀ i t, DiscoveringAt tr i t →
    ∀ j M payload source, HandledAt eng m n j M → M.event = .discoveryReply t payload source →
      i < j → UnstoppedBetween tr i j → M.Announces t payload source
  /-- At most one result of a handshake is dispatched. -/
  shakenOnce : ∀ i identifier t j j', ShakingAt tr i identifier t → ShakenAt tr j t →
    ShakenAt tr j' t → j = j'
  /-- One is dispatched exactly when a result is taken before somebody stopped the bridge. -/
  shakenAnswered : ∀ i identifier t, ShakingAt tr i identifier t → ((∃ j, ShakenAt tr j t) ↔
    ∃ j status identity secret, i < j ∧ ResultAt tr j t status identity secret ∧
      UnstoppedBetween tr i j)
  /-- It is that of the first event for the handshake, and it names the device. -/
  shakenFirst : ∀ i identifier t j status identity secret n, ShakingAt tr i identifier t →
    ResultAt tr j t status identity secret → ToldAt tr (j + 1) n →
    i < j ∧ n = .handshakeResult identifier status identity secret ∧
      ∀ k status identity secret, i < k → k < j → ¬ ResultAt tr k t status identity secret
  /-- Every other one that is dispatched tells that the beginning of a handshake was refused. -/
  shakenOnly : ∀ k n, ToldAt tr k n →
    (∃ i identifier j t, ShakingAt tr i identifier t ∧ ShakenAt tr j t ∧ i < j ∧ k = j + 1) ∨
    ∃ i identifier password, i < k ∧ tr[i]? = some (.called (.handshake identifier password)) ∧
      n = .handshakeResult identifier (-1) [] []
  /-- An event whose token is not open, or stands for something of another kind, has no effect. -/
  stray : ∀ j M t, HandledAt eng m n j M → M.event.token? = some t →
    (∀ p, Open s (tr.take j) t p → M.event.fits p = false) → M.Inert

section Trace
variable {s : Settings} {tr : List (Entry σ)}

theorem issue?_discovering {i : ℕ} {t : Token} (h : DiscoveringAt tr i t) : ∃ x, tr[i]? = some x ∧
    issue? s x = some (t, .discovery (s.discoveryMode = .continuous)) := by
  obtain ⟨c, rfl | ⟨scope, query, rfl⟩, hi⟩ := h
  · exact ⟨_, hi, rfl⟩
  · exact ⟨_, hi, rfl⟩

theorem issue?_shaking {i : ℕ} {identifier : String} {t : Token} (h : ShakingAt tr i identifier t) :
    ∃ x, tr[i]? = some x ∧ issue? s x = some (t, .handshake identifier) := by
  obtain ⟨password, hi⟩ := h
  exact ⟨_, hi, rfl⟩

theorem shaking_of_issue? {x : Entry σ} {t : Token} {identifier : String}
    (h : issue? s x = some (t, .handshake identifier)) :
    ∃ password, x = .returned (.handshake identifier password) (.token (.ok t)) := by
  unfold issue? at h
  split at h
  · next cmd r =>
    split at h
    · next u q hu ho =>
      cases h
      obtain rfl : r = .token (.ok t) := by
        unfold Reply.granted? at hu
        split at hu <;> cases hu
        rfl
      cases cmd <;> cases ho
      exact ⟨_, rfl⟩
    · cases h
  · cases h

theorem news_of_shaken (hl : Law s (fun _ => none) tr) (hd : Distinct s tr) {j : ℕ} {t : Token}
    {status : Int32} {identity secret : Bytes} {n : Notification}
    (hr : ResultAt tr j t status identity secret) (hn : ToldAt tr (j + 1) n) :
    ∃ identifier, News s tr j (.handshakeResult t status identity secret) t
      (.handshake identifier) n := by
  obtain ⟨hcat, hh, hn⟩ := hn
  obtain ⟨u, p, h⟩ := news_of_notified hl hd hr hn (Or.inr hcat)
  obtain rfl : t = u := by simpa [EngineEvent.token?] using h.token
  cases p with
  | request c => cases h.news
  | discovery c => cases h.news
  | handshake identifier => exact ⟨identifier, h⟩

theorem shaken_of_news (hl : Law s (fun _ => none) tr) (hd : Distinct s tr) {j : ℕ}
    {e : EngineEvent} {t : Token} {identifier : String} {n : Notification}
    (h : News s tr j e t (.handshake identifier) n) : ShakenAt tr j t := by
  obtain ⟨hh, hn⟩ := news_told hl hd h
  have hnews := h.news
  have htok := h.token
  cases e with
  | handshakeResult u status identity secret =>
    cases htok
    cases hnews
    exact ⟨⟨status, identity, secret, h.taken⟩, _, rfl, hh, hn⟩
  | _ => exact absurd hnews nofun

theorem shaken_once (hl : Law s (fun _ => none) tr) (hd : Distinct s tr) {t : Token} {j j' : ℕ}
    (h : ShakenAt tr j t) (h' : ShakenAt tr j' t) : j = j' := by
  obtain ⟨⟨status, identity, secret, hr⟩, n, hn⟩ := h
  obtain ⟨⟨status', identity', secret', hr'⟩, n', hn'⟩ := h'
  obtain ⟨d, hnews⟩ := news_of_shaken hl hd hr hn
  obtain ⟨d', hnews'⟩ := news_of_shaken hl hd hr' hn'
  exact news_unique hd hnews hnews'

theorem shaken_iff (hl : Law s (fun _ => none) tr) (hd : Distinct s tr) {i : ℕ}
    {identifier : String} {t : Token} (hi : ShakingAt tr i identifier t) :
    (∃ j, ShakenAt tr j t) ↔ ∃ j status identity secret,
      i < j ∧ ResultAt tr j t status identity secret ∧ UnstoppedBetween tr i j := by
  obtain ⟨x, hx, hiss⟩ := issue?_shaking (s := s) hi
  constructor
  · rintro ⟨j, ⟨status, identity, secret, hr⟩, n, hn⟩
    obtain ⟨d, hnews⟩ := news_of_shaken hl hd hr hn
    obtain ⟨-, hij, hc⟩ := hnews.opened.eq_of_issue hd hx hiss
    exact ⟨j, status, identity, secret, hij, hr, unstopped_of_closes hc⟩
  · rintro ⟨j, status, identity, secret, hij, hr, hgo⟩
    -- The result at `j` may not be the first one; the token is settled by the first.
    obtain ⟨k, e, hik, hkj, hk, he, ho⟩ :=
      open_of_settles hx hiss hij hr (by simp [EngineEvent.settles]) hgo
    obtain ⟨ht, n, hn⟩ := EngineEvent.news?_of_settles he (by simp)
    exact ⟨k, shaken_of_news hl hd ⟨hk, ht, ho, hn⟩⟩

theorem shaken_first (hl : Law s (fun _ => none) tr) (hd : Distinct s tr) {i j : ℕ}
    {identifier : String} {t : Token} {status : Int32} {identity secret : Bytes}
    {n : Notification} (hi : ShakingAt tr i identifier t)
    (hr : ResultAt tr j t status identity secret) (hn : ToldAt tr (j + 1) n) :
    i < j ∧ n = .handshakeResult identifier status identity secret ∧
      ∀ k status identity secret, i < k → k < j → ¬ ResultAt tr k t status identity secret := by
  obtain ⟨x, hx, hiss⟩ := issue?_shaking (s := s) hi
  obtain ⟨d, hnews⟩ := news_of_shaken hl hd hr hn
  obtain ⟨hd', hij, hc⟩ := hnews.opened.eq_of_issue hd hx hiss
  cases hd'
  have heq := hnews.news
  cases heq
  refine ⟨hij, rfl, fun k status' identity' secret' hik hkj hk => ?_⟩
  have := hc k _ hik hkj hk
  simp [closes, EngineEvent.settles] at this

theorem shaken_only (hl : Law s (fun _ => none) tr) (hd : Distinct s tr) {k : ℕ}
    {n : Notification} (hn : ToldAt tr k n) :
    (∃ i identifier j t, ShakingAt tr i identifier t ∧ ShakenAt tr j t ∧ i < j ∧ k = j + 1) ∨
    ∃ i identifier password, i < k ∧ tr[i]? = some (.called (.handshake identifier password)) ∧
      n = .handshakeResult identifier (-1) [] [] := by
  obtain ⟨hcat, hh, hn⟩ := hn
  rcases news_or_refusal hl hd hn (Or.inr hcat) with ⟨j, e, t, p, rfl, h⟩ |
      ⟨i, c, hik, hi, hr, -⟩
  · obtain ⟨i, x, hij, hi, hx, -⟩ := open_take_iff.mp h.opened
    cases p with
    | request c =>
      have := h.news
      cases e <;> cases this
      cases hcat
    | discovery c =>
      have := h.news
      cases e <;> cases this
    | handshake identifier =>
      obtain ⟨password, rfl⟩ := shaking_of_issue? hx
      exact Or.inl ⟨i, identifier, j, t, ⟨password, hi⟩, shaken_of_news hl hd h, hij, rfl⟩
  · unfold Refusal at hr
    split at hr
    · rcases hr.2 with rfl | rfl <;> cases hcat
    · next identifier password => exact Or.inr ⟨i, identifier, password, hik, hi, hr⟩
    · exact hr.elim

end Trace

section Run
variable {s : Settings} {eng : Engine σ} {m : Machine σ} {n j : ℕ} {M : Moment σ}

theorem find?_eq_some_iff_open (hm : Coherent s m)
    (hlim : (m.run (system eng) n).state.correlator.issued < Token.limit)
    (hM : HandledAt eng m n j M) {t : Token} {q : Pending} :
    M.bridge.correlator.find? t = some q ↔ Open s ((m.run (system eng) n).trace.take j) t q := by
  rw [(hM.facts hm hlim).2.2.1]
  exact ledger_eq_some_iff ((run_coherent hm n hlim).distinct.take j)

theorem inert_of_stray (hm : Coherent s m)
    (hlim : (m.run (system eng) n).state.correlator.issued < Token.limit)
    (hM : HandledAt eng m n j M) {t : Token} (ht : M.event.token? = some t)
    (h : ∀ p, Open s ((m.run (system eng) n).trace.take j) t p → M.event.fits p = false) :
    M.Inert :=
  handle_stray ht fun q hq => h q ((find?_eq_some_iff_open hm hlim hM).mp hq)

/-- A discovery reply that has an effect finds its session open. -/
theorem open_of_not_inert (hm : Coherent s m)
    (hlim : (m.run (system eng) n).state.correlator.issued < Token.limit)
    (hM : HandledAt eng m n j M) {i : ℕ} {t : Token} {payload : Bytes} {source : Endpoint}
    (hi : DiscoveringAt (m.run (system eng) n).trace i t)
    (he : M.event = .discoveryReply t payload source) (h : ¬ M.Inert) :
    Open s ((m.run (system eng) n).trace.take j) t
      (.discovery (s.discoveryMode = .continuous)) := by
  obtain ⟨x, hx, hiss⟩ := issue?_discovering (s := s) hi
  by_contra hopen
  refine h (inert_of_stray hm hlim hM (t := t) (by rw [he]; rfl) fun p hp => absurd ?_ hopen)
  rw [← (hp.eq_of_issue (run_coherent hm n hlim).distinct hx hiss).1]
  exact hp

theorem announces_of_open (hm : Coherent s m)
    (hlim : (m.run (system eng) n).state.correlator.issued < Token.limit)
    (hM : HandledAt eng m n j M) {t : Token} {payload : Bytes} {source : Endpoint}
    (he : M.event = .discoveryReply t payload source)
    (h : Open s ((m.run (system eng) n).trace.take j) t (.discovery true)) :
    M.Announces t payload source := by
  have hfind := (find?_eq_some_iff_open hm hlim hM).mpr h
  have hacc : M.bridge.correlator.acceptReply t = (true, M.bridge.correlator) := by
    simp only [Correlator.acceptReply, hfind]
  unfold Moment.Announces Moment.outcome
  rw [he, handle_discoveryReply hacc]

theorem replied_once (hm : Coherent s m)
    (hlim : (m.run (system eng) n).state.correlator.issued < Token.limit)
    (hmode : s.discoveryMode = .singleShot) {i j' : ℕ} {t : Token} {M' : Moment σ}
    (hi : DiscoveringAt (m.run (system eng) n).trace i t) (hM : HandledAt eng m n j M)
    (hM' : HandledAt eng m n j' M')
    (he : ∃ payload source, M.event = .discoveryReply t payload source)
    (he' : ∃ payload source, M'.event = .discoveryReply t payload source) (h : ¬ M.Inert)
    (h' : ¬ M'.Inert) : j = j' := by
  obtain ⟨payload, source, he⟩ := he
  obtain ⟨payload', source', he'⟩ := he'
  have hopen := open_of_not_inert hm hlim hM hi he h
  have hopen' := open_of_not_inert hm hlim hM' hi he' h'
  have hj := (hM.facts hm hlim).1
  have hj' := (hM'.facts hm hlim).1
  rw [he] at hj
  rw [he'] at hj'
  rw [hmode] at hopen hopen'
  exact settled_unique (run_coherent hm n hlim).distinct hj hopen (by simp [EngineEvent.settles])
    hj' hopen' (by simp [EngineEvent.settles])

theorem announces_of_unstopped (hm : Coherent s m)
    (hlim : (m.run (system eng) n).state.correlator.issued < Token.limit)
    (hmode : s.discoveryMode = .continuous) {i : ℕ} {t : Token} {payload : Bytes}
    {source : Endpoint} (hi : DiscoveringAt (m.run (system eng) n).trace i t)
    (hM : HandledAt eng m n j M) (he : M.event = .discoveryReply t payload source) (hij : i < j)
    (hgo : UnstoppedBetween (m.run (system eng) n).trace i j) :
    M.Announces t payload source := by
  obtain ⟨x, hx, hiss⟩ := issue?_discovering (s := s) hi
  rw [hmode] at hiss
  refine announces_of_open hm hlim hM he (open_take_iff.mpr ⟨i, x, hij, hx, hiss, ?_⟩)
  intro k y hik hkj hk
  unfold closes
  split
  · next e => cases e <;> rfl
  · exact hgo k y hik hkj hk

/-- **A coherent run correlates sessions and handshakes.** -/
theorem correlated_of_coherent (hm : Coherent s m) (htr : m.trace = [])
    (hlim : (m.run (system eng) n).state.correlator.issued < Token.limit) :
    Correlated s eng m n (m.run (system eng) n).trace := by
  have hl := (run_coherent hm n hlim).law
  have hd := (run_coherent hm n hlim).distinct
  exact {
    handled := fun j e hj => exists_handledAt hm hlim (by rw [htr]; exact Nat.zero_le j) hj
    carried := fun j M hM => hM.carried hm.stacked
    singleShot := fun hmode i t hi j j' M M' hM hM' he he' h h' =>
      replied_once hm hlim hmode hi hM hM' he he' h h'
    continuous := fun hmode i t hi j M payload source hM he hij hgo =>
      announces_of_unstopped hm hlim hmode hi hM he hij hgo
    shakenOnce := fun i identifier t j j' _ h h' => shaken_once hl hd h h'
    shakenAnswered := fun i identifier t hi => shaken_iff hl hd hi
    shakenFirst := fun i identifier t j status identity secret n hi hr hn =>
      shaken_first hl hd hi hr hn
    shakenOnly := fun k n hn => shaken_only hl hd hn
    stray := fun j M t hM ht hfit => inert_of_stray hm hlim hM ht hfit }

end Run

/-- **Sessions and handshakes are correlated** in every run of a program on a new bridge, after any
number of steps, whatever the engine answers and reports and whatever the handlers do, as long as
the tokens fit into 64 bits. -/
theorem sessions_correlated {settings : Settings} {engine : σ} {b : Bridge σ} (eng : Engine σ)
    (hb : make settings engine = .ok b) (p : Program σ) (n : ℕ)
    (hlim : ((Dispatch.Machine.load { state := b } p : Machine σ).run
      (system eng) n).state.correlator.issued < Token.limit) :
    Correlated settings eng (Dispatch.Machine.load { state := b } p) n
      ((Dispatch.Machine.load { state := b } p : Machine σ).run (system eng) n).trace :=
  correlated_of_coherent (load_coherent hb p) rfl hlim

section Demo

/-- A program that searches for devices, begins a handshake with a known one and then polls. -/
def searchAndShake : Program Bench.ScriptedEngine :=
  .command (.start none) fun _ => .command .discoverDefault fun _ =>
    .command (.register "00FA" "ff02::1") fun _ =>
      .command (.handshake "00FA" "secret") fun _ => .command .poll fun _ => .done

/-- An engine that replies under the token of the handshake, and reports its result twice. -/
def twiceReporting : Bench.ScriptedEngine :=
  { batches := [[.discoveryReply (.after 1) [] (.unicast "ff02::1"),
      .handshakeResult (.after 1) 0 [1] [2], .handshakeResult (.after 1) 0 [3] [4]]] }

/-- The run of the program with that engine, whose owner drives it. -/
def twiceReported (b : Bridge Bench.ScriptedEngine) : Machine Bench.ScriptedEngine :=
  (Dispatch.Machine.load { state := b } searchAndShake : Machine _).run
    (system Bench.ScriptedEngine.engine) 20

/-- Of two results of a handshake, the first one is dispatched. -/
theorem sessions_correlated_twice_reported :
    ∃ b, make { threading := .cooperative } twiceReporting = .ok b ∧
      (twiceReported b).state.correlator.issued < Token.limit ∧
      Correlated { threading := .cooperative } Bench.ScriptedEngine.engine
        (Dispatch.Machine.load { state := b } searchAndShake) 20 (twiceReported b).trace ∧
      DiscoveringAt (twiceReported b).trace 6 (.after 0) ∧
      ShakingAt (twiceReported b).trace 11 "00FA" (.after 1) ∧
      ShakenAt (twiceReported b).trace 18 (.after 1) :=
  ⟨_, rfl, by decide, sessions_correlated _ rfl _ _ (by decide), ⟨_, Or.inl rfl, rfl⟩, ⟨_, rfl⟩,
    ⟨_, _, _, rfl⟩, _, rfl, _, rfl⟩

end Demo

end KnxIoT.Bridge

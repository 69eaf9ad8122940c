import KnxIoT.Bench.ScriptedEngine
import KnxIoT.Proofs.Bridge.News
import KnxIoT.Proofs.Bridge.Runs

/-! # Every accepted request is answered exactly once

`ExactlyOnce` says of a trace how the dispatched responses answer the accepted submissions, and
`responses_exactly_once` that the trace of every run of programs on a bridge has this property. -/

namespace KnxIoT.Bridge

variable {σ : Type}

section Positions
variable (tr : List (Entry σ))

/-- At position `i` the submission of `r` returns the token `t`. -/
def SubmittedAt (i : ℕ) (r : Request) (t : Token) : Prop :=
  tr[i]? = some (.returned (.submit r) (.token (.ok t)))

/-- At position `j` a response to `t` is taken from the queue, with the given contents. -/
def RespondedAt (j : ℕ) (t : Token) (status : Status) (format : ContentFormat) (payload : Bytes) :
    Prop :=
  ∃ source, tr[j]? = some (.happened (.taken (.response t status format payload source)))

/-- At position `k` the notification `n` of a response is dispatched. -/
def DispatchedAt (k : ℕ) (n : Notification) : Prop :=
  n.category = .clientResponse ∧ ∃ h, tr[k]? = some (.notified n h)

/-- The response to `t` that is taken at `j` is dispatched at once. -/
def CompletedAt (j : ℕ) (t : Token) : Prop :=
  (∃ status format payload, RespondedAt tr j t status format payload) ∧
    ∃ n, DispatchedAt tr (j + 1) n

end Positions

/-- What is dispatched as the response to a request. -/
def responseTo (r : Request) (status : Status) (format : ContentFormat) (payload : Bytes) :
    Notification :=
  let text := Correlator.renderResponse status format payload
  .clientResponse r.identifier status text.format r.tag r.path text.text

/-- **How responses answer submissions** in a trace. -/
structure ExactlyOnce (s : Settings) (tr : List (Entry σ)) : Prop where
  /-- A token is returned by one submission only. -/
  own : ∀ i i' r r' t, SubmittedAt tr i r t → SubmittedAt tr i' r' t → i = i'
  /-- At most one response is dispatched for a token. -/
  once : ∀ i r t j j', SubmittedAt tr i r t → CompletedAt tr j t → CompletedAt tr j' t → j = j'
  /-- One is dispatched exactly when a response is taken after the token was returned, and before
  somebody stopped the bridge; its status and its format do not matter. -/
  answered : ∀ i r t, SubmittedAt tr i r t → ((∃ j, CompletedAt tr j t) ↔
    ∃ j status format payload, i < j ∧ RespondedAt tr j t status format payload ∧
      UnstoppedBetween tr i j)
  /-- It carries the identifier, the path and the mark of the submission that returned the token. -/
  context : ∀ i r t j status format payload n, SubmittedAt tr i r t →
    RespondedAt tr j t status format payload → DispatchedAt tr (j + 1) n →
    i < j ∧ n = responseTo r status format payload
  /-- Every other response that is dispatched stands in for one: the settings ask for it, and a
  submission that has just been refused is being carried out. -/
  nothingElse : ∀ k n, DispatchedAt tr k n →
    (∃ i j r t, SubmittedAt tr i r t ∧ CompletedAt tr j t ∧ i < j ∧ k = j + 1) ∨
    (s.synthesizeRejections = true ∧ ∃ i r, i < k ∧ tr[i]? = some (.called (.submit r)) ∧
      (∀ j x, i < j → j < k → tr[j]? = some x → ∃ y, x = .happened y ∧ NotTaken y) ∧
      (n = rejection r .unknownDevice ∨ n = rejection r .submissionFailed))

section Trace
variable {s : Settings} {tr : List (Entry σ)}

theorem issue?_submitted {i : ℕ} {r : Request} {t : Token} (h : SubmittedAt tr i r t) :
    ∃ x, tr[i]? = some x ∧ issue? s x = some (t, .request ⟨r.identifier, r.path, r.tag⟩) :=
  ⟨_, h, rfl⟩

theorem submitted_of_issue? {x : Entry σ} {t : Token} {c : RequestContext}
    (h : issue? s x = some (t, .request c)) : ∃ r, x = .returned (.submit r) (.token (.ok t)) ∧
      c = ⟨r.identifier, r.path, r.tag⟩ := by
  unfold issue? at h
  split at h
  · next cmd r =>
    split at h
    · next u q hu ho =>
      cases h
      obtain rfl : r = .token (.ok t) := by
        unfold Reply.granted? at hu
        split at hu <;> cases hu
        rfl
      cases cmd <;> cases ho
      exact ⟨_, rfl, rfl⟩
    · cases h
  · cases h

theorem news_of_completed (hl : Law s (fun _ => none) tr) (hd : Distinct s tr) {j : ℕ} {t : Token}
    {status : Status} {format : ContentFormat} {payload : Bytes} {n : Notification}
    (hr : RespondedAt tr j t status format payload) (hn : DispatchedAt tr (j + 1) n) :
    ∃ source c, News s tr j (.response t status format payload source) t (.request c) n := by
  obtain ⟨source, hr⟩ := hr
  obtain ⟨hcat, hh, hn⟩ := hn
  obtain ⟨u, p, h⟩ := news_of_notified hl hd hr hn (Or.inl hcat)
  obtain rfl : t = u := by simpa [EngineEvent.token?] using h.token
  cases p with
  | request c => exact ⟨source, c, h⟩
  | discovery c => cases h.news
  | handshake identifier => cases h.news

theorem completed_of_news (hl : Law s (fun _ => none) tr) (hd : Distinct s tr) {j : ℕ}
    {e : EngineEvent} {t : Token} {c : RequestContext} {n : Notification}
    (h : News s tr j e t (.request c) n) : CompletedAt tr j t := by
  obtain ⟨hh, hn⟩ := news_told hl hd h
  have hnews := h.news
  have htok := h.token
  cases e with
  | response u status format payload source =>
    cases htok
    cases hnews
    exact ⟨⟨status, format, payload, source, h.taken⟩, _, rfl, hh, hn⟩
  | _ => exact absurd hnews nofun

/-- **A lawful trace answers every submission exactly once.** -/
theorem exactlyOnce_of_law (hl : Law s (fun _ => none) tr) (hd : Distinct s tr) :
    ExactlyOnce s tr where
  own i i' r r' t h h' := by
    obtain ⟨x, hi, hx⟩ := issue?_submitted (s := s) h
    obtain ⟨x', hi', hx'⟩ := issue?_submitted (s := s) h'
    exact hd i i' x x' t _ _ hi hx hi' hx'
  once i r t j j' _ h h' := by
    obtain ⟨⟨status, format, payload, hr⟩, n, hn⟩ := h
    obtain ⟨⟨status', format', payload', hr'⟩, n', hn'⟩ := h'
    obtain ⟨source, c, hnews⟩ := news_of_completed hl hd hr hn
    obtain ⟨source', c', hnews'⟩ := news_of_completed hl hd hr' hn'
    exact news_unique hd hnews hnews'
  answered i r t h := by
    obtain ⟨x, hi, hx⟩ := issue?_submitted (s := s) h
    constructor
    · rintro ⟨j, ⟨status, format, payload, hr⟩, n, hn⟩
      obtain ⟨source, c, hnews⟩ := news_of_completed hl hd hr hn
      obtain ⟨-, hij, hc⟩ := hnews.opened.eq_of_issue hd hi hx
      exact ⟨j, status, format, payload, hij, hr, unstopped_of_closes hc⟩
    · rintro ⟨j, status, format, payload, hij, ⟨source, hr⟩, ha⟩
      obtain ⟨k, e, hik, hkj, hk, he, ho⟩ :=
        open_of_settles hi hx hij hr (by simp [EngineEvent.settles]) ha
      obtain ⟨ht, n, hn⟩ := EngineEvent.news?_of_settles he (by simp)
      exact ⟨k, completed_of_news hl hd ⟨hk, ht, ho, hn⟩⟩
  context i r t j status format payload n h hr hn := by
    obtain ⟨x, hi, hx⟩ := issue?_submitted (s := s) h
    obtain ⟨source, c, hnews⟩ := news_of_completed hl hd hr hn
    obtain ⟨hc, hij, -⟩ := hnews.opened.eq_of_issue hd hi hx
    cases hc
    have := hnews.news
    cases this
    exact ⟨hij, rfl⟩
  nothingElse k n hn := by
    obtain ⟨hcat, hh, hn⟩ := hn
    rcases news_or_refusal hl hd hn (Or.inl hcat) with ⟨j, e, t, p, rfl, h⟩ |
        ⟨i, c, hik, hi, hr, hb⟩
    · obtain ⟨i, x, hij, hi, hx, -⟩ := open_take_iff.mp h.opened
      cases p with
      | request c =>
        obtain ⟨r, rfl, -⟩ := submitted_of_issue? hx
        exact Or.inl ⟨i, j, r, t, hi, completed_of_news hl hd h, hij, rfl⟩
      | discovery c =>
        have := h.news
        cases e <;> cases this
      | handshake identifier =>
        have := h.news
        cases e <;> cases this
        cases hcat
    · unfold Refusal at hr
      split at hr
      · next r => exact Or.inr ⟨hr.1, i, r, hik, hi, hb, hr.2⟩
      · subst hr; cases hcat
      · exact hr.elim

end Trace

/-- **Every accepted request is answered exactly once,** in every run of a program on a new bridge,
after any number of steps, whatever the engine answers and reports and whatever the handlers do, as
long as the tokens fit into 64 bits. -/
theorem responses_exactly_once {settings : Settings} {engine : σ} {b : Bridge σ} (eng : Engine σ)
    (hb : make settings engine = .ok b) (p : Program σ) (n : ℕ)
    (hlim : ((Dispatch.Machine.load { state := b } p : Machine σ).run
      (system eng) n).state.correlator.issued < Token.limit) :
    ExactlyOnce settings
      ((Dispatch.Machine.load { state := b } p : Machine σ).run (system eng) n).trace := by
  have h := run_coherent (load_coherent hb p) n hlim
  exact exactlyOnce_of_law h.law h.distinct

section Demo

/-- A program that sends a request and then polls. -/
def requestAndPoll : Program Bench.ScriptedEngine :=
  .command (.start none) fun _ => .command (.register "00FA" "ff02::1") fun _ =>
    .command (.submit (.get "00FA" "/dev")) fun _ => .command .poll fun _ => .done

/-- An engine that answers the first request twice at the first poll. -/
def twiceAnswering : Bench.ScriptedEngine :=
  { batches := [[.response (.after 0) .notFound .cbor [] none,
      .response (.after 0) .ok .cbor [] none]] }

/-- The run of the program with that engine, whose owner drives it. -/
def twiceAnswered (b : Bridge Bench.ScriptedEngine) : Machine Bench.ScriptedEngine :=
  (Dispatch.Machine.load { state := b } requestAndPoll : Machine _).run
    (system Bench.ScriptedEngine.engine) 20

/-- Of two responses to a request, which is sent at position 8, the first one is dispatched. -/
theorem responses_exactly_once_twice_answered :
    ∃ b, make { threading := .cooperative } twiceAnswering = .ok b ∧
      (twiceAnswered b).state.correlator.issued < Token.limit ∧
      ExactlyOnce { threading := .cooperative } (twiceAnswered b).trace ∧
      SubmittedAt (twiceAnswered b).trace 8 (.get "00FA" "/dev") (.after 0) ∧
      CompletedAt (twiceAnswered b).trace 13 (.after 0) :=
  ⟨_, rfl, by decide, responses_exactly_once _ rfl _ _ (by decide), rfl, ⟨_, _, _, _, rfl⟩, _, rfl,
    _, rfl⟩

end Demo

end KnxIoT.Bridge

import KnxIoT.Bench.ScriptedEngine
import KnxIoT.Proofs.Bridge.Grants
import KnxIoT.Proofs.Bridge.Tellings
import KnxIoT.Proofs.Correlator.Room
import KnxIoT.Proofs.Dispatch.Deliveries

/-! # Room for the next request

When a handler hears how a request, a discovery or a handshake has ended, the token of that is no
longer pending; so there is room for another one, however full the table was. The room lasts until
somebody is given a token, be it by a handler within the handler.

* `seated_kept`: there are never more pending tokens than the capacity.
* `Grows`, `use_grows`: the count grows only where a request is given a token.
* `Ends s es x t`: by the entries before it the notification `x` ends what the token `t` stands for;
  a step that gives it has closed the token (`freed_of_ends`), and every final notification is of
  this kind, or about an unknown device (`ends_of_final`).
* `call_with_room`: while there is room no request fails for lack of it.
* `RoomMade`, `room_made`: what follows for the requests of a handler. -/

namespace KnxIoT.Bridge

variable {σ : Type}

/-! ### The capacity -/

section Capacity
variable {eng : Engine σ} {b b' : Bridge σ} {n : ℕ}

theorem finishStop_seated (eng : Engine σ) (hb : b.correlator.Seated n) :
    (b.finishStop eng).correlator.Seated n := by
  have h : (b.finishStop eng).correlator = (b.release eng).correlator.abandonAll := rfl
  rw [h, (release_aloof eng b).correlator]
  exact hb.abandonAll

theorem stop_seated (eng : Engine σ) (hb : b.correlator.Seated n) :
    (b.stop eng).correlator.Seated n := by
  cases hq : b.loop.quit with
  | true =>
    rw [stop_of_quit hq]
    exact hb
  | false =>
    rw [stop_of_go hq]
    refine finishStop_seated eng ?_
    rw [(stopLoop_facts b).2.2.2]
    exact hb

theorem Started.seated (h : Started eng b b') (hb : b.correlator.Seated n) :
    b'.correlator.Seated n := by
  cases h with
  | refused => exact hb
  | failed i e go idle answer =>
    rw [callEngine_correlator]
    exact hb
  | ready i go idle answer =>
    rw [(startLoop_facts eng _).2.1, (goLive_facts eng _).2.1, callEngine_correlator]
    exact hb
  | stopped i go idle answer =>
    refine finishStop_seated eng ?_
    rw [(startLoop_facts eng _).2.1, (goLive_facts eng _).2.1, (stopLoop_facts _).2.2.2,
      callEngine_correlator]
    exact hb

/-- **There are never more pending tokens than the capacity.** -/
theorem seated_kept (eng : Engine σ) (hn : n ≠ 0) :
    Kept eng (fun _ _ => True) fun b : Bridge σ => b.correlator.Seated n where
  free := free_any
  move h hb := by
    cases h with
    | call c live hc => rw [callEngine_correlator]; exact hb
    | push e => rw [push_correlator]; exact hb
    | settle e => exact hb.settle e
    | grant live h => exact hb.issue hn h
    | vain h => exact (hb.issue hn h).discard _
    | _ => exact hb
  life installed c hc hb := by
    cases c with
    | start identity => exact (start_started eng identity).seated hb
    | stop => exact stop_seated eng hb
    | dispose => exact stop_seated eng hb
    | _ => exact hc.elim
  takeDown hb := hb

end Capacity

/-! ### Where the count grows -/

section Grows
variable {eng : Engine σ} {s : Settings} {m m' : Machine σ} {n : ℕ}

/-- **No request that was made among the entries** has been given a token. -/
def NoneGranted (fs : List (Entry σ)) : Prop :=
  ∀ c t, c.IsRequest → .called c ∈ fs → .returned c (.token (.ok t)) ∉ fs

/-- **From `m` to `m'` the count grows only if a request is given a token** among the entries
`fs`. -/
def Grows (m m' : Machine σ) (fs : List (Entry σ)) : Prop :=
  NoneGranted fs → m'.state.correlator.count ≤ m.state.correlator.count

theorem Gives.count {c : Command σ} {b : Bridge σ} {p : Piece σ} (h : Gives c b p)
    (hp : p.1.correlator.Seated n) : p.1.correlator.count ≤ b.correlator.count ∨
      ∃ t q, p.2 = .reply (.token (.ok t)) ∧ opens? b.settings c = some q := by
  by_cases hg : ∃ t q, p.2 = .reply (.token (.ok t)) ∧ opens? b.settings c = some q
  · exact Or.inr hg
  · refine Or.inl (hp.count_le fun t q hq => ?_)
    rcases h.pending t q hq with ⟨hold, -⟩ | ⟨hreply, hopens⟩
    · exact ⟨q, hold⟩
    · exact absurd ⟨t, q, hreply, hopens⟩ hg

/-- What a bridge in use keeps of its pending tokens. -/
structure Booked (s : Settings) (m : Machine σ) : Prop where
  stacked : Dispatch.Machine.Stacked m.stack
  settings : m.state.settings = s
  log : m.state.log = []
  seated : m.state.correlator.Seated s.maxPendingRequests
  given : Given s m
  numbered : Numbered m.state

theorem Booked.use (hn : s.maxPendingRequests ≠ 0) (h : Booked s m) (hu : Use eng m m') :
    Booked s m' where
  stacked := use_stacked hu h.stacked
  settings := (settings_kept eng s).use hu h.stacked h.settings
  log := use_log hu h.stacked h.log
  seated := (seated_kept eng hn).use hu h.stacked h.seated
  given := h.given.use hu h.stacked h.settings
  numbered := (numbered_kept eng).use hu h.stacked h.numbered

theorem load_booked {engine : σ} {b : Bridge σ} (h : make s engine = .ok b) (p : Program σ) :
    Booked s (Dispatch.Machine.load { state := b } p : Machine σ) where
  stacked := trivial
  settings := by rw [make_eq_ok h]; rfl
  log := by rw [make_eq_ok h]; rfl
  seated := by rw [make_eq_ok h]; exact ⟨rfl, List.nodup_nil, Nat.zero_le _⟩
  given := load_given h p
  numbered := by rw [make_eq_ok h]; exact fun d hd => nomatch hd

theorem step_grows (hn : s.maxPendingRequests ≠ 0) (hm : Booked s m) :
    ∃ fs, (m.step (system eng)).trace = m.trace ++ fs ∧ Grows m (m.step (system eng)) fs := by
  have hu : Use eng m (m.step (system eng)) := .single (.step m)
  have hseated := (hm.use hn hu).seated
  cases Dispatch.Machine.step_advance (system eng) hm.stacked with
  | aside es state trace asides rests =>
    exact ⟨es, trace, fun _ => Nat.le_of_eq (by rw [state])⟩
  | start c h p next below stack piece state trace rests =>
    subst piece
    refine ⟨_, trace, fun hquiet => ?_⟩
    rw [state] at hseated ⊢
    rcases (perform_gives eng m.table.isInstalled c m.state).count hseated with
      hle | ⟨t, q, hreply, hopens⟩
    · exact hle
    · refine absurd ?_ (hquiet c t (isRequest_of_opens? hopens) List.mem_cons_self)
      rw [show ((system eng).start m.table.isInstalled c m.state).outcome = _ from hreply]
      simp [Dispatch.Outcome.closing]
  | proceed a d c h p below stack piece state trace rests =>
    subst piece
    refine ⟨_, trace, fun _ => ?_⟩
    rw [state] at hseated ⊢
    have hr := hm.given.rests a d (by rw [stack]; exact List.mem_cons_self)
    rcases (proceed_gives hr .pendingCount m.state).count hseated with hle | ⟨t, q, -, hopens⟩
    · exact hle
    · cases hopens

/-- **In any use the count grows only where somebody is given a token.** -/
theorem use_grows (hn : s.maxPendingRequests ≠ 0) (hm : Booked s m) (hu : Use eng m m') :
    ∃ fs, m'.trace = m.trace ++ fs ∧ Grows m m' fs := by
  induction hu with
  | refl => exact ⟨[], (List.append_nil _).symm, fun _ => Nat.le_refl _⟩
  | @tail m₁ m₂ hu hturn ih =>
    obtain ⟨fs, htrace, hgrows⟩ := ih
    obtain ⟨gs, htrace', hgrows'⟩ : ∃ gs, m₂.trace = m₁.trace ++ gs ∧ Grows m₁ m₂ gs := by
      cases hturn with
      | step => exact step_grows hn (hm.use hn hu)
      | push e => exact ⟨_, rfl, fun _ => Nat.le_of_eq (congrArg _ (push_correlator e m₁.state))⟩
    refine ⟨fs ++ gs, by rw [htrace', htrace, List.append_assoc], fun hquiet => ?_⟩
    have hfs : NoneGranted fs := fun c t hc hcalled hreturned =>
      hquiet c t hc (List.mem_append_left gs hcalled) (List.mem_append_left gs hreturned)
    have hgs : NoneGranted gs := fun c t hc hcalled hreturned =>
      hquiet c t hc (List.mem_append_right fs hcalled) (List.mem_append_right fs hreturned)
    exact Nat.le_trans (hgrows' hgs) (hgrows hfs)

end Grows

/-! ### What a notification ends -/

/-- The events that were taken from the queue among some entries. -/
def takenIn (es : List (Entry σ)) : List EngineEvent :=
  es.filterMap fun
    | .happened (.taken ev) => some ev
    | _ => none

/-- **After the entries `es` the notification `x` tells how it ended** what the token `t` stands
for. -/
inductive Ends (s : Settings) (es : List (Entry σ)) (x : Notification) (t : Token) : Prop
  /-- It is the first one about an event under the token; a discovery is for a single reply. -/
  | settled {ev : EngineEvent} (last : (takenIn es).getLast? = some ev)
      (token : ev.token? = some t)
      (single : ∀ payload source, ev = .discoveryReply t payload source →
        s.discoveryMode = .singleShot)
  /-- The engine has refused what it was asked under the token. -/
  | refused {c : Command σ} {call : EngineCall} {a : call.Answer} {w : Submission}
      (post : List (Entry σ)) (entries : es = .called c :: .happened (.engine call a) :: post)
      (token : call.token? = some t) (refusal : call.accepts a = false)
      (why : c.rejection? s (.submissionRejected w) = some x)

section Ends
variable {eng : Engine σ} {s : Settings} {m : Machine σ} {n : ℕ} {b b₀ : Bridge σ} {p : Piece σ}
  {es opening : List (Entry σ)} {hs ds : List Happening} {ev : EngineEvent} {x : Notification}
  {h : Option HandlerName} {t : Token} {q : Pending}

theorem takenIn_append (es fs : List (Entry σ)) : takenIn (es ++ fs) = takenIn es ++ takenIn fs :=
  List.filterMap_append

theorem takenIn_progress (hds : IsProgress ds) :
    takenIn (ds.map .happened : List (Entry σ)) = [] := by
  refine List.filterMap_eq_nil_iff.mpr fun y hy => ?_
  obtain ⟨d, hd, rfl⟩ := List.mem_map.mp hy
  obtain ⟨t, k, rfl⟩ := hds d hd
  rfl

theorem getLast?_takenIn (pre : List (Entry σ)) (hds : IsProgress ds) :
    (takenIn (pre ++ (hs ++ .taken ev :: ds).map .happened)).getLast? = some ev := by
  have htaken : takenIn (.happened (.taken ev) :: ds.map .happened : List (Entry σ)) = [ev] := by
    rw [← List.singleton_append, takenIn_append, takenIn_progress hds]
    rfl
  rw [List.map_append, ← List.append_assoc, takenIn_append, List.map_cons, htaken,
    List.getLast?_concat]

/-- **A step that gives a notification** does a piece that has a reason to. -/
theorem telling_of_giving (hm : Booked s m) (hx : m.Giving (system eng) es x h) :
    ∃ opening p, Telling m.state x opening p ∧ es = opening ++ p.1.log.map .happened ∧
      (m.step (system eng)).state = { p.1 with log := [] } := by
  obtain ⟨-, opening, piece, a, hdoing, hnotify, hes, hstate, -⟩ :=
    Dispatch.Machine.step_giving (system eng) hm.stacked hx
  cases hdoing with
  | start c next below stack =>
    exact ⟨_, _, perform_tells eng m.table.isInstalled c hm.log x a hnotify, hes, hstate⟩
  | proceed rest d c next below stack =>
    exact ⟨_, _, proceed_tells rest hm.log x a hnotify, hes, hstate⟩

/-- An event that fits what its token stands for closes it, unless the token is for a discovery
that goes on. -/
theorem settles_of_fits (ht : ev.token? = some t) (hfits : ev.fits q = true)
    (hq : q ≠ .discovery true) : ev.settles t q = true := by
  cases ev with
  | response u status format payload source =>
    cases ht
    cases q with
    | request context => simp [EngineEvent.settles]
    | _ => cases hfits
  | discoveryReply u payload source =>
    cases ht
    cases q with
    | discovery continuous =>
      cases continuous with
      | false => simp [EngineEvent.settles]
      | true => exact absurd rfl hq
    | _ => cases hfits
  | handshakeResult u status identity secret =>
    cases ht
    cases q with
    | handshake identifier => simp [EngineEvent.settles]
    | _ => cases hfits
  | gatewayNotification sender payload => cases ht
  | resourceChanged anchor uri types interfaces => cases ht

/-- **An event of which somebody is told closes its token** and so makes room. -/
theorem freed_of_handle {e : CycleEnd} {o : Notification × Rest} {b' : Bridge σ}
    (hseated : b₀.correlator.Seated n) (hh : b₀.handle ev e = (b', some o))
    (ht : ev.token? = some t)
    (hq : b₀.correlator.find? t = some (.discovery true) → ev.fits (.discovery true) = false) :
    b'.correlator.find? t = none ∧ b'.correlator.count < n := by
  obtain ⟨q, hfind, hfits⟩ : ∃ q, b₀.correlator.find? t = some q ∧ ev.fits q = true := by
    by_contra hnone
    push Not at hnone
    rw [handle_stray ht fun q hq => by simpa using hnone q hq] at hh
    cases hh
  have hsettles : ev.settles t q = true := by
    refine settles_of_fits ht hfits ?_
    rintro rfl
    rw [hq hfind] at hfits
    cases hfits
  obtain ⟨registry, hs, hf, -⟩ := handle_frame e ev b₀
  have hk : b'.correlator = b₀.correlator.discard t := by
    have hb' : b' = _ := (congrArg Prod.fst hh).symm.trans hf
    rw [hb']
    exact Correlator.settle_eq_discard ht hfind hsettles
  rw [hk, Correlator.find?_discard, if_pos rfl]
  exact ⟨rfl, Nat.lt_of_lt_of_le (Correlator.count_discard_lt hfind) hseated.within⟩

theorem continuous_of_pending (hm : Booked s m)
    (hf : m.state.correlator.find? t = some (.discovery true)) :
    s.discoveryMode = .continuous := by
  obtain ⟨c, -, ho⟩ := hm.given.pending t _ hf
  cases c with
  | discover | discoverDefault => simpa [opens?] using ho
  | _ => simp [opens?] at ho

theorem not_refused {c : Command σ} {w : Submission}
    (hmem : .called c ∈ opening ++ hs.map .happened)
    (ho : ∀ c, .called c ∈ opening → c.IsCycle) :
    c.rejection? s (.submissionRejected w) ≠ some x := by
  have hc : c.IsCycle := ho c (by simpa using hmem)
  cases c <;> first | exact hc.elim | exact nofun

/-- The token of the event that a piece tells of, or of what was refused, is free after it. -/
theorem Telling.freed (hn : s.maxPendingRequests ≠ 0) (hm : Booked s m)
    (htell : Telling m.state x opening p) (he : Ends s (opening ++ p.1.log.map .happened) x t) :
    p.1.correlator.find? t = none ∧ p.1.correlator.count < s.maxPendingRequests := by
  cases htell with
  | @handled b₀ ev _ _ evs hs ds owner before handle log progress =>
    rw [log] at he
    cases he with
    | settled last token single =>
      rw [getLast?_takenIn opening progress] at last
      cases last
      have hseated : b₀.correlator.Seated s.maxPendingRequests := before ▸ hm.seated.settleAll evs
      refine freed_of_handle hseated handle token fun hfind => ?_
      have hmode := continuous_of_pending hm (Correlator.find?_of_settleAll (before ▸ hfind))
      cases ev with
      | discoveryReply u payload source =>
        cases token
        rw [single payload source rfl] at hmode
        cases hmode
      | _ => rfl
    | refused post entries token refusal why =>
      exact absurd why (not_refused (by rw [entries]; exact List.mem_cons_self) owner)
  | @refused c q u k call a w es' owner issue correlator log token refusal why =>
    rw [owner, log] at he
    cases he with
    | settled last token' single => simp [takenIn, List.filterMap_map] at last
    | refused post entries token' refusal' why' =>
      cases entries
      obtain rfl : u = t := Option.some.inj (token.symm.trans token')
      obtain ⟨hroom, -, hcount⟩ := Correlator.count_of_issue issue
      rw [hm.seated.capacity] at hroom
      rw [correlator, Correlator.find?_discard, if_pos rfl]
      exact ⟨rfl, Nat.lt_of_le_of_lt hcount (hroom hn)⟩
  | unknown owner log why =>
    rw [owner, log] at he
    cases he with
    | settled last token single => cases last
    | refused post entries token refusal why' => cases entries
  | announcing owner other progress =>
    rw [owner] at he
    cases he with
    | settled last token single =>
      rw [List.nil_append, takenIn_progress progress] at last
      cases last
    | @refused c call a w post entries token refusal why =>
      have hmem : .called c ∈ ([] ++ p.1.log.map .happened : List (Entry σ)) := by
        rw [entries]
        exact List.mem_cons_self
      exact absurd why (not_refused hmem fun _ h => absurd h List.not_mem_nil)

/-- **When somebody is told how something has ended, its token is no longer pending,** and there is
room for another one. -/
theorem freed_of_ends (hn : s.maxPendingRequests ≠ 0) (hm : Booked s m)
    (hx : m.Giving (system eng) es x h) (he : Ends s es x t) :
    (m.step (system eng)).state.correlator.find? t = none ∧
      (m.step (system eng)).state.correlator.count < s.maxPendingRequests := by
  obtain ⟨opening, p, htell, rfl, hstate⟩ := telling_of_giving hm hx
  rw [hstate]
  exact htell.freed hn hm he

/-- **Every final notification ends something,** unless the device of a request is not known. -/
theorem ends_of_final (hm : Booked s m) (hx : m.Giving (system eng) es x h) (hfinal : x.IsFinal) :
    (∃ t, Ends s es x t) ∨ ∃ r, s.synthesizeRejections = true ∧ es = [.called (.submit r)] ∧
      x = rejection r .unknownDevice := by
  obtain ⟨opening, p, htell, rfl, -⟩ := telling_of_giving hm hx
  cases htell with
  | @handled b₀ ev e a evs hs ds owner before handle log progress =>
    obtain ⟨t, q, htoken, -, hnews⟩ := handle_final (congrArg Prod.snd handle) hfinal
    rw [log]
    refine Or.inl ⟨t, .settled (getLast?_takenIn opening progress) htoken ?_⟩
    rintro payload source rfl
    cases hnews
  | @refused c q t k call a w es' owner issue correlator log token refusal why =>
    rw [owner, log]
    rw [hm.settings] at why
    exact Or.inl ⟨t, .refused _ rfl token refusal why⟩
  | @unknown c i owner log why =>
    rw [owner, log]
    rw [hm.settings] at why
    cases c with
    | submit r =>
      simp only [Command.rejection?, Option.ite_none_right_eq_some, Option.some.injEq] at why
      exact Or.inr ⟨r, why.1, rfl, why.2.symm⟩
    | _ => cases why
  | announcing owner other progress => exact absurd hfinal other

end Ends

/-! ### Requests while there is room -/

section Requests
variable {eng : Engine σ} {s : Settings} {m : Machine σ} {b : Bridge σ} {c : Command σ}
  {call : EngineCall} {e : BridgeError} {k : ℕ}

/-- The reply of a piece is not that there is no room. -/
def HasRoom (p : Piece σ) : Prop := ∀ k, (finalReply p).failure? ≠ some (.tooManyPending k)

theorem hasRoom_of_callLive (h : b.callLive eng call = .error e) (b' : Bridge σ) :
    HasRoom (b', .reply (.token (.error e))) ∧ HasRoom (b', .reply (.unit (.error e))) := by
  unfold callLive refusal? at h
  cases hp : b.phase <;> rw [hp] at h <;> cases h <;> exact ⟨nofun, nofun⟩

theorem hasRoom_refuse (b : Bridge σ) (r : Request) (status : Status)
    (he : ∀ k, e ≠ .tooManyPending k) : HasRoom (b.refuse r status e) := by
  intro k h
  have hfailure : (finalReply (b.refuse r status e)).failure? = some e := by
    unfold refuse
    split_ifs <;> rfl
  rw [hfailure] at h
  exact he k (Option.some.inj h)

theorem submit_hasRoom (hroom : b.correlator.count < b.correlator.capacity) (r : Request) :
    HasRoom (b.submit eng r) := by
  unfold submit
  split
  · exact nofun
  split
  · exact hasRoom_refuse _ _ _ nofun
  obtain ⟨t, k, hissue⟩ := Correlator.exists_issue hroom (.request ⟨r.identifier, r.path, r.tag⟩)
  simp only [hissue]
  split
  · next h => exact (hasRoom_of_callLive h _).1
  · exact nofun
  · exact hasRoom_refuse _ _ _ nofun

theorem discover_hasRoom (hroom : b.correlator.count < b.correlator.capacity) (scope : UInt8)
    (query : String) : HasRoom (b.discover eng scope query) := by
  unfold discover
  obtain ⟨t, k, hissue⟩ := Correlator.exists_issue hroom
    (.discovery (b.settings.discoveryMode = .continuous))
  simp only [hissue]
  split
  · next h => exact (hasRoom_of_callLive h _).1
  · exact nofun
  · exact nofun

theorem handshake_hasRoom (hroom : b.correlator.count < b.correlator.capacity)
    (identifier password : String) : HasRoom (b.handshake eng identifier password) := by
  unfold handshake
  split
  · exact nofun
  obtain ⟨t, k, hissue⟩ := Correlator.exists_issue hroom (.handshake identifier)
  simp only [hissue]
  split
  · next h => exact (hasRoom_of_callLive h _).1
  · exact nofun
  · exact nofun

theorem groupMessage_hasRoom (scope : UInt8) (m : GroupMessage) :
    HasRoom (b.groupMessage eng scope m) := by
  unfold groupMessage
  dsimp only
  split
  · exact nofun
  split
  · next h => exact (hasRoom_of_callLive h _).2
  · exact nofun
  · exact nofun

/-- **While there is room no request fails for lack of it.** -/
theorem request_hasRoom (hroom : b.correlator.count < b.correlator.capacity)
    (installed : Category → Bool) (hc : c.IsRequest) : HasRoom (b.perform eng installed c) := by
  cases c with
  | submit r => exact submit_hasRoom hroom r
  | discover scope query => exact discover_hasRoom hroom scope query
  | discoverDefault => exact discover_hasRoom hroom _ _
  | handshake identifier password => exact handshake_hasRoom hroom identifier password
  | groupMessage scope m => exact groupMessage_hasRoom scope m
  | _ => exact hc.elim

/-- **A call of a request while there is room** fails for another reason, or succeeds. -/
theorem call_with_room (hm : Booked s m) (hroom : m.state.correlator.count < s.maxPendingRequests)
    {next : Reply → Program σ} {below : List (Dispatch.Frame (Command σ) Rest Reply)}
    (hstack : m.stack = .run (.command c next) :: below) (hc : c.IsRequest) :
    (∃ e, (∀ k, e ≠ .tooManyPending k) ∧
        CallFails s m (m.step (system eng)) c next below e) ∨
      CallSucceeds s m (m.step (system eng)) c next below := by
  rw [← hm.seated.capacity] at hroom
  have hatomic : Atomic m.state c (m.state.perform eng m.table.isInstalled c) :=
    request_atomic hm.log hm.numbered _ hc
  have hcall := call_of_atomic hstack hatomic
  rw [hm.settings] at hcall
  refine hcall.imp_left fun ⟨e, hfails⟩ => ⟨e, ?_, hfails⟩
  rintro k rfl
  obtain ⟨hs, r, hr, -, htold⟩ := hfails.told
  have hsilent : c.rejection? s (.tooManyPending k) = none := by cases c <;> rfl
  rw [hsilent] at htold
  -- Nobody is told, so the call has returned the error.
  obtain ⟨hd, htrace⟩ := Dispatch.Machine.step_command_trace (system eng) hstack
  have hlast := htold.1.symm.trans htrace
  rw [List.append_right_inj, List.cons.injEq] at hlast
  have hclosing := List.singleton_inj.mp (List.append_inj' hlast.2 rfl).2
  have hreply : (m.state.perform eng m.table.isInstalled c).2 = .reply r := by
    rcases ho : (m.state.perform eng m.table.isInstalled c).2 with r' | ⟨x, a⟩
    · rw [show ((system eng).start m.table.isInstalled c m.state).outcome = _ from ho] at hclosing
      cases hclosing
      rfl
    · rw [show ((system eng).start m.table.isInstalled c m.state).outcome = _ from ho] at hclosing
      cases hclosing
  exact request_hasRoom hroom m.table.isInstalled hc k (by rw [finalReply_of_reply hreply, hr])

end Requests

/-! ### The room that a handler finds -/

/-- **What follows for the handlers of a bridge in use** that is at the point `m`. A handler within
the handler may take the room that was made, so what the handler finds holds up to the next token
that is given out to anybody. -/
structure RoomMade (s : Settings) (eng : Engine σ) (m : Machine σ) : Prop where
  /-- When somebody is told how something has ended, its token is no longer pending, and fewer are
  pending than there may be. -/
  freed : ∀ es x h t, m.Giving (system eng) es x h → Ends s es x t →
    (m.step (system eng)).state.correlator.find? t = none ∧
      (m.step (system eng)).state.correlator.count < s.maxPendingRequests
  /-- All responses and results of handshakes are of this kind, unless the device of a request is
  not known. -/
  only : ∀ es x h, m.Giving (system eng) es x h → x.IsFinal → (∃ t, Ends s es x t) ∨
    ∃ r, s.synthesizeRejections = true ∧ es = [.called (.submit r)] ∧
      x = rejection r .unknownDevice
  /-- A handler that is told begins at once. -/
  entered : ∀ es x h, m.Giving (system eng) es x (some h) → ∃ i a,
    m.table.slot x.category = some i ∧ i.name = h ∧ (m.step (system eng)).stack =
      .run (i.handler.react (m.calls.getD i.number 0) x) :: .rest a true :: m.waiting
  /-- From then on there is room until some request is given a token, and so the first request does
  not fail for lack of it. -/
  first : ∀ es x h t, m.Giving (system eng) es x h → Ends s es x t →
    ∀ m' fs, Use eng (m.step (system eng)) m' → m'.trace = (m.step (system eng)).trace ++ fs →
      NoneGranted fs →
      m'.state.correlator.count < s.maxPendingRequests ∧
        ∀ c next below, m'.stack = .run (.command c next) :: below → c.IsRequest →
          (∃ e, (∀ k, e ≠ .tooManyPending k) ∧
              CallFails s m' (m'.step (system eng)) c next below e) ∨
            CallSucceeds s m' (m'.step (system eng)) c next below

/-- **Whoever is told how something has ended finds room for another request.** -/
theorem room_made {settings : Settings} {engine : σ} {b : Bridge σ} {eng : Engine σ}
    {m : Machine σ} (hb : make settings engine = .ok b) (hn : settings.maxPendingRequests ≠ 0)
    (p : Program σ) (hu : Use eng (Dispatch.Machine.load { state := b } p) m) :
    RoomMade settings eng m := by
  have hm : Booked settings m := (load_booked hb p).use hn hu
  refine ⟨fun es x h t => freed_of_ends hn hm, fun es x h => ends_of_final hm,
    fun es x h hx => ?_, fun es x h t hx he m' fs hu' htrace hquiet => ?_⟩
  · obtain ⟨hname, -, -, a, -, -, -, -, hstack⟩ :=
      Dispatch.Machine.step_giving (system eng) hm.stacked hx
    obtain ⟨i, hi, hname⟩ := Option.map_eq_some_iff.mp hname.symm
    refine ⟨i, a, hi, hname, ?_⟩
    rw [hstack]
    simp only [Dispatch.Machine.heard, hi, List.cons_append, List.nil_append]
  · have hstep : Booked settings (m.step (system eng)) := hm.use hn (.single (.step m))
    obtain ⟨gs, htrace', hgrows⟩ := use_grows hn hstep hu'
    obtain rfl : fs = gs := List.append_cancel_left (htrace.symm.trans htrace')
    have hroom := Nat.lt_of_le_of_lt (hgrows hquiet) (freed_of_ends hn hm hx he).2
    exact ⟨hroom, fun c next below hstack hc => call_with_room (hstep.use hn hu') hroom hstack hc⟩

section Demo

/-- A program that sends a request and polls for the response; whoever hears of it sends the same
request again. -/
def askAgain : Program Bench.ScriptedEngine :=
  .install [.clientResponse]
    (.atMost 1 "again" fun _ => .command (.submit (.get "00FA" "/dev")) fun _ => .done) fun _ =>
      .command (.start none) fun _ => .command (.register "00FA" "ff02::1") fun _ =>
        .command (.submit (.get "00FA" "/dev")) fun _ => .command .poll fun _ => .done

/-- The run of the program with an engine that answers the first request at the first poll, whose
owner drives it. -/
def askedAgain (b : Bridge Bench.ScriptedEngine) (n : ℕ) : Machine Bench.ScriptedEngine :=
  (Dispatch.Machine.load { state := b } askAgain : Machine _).run
    (system Bench.ScriptedEngine.engine) n

/-- With room for one request only, the second one is sent from the handler of the first. -/
theorem room_made_single :
    ∃ b, make { threading := .cooperative, maxPendingRequests := 1 }
        { batches := [[.response (.after 0) .notFound .cbor [] none]] } = .ok b ∧ 1 ≠ 0 ∧
      RoomMade { threading := .cooperative, maxPendingRequests := 1 } Bench.ScriptedEngine.engine
        (askedAgain b 4) ∧
      (askedAgain b 4).state.correlator.count = 1 ∧
      (∃ es, (askedAgain b 4).Giving (system Bench.ScriptedEngine.engine) es
          (.clientResponse "00FA" .notFound .error "" "/dev" "") (some ⟨0, "again"⟩) ∧
        Ends { threading := .cooperative, maxPendingRequests := 1 } es
          (.clientResponse "00FA" .notFound .error "" "/dev" "") (.after 0)) ∧
      (askedAgain b 5).state.correlator.count = 0 ∧
      (askedAgain b 6).trace.getLast? =
        some (.returned (.submit (.get "00FA" "/dev")) (.token (.ok (.after 1)))) := by
  have hb : make { threading := .cooperative, maxPendingRequests := 1 }
    ({ batches := [[.response (.after 0) .notFound .cbor [] none]] } : Bench.ScriptedEngine) =
      .ok _ := rfl
  refine ⟨_, hb, by decide, room_made hb (by decide) askAgain (use_run _ _ 4), rfl,
    ⟨[.called .poll, .happened (.engine .poll none),
      .happened (.queued (.response (.after 0) .notFound .cbor [] none)),
      .happened (.taken (.response (.after 0) .notFound .cbor [] none))], rfl, ?_⟩, rfl, rfl⟩
  exact .settled rfl rfl nofun

end Demo

end KnxIoT.Bridge

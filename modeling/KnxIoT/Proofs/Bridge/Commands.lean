import KnxIoT.Bridge.Command
import KnxIoT.Proofs.Bridge.Lawful

/-! # Every piece of a command is lawful

`perform_lawful` goes through the commands: those that send something take a token first and give
it back when they fail; stopping, also while the engine begins, gives up everything; a poll cycle
drains the queue. `proceed_lawful` is the same for the rest of a command after a notification. -/

namespace KnxIoT.Bridge

variable {σ : Type} {eng : Engine σ} {b b' b'' : Bridge σ}

theorem lawful_of_steady {c : Command σ} {r : Reply} (hl : b.log = [])
    (hc : abandons (.called c) = false) (hs : b.Sound) (hp : Steady b b')
    (hk : b'.correlator = b.correlator) (hr : r.granted? = none) :
    Lawful c [.called c] b (b', .reply r) :=
  have hi : b.correlator.issued ≤ b'.correlator.issued := Nat.le_of_eq (by rw [hk])
  have hf : b'.correlator.find? = b.correlator.find? := by rw [hk]
  lawful_of_reply hl hc hp.toCalm (hs.of_steady hp hi hf) hi hf hr

/-! ### Sending something -/

section Sending
variable {c : Command σ} {p : Pending} {t : Token} {k : Correlator}

/-- A token that was taken in vain leaves nothing behind. -/
theorem giveUp_facts (hs : b.Sound) (hlim : b.correlator.issued < Token.limit)
    (hiss : b.correlator.issue p = .ok (t, k)) (hp : Steady b b') (hk : b'.correlator = k) :
    Steady b (b'.giveUp t) ∧ (b'.giveUp t).Sound ∧
      b.correlator.issued ≤ (b'.giveUp t).correlator.issued ∧
      (b'.giveUp t).correlator.find? = b.correlator.find? := by
  have hst : Steady b (b'.giveUp t) := hp.trans (.of_eq rfl rfl rfl rfl)
  have hf : (b'.giveUp t).correlator.find? = b.correlator.find? := by
    funext u
    rw [show (b'.giveUp t).correlator = b'.correlator.discard t from rfl, hk]
    exact Correlator.find?_discard_issue hs.bounded hlim hiss u
  have hi : b.correlator.issued ≤ (b'.giveUp t).correlator.issued := by
    have : (b'.giveUp t).correlator.issued = k.issued := by rw [← hk]; rfl
    rw [this, (Correlator.issue_eq_ok hiss).2.1]
    omega
  exact ⟨hst, hs.of_steady hst hi hf, hi, hf⟩

/-- **A command whose request is not sent** gives its token back. -/
theorem lawful_of_giveUp {r : Reply} (hl : b.log = []) (hc : abandons (.called c) = false)
    (hs : b.Sound) (hlim : b.correlator.issued < Token.limit)
    (hiss : b.correlator.issue p = .ok (t, k)) (hp : Steady b b') (hk : b'.correlator = k)
    (hr : r.granted? = none) : Lawful c [.called c] b (b'.giveUp t, .reply r) := by
  obtain ⟨hst, hso, hi, hf⟩ := giveUp_facts hs hlim hiss hp hk
  exact lawful_of_reply hl hc hst.toCalm hso hi hf hr

/-- **A command whose request is sent** gives its token out. -/
theorem lawful_of_sent (hl : b.log = []) (hc : abandons (.called c) = false) (hs : b.Sound)
    (hlim : b.correlator.issued < Token.limit) (ho : opens? b.settings c = some p)
    (hiss : b.correlator.issue p = .ok (t, k)) (hp : Steady b b') (hk : b'.correlator = k)
    (hlive : b.phase = .live) : Lawful c [.called c] b (b'.signal, .reply (.token (.ok t))) := by
  obtain ⟨ht, hi, -, hf⟩ := Correlator.issue_eq_ok hiss
  have hst : Steady b b'.signal := hp.trans (signal_steady b')
  have hk' : b'.signal.correlator = k := hk
  refine lawful_of_grant hl hc hst.toCalm ⟨?_, ?_⟩ ho ht (by rw [hk', hi]) fun u => by rw [hk', hf]
  · intro u q hu
    rw [hk', hf] at hu
    rw [hk', hi]
    split_ifs at hu with hut
    · rw [hut, ht]
      exact Nat.le_of_eq (Token.toNat_after hlim)
    · exact Nat.le_succ_of_le (hs.bounded u q hu)
  · intro hq
    rw [hst.quit] at hq
    have := (hs.retired hq).1
    rw [hlive] at this
    cases this

/-- **A refused request** is told to the caller, and perhaps to a handler. -/
theorem lawful_of_refuse {r : Request} {e : BridgeError} {status : Status} (hl : b.log = [])
    (hp : Calm b b') (hs : b'.Sound) (hi : b.correlator.issued ≤ b'.correlator.issued)
    (hf : b'.correlator.find? = b.correlator.find?)
    (hst : status = .unknownDevice ∨ status = .submissionFailed) :
    Lawful (.submit r) [.called (.submit r)] b (b'.refuse r status e) := by
  unfold refuse
  split_ifs with hsyn
  · refine lawful_of_refusal hl rfl hp hs hi hf ⟨by rw [← hp.settings]; exact hsyn, ?_⟩ rfl
    rcases hst with rfl | rfl
    · exact Or.inl rfl
    · exact Or.inr rfl
  · exact lawful_of_reply hl rfl hp hs hi hf rfl

end Sending

theorem submit_lawful (hl : b.log = []) (hs : b.Sound) (hlim : b.correlator.issued < Token.limit)
    (r : Request) : Lawful (.submit r) [.called (.submit r)] b (b.submit eng r) := by
  have hrefl : Steady b b := .of_eq rfl rfl rfl rfl
  unfold submit
  split
  · exact lawful_of_steady hl rfl hs hrefl rfl rfl
  split
  · exact lawful_of_refuse hl hrefl.toCalm hs (Nat.le_refl _) rfl (Or.inl rfl)
  split
  · exact lawful_of_steady hl rfl hs hrefl rfl rfl
  next d hd t k hiss =>
  have h₁ : Steady b { b with correlator := k } := .of_eq rfl rfl rfl rfl
  dsimp only
  split
  · exact lawful_of_giveUp hl rfl hs hlim hiss h₁ rfl rfl
  · next b₂ hcall =>
    obtain ⟨h₂, hlive, hk⟩ := callLive_steady (by simp) hcall
    exact lawful_of_sent hl rfl hs hlim rfl hiss (h₁.trans h₂) hk hlive
  · next b₂ hcall =>
    obtain ⟨h₂, -, hk⟩ := callLive_steady (by simp) hcall
    obtain ⟨hst, hso, hi, hf⟩ := giveUp_facts hs hlim hiss (h₁.trans h₂) hk
    exact lawful_of_refuse hl hst.toCalm hso hi hf (Or.inr rfl)

theorem discover_lawful {c : Command σ} (hc : abandons (.called c) = false)
    (ho : opens? b.settings c = some (.discovery (b.settings.discoveryMode = .continuous)))
    (hl : b.log = []) (hs : b.Sound) (hlim : b.correlator.issued < Token.limit)
    (scope : UInt8) (query : String) : Lawful c [.called c] b (b.discover eng scope query) := by
  unfold discover
  split
  · exact lawful_of_steady hl hc hs (.of_eq rfl rfl rfl rfl) rfl rfl
  next t k hiss =>
  have h₁ : Steady b { b with correlator := k } := .of_eq rfl rfl rfl rfl
  dsimp only
  split
  · exact lawful_of_giveUp hl hc hs hlim hiss h₁ rfl rfl
  · next b₂ hcall =>
    obtain ⟨h₂, hlive, hk⟩ := callLive_steady (by simp) hcall
    exact lawful_of_sent hl hc hs hlim ho hiss (h₁.trans h₂) hk hlive
  · next b₂ hcall =>
    obtain ⟨h₂, -, hk⟩ := callLive_steady (by simp) hcall
    exact lawful_of_giveUp hl hc hs hlim hiss (h₁.trans h₂) hk rfl

theorem handshake_lawful (hl : b.log = []) (hs : b.Sound)
    (hlim : b.correlator.issued < Token.limit) (identifier password : String) :
    Lawful (.handshake identifier password) [.called (.handshake identifier password)] b
      (b.handshake eng identifier password) := by
  unfold handshake
  split
  · exact lawful_of_steady hl rfl hs (.of_eq rfl rfl rfl rfl) rfl rfl
  dsimp only
  split
  · exact lawful_of_steady hl rfl hs (.of_eq rfl rfl rfl rfl) rfl rfl
  next t k hiss =>
  have h₁ : Steady b { b with
      registry := b.registry.modify identifier withSerial, correlator := k } :=
    .of_eq rfl rfl rfl rfl
  split
  · exact lawful_of_giveUp hl rfl hs hlim hiss h₁ rfl rfl
  · next b₂ hcall =>
    obtain ⟨h₂, hlive, hk⟩ := callLive_steady (by simp) hcall
    exact lawful_of_sent hl rfl hs hlim rfl hiss (h₁.trans h₂) hk hlive
  · next b₂ hcall =>
    obtain ⟨h₂, -, hk⟩ := callLive_steady (by simp) hcall
    obtain ⟨hst, hso, hi, hf⟩ := giveUp_facts hs hlim hiss (h₁.trans h₂) hk
    exact lawful_of_refusal hl rfl hst.toCalm hso hi hf rfl rfl

theorem groupMessage_lawful (hl : b.log = []) (hs : b.Sound) (scope : UInt8) (m : GroupMessage) :
    Lawful (.groupMessage scope m) [.called (.groupMessage scope m)] b
      (b.groupMessage eng scope m) := by
  have hrefl : Steady b b := .of_eq rfl rfl rfl rfl
  unfold groupMessage
  dsimp only
  split
  · exact lawful_of_steady hl rfl hs hrefl rfl rfl
  split
  · exact lawful_of_steady hl rfl hs hrefl rfl rfl
  · next b₂ hcall =>
    obtain ⟨h₂, -, hk⟩ := callLive_steady (by simp) hcall
    exact lawful_of_steady hl rfl hs (h₂.trans (signal_steady b₂)) hk rfl
  · next b₂ hcall =>
    obtain ⟨h₂, -, hk⟩ := callLive_steady (by simp) hcall
    exact lawful_of_steady hl rfl hs h₂ hk rfl

/-! ### Starting and stopping -/

section Life
variable (eng b)

theorem release_facts : Calm b (b.release eng) ∧ (b.release eng).phase = .released ∧
    (b.release eng).correlator = b.correlator ∧ (b.release eng).loop = b.loop := by
  unfold release
  dsimp only
  split_ifs
  · have h := callEngine_steady eng .shutdown b trivial
    exact ⟨h.toCalm.trans (.of_eq rfl rfl), rfl, by simp, by simp⟩
  · exact ⟨.of_eq rfl rfl, rfl, rfl, rfl⟩

theorem goLive_facts : Calm b (b.goLive eng) ∧ (b.goLive eng).correlator = b.correlator ∧
    (b.goLive eng).loop = b.loop := by
  have h := callEngine_steady eng (.setMaxPayload b.maxPayload) b trivial
  exact ⟨h.toCalm.trans (.of_eq rfl rfl), by simp [goLive], by simp [goLive]⟩

theorem startLoop_facts : Calm b (b.startLoop eng).2 ∧
    (b.startLoop eng).2.correlator = b.correlator ∧
    (b.startLoop eng).2.loop.quit = b.loop.quit := by
  unfold startLoop
  split
  · next loop h =>
    have hq : loop.quit = b.loop.quit := by
      unfold EventLoop.start at h
      split_ifs at h <;> cases h <;> rfl
    exact ⟨.of_eq rfl rfl, rfl, hq⟩
  · obtain ⟨hc, -, hk, hl⟩ := release_facts eng b
    exact ⟨hc, hk, by rw [hl]⟩

theorem discardQueue_calm : Calm b b.discardQueue := by
  refine ⟨rfl, b.queue.events.map .discarded, rfl, fun x hx => ?_⟩
  obtain ⟨e, -, rfl⟩ := List.mem_map.mp hx
  trivial

theorem finishStop_eq : ∃ b₁ : Bridge σ, Calm (b.release eng) b₁ ∧ b.finishStop eng =
    { b₁.discardQueue with registry := b₁.registry.clear } ∧ b₁.phase = .released ∧
    b₁.correlator = (b.release eng).correlator.abandonAll :=
  ⟨{ b.release eng with correlator := (b.release eng).correlator.abandonAll }, .of_eq rfl rfl, rfl,
    (release_facts eng b).2.1, rfl⟩

/-- **After stopping** the engine has ended and nothing is pending. -/
theorem finishStop_facts : Calm b (b.finishStop eng) ∧ (b.finishStop eng).phase = .released ∧
    (∀ t, (b.finishStop eng).correlator.find? t = none) ∧
    (b.finishStop eng).correlator.issued = b.correlator.issued := by
  obtain ⟨hc, -, hk, -⟩ := release_facts eng b
  obtain ⟨b₁, h₁, he, hp, hk₁⟩ := finishStop_eq eng b
  have hfin : (b.finishStop eng).correlator = b₁.correlator := by rw [he]; rfl
  refine ⟨hc.trans (h₁.trans ?_), by rw [he]; exact hp, fun t => ?_, ?_⟩
  · rw [he]; exact (discardQueue_calm b₁).trans (.of_eq rfl rfl)
  · rw [hfin, hk₁]; rfl
  · rw [hfin, hk₁, hk]; rfl

theorem stopLoop_facts : b.stopLoop.1 = !b.loop.quit ∧ Calm b b.stopLoop.2 ∧
    b.stopLoop.2.phase = b.phase ∧ b.stopLoop.2.correlator = b.correlator := by
  unfold stopLoop EventLoop.stop EventLoop.requestQuit
  cases b.loop.quit <;> exact ⟨rfl, .of_eq rfl rfl, rfl, rfl⟩

/-- **Stopping gives up everything,** whether it is the first time or not. -/
theorem stop_facts (hs : b.Sound) : Calm b (b.stop eng) ∧ (b.stop eng).Sound ∧
    (∀ t, (b.stop eng).correlator.find? t = none) ∧
    (b.stop eng).correlator.issued = b.correlator.issued := by
  obtain ⟨hdone, hc, hp, hk⟩ := stopLoop_facts b
  unfold stop
  rcases hst : b.stopLoop with ⟨_ | _, b₁⟩
  all_goals rw [hst] at hdone hc hp hk; dsimp only at hdone hc hp hk ⊢
  · have hr := hs.retired (by simpa using hdone.symm)
    have hnone : ∀ t, b₁.correlator.find? t = none := by rw [hk]; exact hr.2
    refine ⟨hc, ⟨fun u p hu => ?_, fun _ => ⟨hp.trans hr.1, hnone⟩⟩, hnone, by rw [hk]⟩
    rw [hnone u] at hu
    cases hu
  · obtain ⟨hc', hp', hnone, hi⟩ := finishStop_facts eng b₁
    refine ⟨hc.trans hc', ⟨fun u p hu => ?_, fun _ => ⟨hp', hnone⟩⟩, hnone, by rw [hi, hk]⟩
    rw [hnone u] at hu
    cases hu

end Life

theorem stop_lawful (hl : b.log = []) (hs : b.Sound) {c : Command σ}
    (hc : abandons (.called c) = true) (hb : Calm (b.stop eng) b')
    (hk : b'.correlator = (b.stop eng).correlator) (hp : b'.phase = (b.stop eng).phase)
    (hq : b'.loop = (b.stop eng).loop) :
    Lawful c [.called c] b (b', .reply (.unit (.ok ()))) := by
  obtain ⟨hcalm, hso, hnone, hi⟩ := stop_facts eng b hs
  refine lawful_of_abandon (hcalm.trans hb).settings ⟨?_, ?_⟩ (Nat.le_of_eq (by rw [hk, hi]))
    (by rw [hk]; exact hnone) (notTaken_of_calm hl (hcalm.trans hb)) (Or.inl hc) rfl
  · rw [hk]; exact hso.bounded
  · rw [hk, hp, hq]; exact hso.retired

theorem start_lawful (hl : b.log = []) (hs : b.Sound) (identity : Option Identity) :
    Lawful (.start identity) [.called (.start identity)] b
      (replying .unit (b.start eng identity)) := by
  unfold start
  split
  · exact lawful_of_steady hl rfl hs (.of_eq rfl rfl rfl rfl) rfl rfl
  next href =>
  have hquit : b.loop.quit = false := by
    unfold startRefusal? at href
    split_ifs at href with h
    · simpa using h
  have hcall := callEngine_log eng (.init (identity.getD b.settings.identity)) b
  have hsteady := callEngine_steady eng (.init (identity.getD b.settings.identity)) b
  have hk : (b.callEngine eng (.init (identity.getD b.settings.identity))).2.correlator =
    b.correlator := by simp
  have hset : (b.callEngine eng (.init (identity.getD b.settings.identity))).2.settings =
    b.settings := by simp
  split
  · next e b₁ hb₁ =>
    rw [hb₁] at hsteady hk
    exact lawful_of_steady hl rfl hs (hsteady trivial) hk rfl
  · next b₁ hb₁ =>
    rw [hb₁] at hsteady hk
    have h₁ := hsteady trivial
    obtain ⟨h₂, hk₂, hl₂⟩ := goLive_facts eng b₁
    obtain ⟨h₃, hk₃, hq₃⟩ := startLoop_facts eng (b₁.goLive eng)
    have hk' : ((b₁.goLive eng).startLoop eng).2.correlator = b.correlator := by
      rw [hk₃, hk₂, hk]
    refine lawful_of_reply hl rfl (h₁.toCalm.trans (h₂.trans h₃)) ⟨?_, fun hq => ?_⟩
      (Nat.le_of_eq (by rw [hk'])) (by rw [hk']) rfl
    · rw [hk']; exact hs.bounded
    · rw [hq₃, hl₂, h₁.quit, hquit] at hq
      cases hq
  · next b₁ hb₁ =>
    rw [hb₁] at hcall hk hset
    obtain ⟨-, h₁, -, hk₁⟩ := stopLoop_facts b₁
    obtain ⟨h₂, hk₂, -⟩ := goLive_facts eng b₁.stopLoop.2
    obtain ⟨h₃, hk₃, -⟩ := startLoop_facts eng (b₁.stopLoop.2.goLive eng)
    obtain ⟨h₄, hp, hnone, hi⟩ :=
      finishStop_facts eng ((b₁.stopLoop.2.goLive eng).startLoop eng).2
    have h := h₁.trans (h₂.trans (h₃.trans h₄))
    obtain ⟨hs', hlog, hplain⟩ := h.log
    refine lawful_of_abandon (h.settings.trans hset) ⟨fun u p hu => ?_, fun _ => ⟨hp, hnone⟩⟩
      (Nat.le_of_eq ?_) hnone ?_ (Or.inr ⟨.engine (.init (identity.getD b.settings.identity))
        .readyButStopped, ?_, rfl⟩) rfl
    · rw [hnone u] at hu
      cases hu
    · rw [hi, hk₃, hk₂, hk₁, hk]
    · intro x hx
      rw [hlog, hcall, hl, List.nil_append] at hx
      rcases List.mem_append.mp hx with hx | hx
      · rcases List.mem_cons.mp hx with rfl | hx
        · exact fun e => nofun
        · obtain ⟨e, -, rfl⟩ := List.mem_map.mp hx
          exact fun e => nofun
      · exact notTaken_of_isPlain (hplain x hx)
    · rw [hlog, hcall]
      simp

/-! ### Poll cycles -/

section Cycles
variable {c : Command σ} {e : CycleEnd}

/-- **A piece that drains the queue** is lawful, if the reply at the end gives out no token. -/
theorem lawful_of_drained {opening : List (Entry σ)} {p : Piece σ} {hs : List Happening}
    (ho : ∀ x ∈ opening, x = .called c ∧ abandons x = false)
    (hcy : opening = [] ∨ c.IsCycle) (hl : b.log = [])
    (hso : b.Sound) (hst : Steady b b') (hk : b'.correlator = b.correlator)
    (he : e.finalReply.granted? = none) (hp : Drained b.settings e b' p hs) :
    Lawful c opening b p := by
  obtain ⟨hs₀, hlog, hplain⟩ := hst.log
  rw [hl, List.nil_append] at hlog
  have hopen : replay b.settings b.correlator.find? (opening ++ b'.log.map .happened) =
      b'.correlator.find? := by
    rw [hlog, replay_append, replay_of_isPlain hplain, hk]
    refine replay_eq_self (fun x hx => ?_) (fun x hx t p => ?_) _
    · rw [(ho x hx).1]; rfl
    · obtain ⟨rfl, hc⟩ := ho x hx
      simpa [closes] using hc
  have hentries : ∀ h, opening ++ entries c p h =
      (opening ++ b'.log.map .happened) ++ (hs.map .happened ++ [p.2.closing c h]) := by
    intro h
    simp [entries, hp.log]
  have hnone : ∀ r, p.2 = .reply r → r.granted? = none := by
    intro r hr
    rw [← finalReply_of_reply hr, hp.reply, he]
  have hkept : ∀ t q, p.1.correlator.find? t = some q → b.correlator.find? t = some q := by
    intro t q hq
    rw [← hk]
    exact hp.kept t q hq
  have hi : p.1.correlator.issued = b.correlator.issued := by rw [hp.issued, hk]
  exact {
    settings := by rw [hp.settings, hst.settings]
    sound :=
      { bounded := fun u q hu => by rw [hi]; exact hso.bounded u q (hkept u q hu)
        retired := fun hq => by
          rw [hp.quit, hst.quit] at hq
          obtain ⟨hr, hn⟩ := hso.retired hq
          refine ⟨by rw [hp.phase, hst.phase, hr], fun t => ?_⟩
          refine Option.eq_none_iff_forall_ne_some.mpr ?_
          intro q hq
          have := hn t
          rw [hkept t q hq] at this
          cases this }
    issued := Nat.le_of_eq hi.symm
    law := fun h => by
      rw [hentries]
      refine Law.append (law_of_quiet ?_ ?_) (by rw [hopen]; exact hp.law c h)
      · intro ev hev
        rcases List.mem_append.mp hev with hx | hx
        · cases (ho _ hx).1
        · obtain ⟨y, hy, heq⟩ := List.mem_map.mp hx
          cases heq
          rw [hlog] at hy
          exact hplain _ hy
      · intro n hd hn
        rcases List.mem_append.mp hn with hx | hx
        · cases (ho _ hx).1
        · obtain ⟨y, -, heq⟩ := List.mem_map.mp hx
          cases heq
    replay := fun h => by
      rw [hentries, replay_append, hopen, replay_concat, hp.replay]
      cases hout : p.2 with
      | reply r => exact post_returned (hnone r hout) c
      | notify n rest => exact post_notified n h
    granted := fun r t hr ht => by rw [hnone r hr] at ht; cases ht
    rest := fun n a ha => by rw [← finalReply_of_notify ha, hp.reply, he]
    quiet := hcy.imp_right Or.inl }

theorem pollCycle_lawful (hl : b.log = []) (hs : b.Sound) (hc : abandons (.called c) = false)
    (hcy : c.IsCycle) (finish : Option ℕ → CycleEnd)
    (hf : ∀ next, (finish next).finalReply.granted? = none) :
    Lawful c [.called c] b (b.pollCycle eng finish) := by
  unfold pollCycle
  split_ifs
  · have hst := callEngine_steady eng .poll b trivial
    obtain ⟨hs', hd⟩ := drainFrom_drained (s := b.settings)
      (finish (b.callEngine eng .poll).1) (b.callEngine eng .poll).2.queue.events
      (b.callEngine eng .poll).2
    exact lawful_of_drained (by simpa using hc) (Or.inr hcy) hl hs hst (by simp) (hf _) hd
  · exact lawful_of_drained (by simpa using hc) (Or.inr hcy) hl hs (.of_eq rfl rfl rfl rfl) rfl
      (hf none) (endCycle_drained _ b)

theorem poll_lawful (hl : b.log = []) (hs : b.Sound) :
    Lawful .poll [.called .poll] b (b.poll eng) := by
  unfold poll
  split
  · exact lawful_of_steady hl rfl hs (.of_eq rfl rfl rfl rfl) rfl rfl
  split
  · exact lawful_of_steady hl rfl hs (.of_eq rfl rfl rfl rfl) rfl rfl
  · exact pollCycle_lawful (c := .poll) hl hs rfl trivial _ fun next => rfl

theorem workerCycle_lawful (hl : b.log = []) (hs : b.Sound) :
    Lawful .cycle [.called .cycle] b (b.workerCycle eng) := by
  unfold workerCycle
  split
  · exact lawful_of_drained (by simp [abandons]) (Or.inr trivial) hl hs (.of_eq rfl rfl rfl rfl) rfl
      rfl (endCycle_drained _ b)
  · exact pollCycle_lawful (c := .cycle) hl hs rfl trivial _ fun next => rfl

end Cycles

/-! ### Tokens are not taken back -/

section Issued
variable (eng b)

theorem stop_issued : (b.stop eng).correlator.issued = b.correlator.issued := by
  obtain ⟨-, -, -, hk⟩ := stopLoop_facts b
  unfold stop
  split
  · next b₁ h =>
    rw [h] at hk
    rw [(finishStop_facts eng b₁).2.2.2, hk]
  · next b₁ h =>
    rw [h] at hk
    exact congrArg Correlator.issued hk

theorem start_issued (identity : Option Identity) :
    (b.start eng identity).2.correlator.issued = b.correlator.issued := by
  have hk : (b.callEngine eng (.init (identity.getD b.settings.identity))).2.correlator =
    b.correlator := by simp
  unfold start
  split
  · rfl
  split
  · next b₁ h =>
    rw [h] at hk
    exact congrArg Correlator.issued hk
  · next b₁ h =>
    rw [h] at hk
    rw [(startLoop_facts eng _).2.1, (goLive_facts eng _).2.1, hk]
  · next b₁ h =>
    rw [h] at hk
    dsimp only
    rw [(finishStop_facts eng _).2.2.2, (startLoop_facts eng _).2.1, (goLive_facts eng _).2.1,
      (stopLoop_facts _).2.2.2, hk]

theorem pollCycle_issued (finish : Option ℕ → CycleEnd) :
    (b.pollCycle eng finish).1.correlator.issued = b.correlator.issued := by
  unfold pollCycle
  split_ifs
  · obtain ⟨hs, hd⟩ := drainFrom_drained (s := b.settings) (finish (b.callEngine eng .poll).1)
      (b.callEngine eng .poll).2.queue.events (b.callEngine eng .poll).2
    exact hd.issued.trans (by simp)
  · exact (endCycle_drained (s := b.settings) _ b).issued

/-- A command that took a token and then called the engine has given out one more. -/
theorem issued_le_of_issue (b₁ : Bridge σ) {p : Pending} {t : Token} {k : Correlator}
    (hiss : b.correlator.issue p = .ok (t, k)) (hk : b₁.correlator = k) :
    b.correlator.issued ≤ b₁.correlator.issued := by
  rw [hk, (Correlator.issue_eq_ok hiss).2.1]
  omega

theorem refuse_fst (r : Request) (status : Status) (e : BridgeError) :
    (b.refuse r status e).1 = b := by
  unfold refuse
  split_ifs <;> rfl

theorem submit_issued_le (r : Request) :
    b.correlator.issued ≤ (b.submit eng r).1.correlator.issued := by
  unfold submit
  split
  · exact Nat.le_refl _
  split
  · exact Nat.le_of_eq (by rw [refuse_fst])
  split
  · exact Nat.le_refl _
  next t k hiss =>
  dsimp only
  split
  · exact issued_le_of_issue b { b with correlator := k } hiss rfl
  · next b₂ hcall => exact issued_le_of_issue b b₂ hiss (callLive_correlator hcall)
  · next b₂ hcall =>
    rw [refuse_fst]
    exact issued_le_of_issue b b₂ hiss (callLive_correlator hcall)

theorem discover_issued_le (scope : UInt8) (query : String) :
    b.correlator.issued ≤ (b.discover eng scope query).1.correlator.issued := by
  unfold discover
  split
  · exact Nat.le_refl _
  next t k hiss =>
  dsimp only
  split
  · exact issued_le_of_issue b { b with correlator := k } hiss rfl
  all_goals next b₂ hcall => exact issued_le_of_issue b b₂ hiss (callLive_correlator hcall)

theorem handshake_issued_le (identifier password : String) :
    b.correlator.issued ≤ (b.handshake eng identifier password).1.correlator.issued := by
  unfold handshake
  split
  · exact Nat.le_refl _
  dsimp only
  split
  · exact Nat.le_refl _
  next t k hiss =>
  split
  · exact issued_le_of_issue b { b with correlator := k } hiss rfl
  all_goals next b₂ hcall => exact issued_le_of_issue b b₂ hiss (callLive_correlator hcall)

theorem groupMessage_issued (scope : UInt8) (m : GroupMessage) :
    (b.groupMessage eng scope m).1.correlator.issued = b.correlator.issued := by
  unfold groupMessage
  dsimp only
  split
  · rfl
  split
  · rfl
  all_goals
    next b₂ hcall =>
      exact (congrArg Correlator.issued (callLive_correlator hcall) :
        b₂.correlator.issued = b.correlator.issued)

end Issued

/-- **The number of tokens given out never decreases.** -/
theorem perform_issued_le (eng : Engine σ) (installed : Category → Bool) (c : Command σ)
    (b : Bridge σ) : b.correlator.issued ≤ (b.perform eng installed c).1.correlator.issued := by
  cases c with
  | start identity => exact Nat.le_of_eq (start_issued eng b identity).symm
  | poll =>
    simp only [perform, poll]
    split
    · exact Nat.le_refl _
    split
    · exact Nat.le_refl _
    · exact Nat.le_of_eq (pollCycle_issued eng b _).symm
  | cycle =>
    simp only [perform, workerCycle]
    split
    · exact Nat.le_of_eq (endCycle_drained (s := b.settings) _ b).issued.symm
    · exact Nat.le_of_eq (pollCycle_issued eng b _).symm
  | stop => exact Nat.le_of_eq (stop_issued eng b).symm
  | dispose => exact Nat.le_of_eq (stop_issued eng b).symm
  | push e => exact Nat.le_of_eq (by simp only [perform, replying, push_correlator])
  | submit r => exact submit_issued_le eng b r
  | discover scope query => exact discover_issued_le eng b scope query
  | discoverDefault => exact discover_issued_le eng b _ _
  | handshake identifier password => exact handshake_issued_le eng b identifier password
  | groupMessage scope m => exact Nat.le_of_eq (groupMessage_issued eng b scope m).symm
  | register identifier address =>
    simp only [perform, replying, register]
    split <;> exact Nat.le_refl _
  | setName identifier name =>
    simp only [perform, replying, setName]
    split
    · split <;> exact Nat.le_refl _
    · exact Nat.le_refl _
  | setSecure identifier secure =>
    simp only [perform, replying, setSecure]
    split <;> exact Nat.le_refl _
  | setMaxPayload size =>
    simp only [perform, replying, setMaxPayload]
    split
    · exact Nat.le_refl _
    split
    · next hcall =>
      exact Nat.le_of_eq (congrArg Correlator.issued (callLive_correlator hcall).symm)
    · exact Nat.le_refl _
  | _ => exact Nat.le_refl _

theorem proceed_issued (rest : Rest) (b : Bridge σ) :
    (b.proceed rest).1.correlator.issued = b.correlator.issued := by
  cases rest with
  | reply r => rfl
  | drain e =>
    obtain ⟨hs, hd⟩ := drainFrom_drained (s := b.settings) e b.queue.events b
    exact hd.issued
  | announce t found serials source text e =>
    obtain ⟨registry, hs, hf, -⟩ := announce_frame t source text e serials found b
    simp only [proceed, hf]

/-! ### All commands -/

theorem setMaxPayload_lawful (hl : b.log = []) (hs : b.Sound) (size : ℕ) :
    Lawful (.setMaxPayload size) [.called (.setMaxPayload size)] b
      (replying .unit (b.setMaxPayload eng size)) := by
  have h₁ : Steady b { b with maxPayload := size } := .of_eq rfl rfl rfl rfl
  unfold setMaxPayload
  split
  · exact lawful_of_steady hl rfl hs (.of_eq rfl rfl rfl rfl) rfl rfl
  dsimp only
  split
  · next b₂ hcall =>
    obtain ⟨h₂, -, hk⟩ := callLive_steady (by simp) hcall
    exact lawful_of_steady hl rfl hs (h₁.trans h₂) hk rfl
  · exact lawful_of_steady hl rfl hs h₁ rfl rfl

/-- **Every command is lawful** up to its reply or its first notification. -/
theorem perform_lawful (installed : Category → Bool) (c : Command σ) (hl : b.log = [])
    (hs : b.Sound) (hlim : b.correlator.issued < Token.limit) :
    Lawful c [.called c] b (b.perform eng installed c) := by
  have calm : ∀ {b' : Bridge σ} {r : Reply}, b'.settings = b.settings → b'.log = b.log →
      b'.phase = b.phase → b'.loop = b.loop → b'.correlator = b.correlator → r.granted? = none →
      abandons (.called c) = false → Lawful c [.called c] b (b', .reply r) :=
    fun h₁ h₂ h₃ h₄ h₅ h₆ h₇ => lawful_of_steady hl h₇ hs (.of_eq h₁ h₂ h₃ (by rw [h₄])) h₅ h₆
  cases c with
  | start identity => exact start_lawful hl hs identity
  | poll => exact poll_lawful hl hs
  | cycle => exact workerCycle_lawful hl hs
  | stop => exact stop_lawful hl hs rfl (.of_eq rfl rfl) rfl rfl rfl
  | dispose =>
    exact stop_lawful hl hs rfl ((discardQueue_calm _).trans (.of_eq rfl rfl)) rfl rfl rfl
  | push e => exact lawful_of_steady hl rfl hs (push_steady e b) (push_correlator e b) rfl
  | submit r => exact submit_lawful hl hs hlim r
  | discover scope query => exact discover_lawful rfl rfl hl hs hlim scope query
  | discoverDefault => exact discover_lawful rfl rfl hl hs hlim _ _
  | handshake identifier password => exact handshake_lawful hl hs hlim identifier password
  | groupMessage scope m => exact groupMessage_lawful hl hs scope m
  | register identifier address =>
    simp only [perform, replying, register]
    split <;> exact calm rfl rfl rfl rfl rfl rfl rfl
  | setName identifier name =>
    simp only [perform, replying, setName]
    split
    · split <;> exact calm rfl rfl rfl rfl rfl rfl rfl
    · exact calm rfl rfl rfl rfl rfl rfl rfl
  | setSecure identifier secure =>
    simp only [perform, replying, setSecure]
    split <;> exact calm rfl rfl rfl rfl rfl rfl rfl
  | setMaxPayload size => exact setMaxPayload_lawful hl hs size
  | _ => exact calm rfl rfl rfl rfl rfl rfl rfl

/-- **The rest of a command is lawful,** if it gives out no token. -/
theorem proceed_lawful {rest : Rest} (c : Command σ) (hl : b.log = []) (hs : b.Sound)
    (hr : rest.finalReply.granted? = none) : Lawful c [] b (b.proceed rest) := by
  cases rest with
  | reply r =>
    exact {
      settings := rfl
      sound := hs
      issued := Nat.le_refl _
      law := fun h => law_of_reply c (by simp) (by simp [hl]) h
      replay := fun h => by
        simp only [entries, proceed, hl]
        exact post_returned hr c
      granted := fun r' t he ht => by
        cases he
        rw [show r.granted? = none from hr] at ht
        cases ht
      rest := fun n a he => by cases he
      quiet := Or.inl rfl }
  | drain e =>
    obtain ⟨hs', hd⟩ := drainFrom_drained (s := b.settings) e b.queue.events b
    exact lawful_of_drained (by simp) (Or.inl rfl) hl hs (.of_eq rfl rfl rfl rfl) rfl hr hd
  | announce t found serials source text e =>
    obtain ⟨registry, hs', hf, hd⟩ := announce_frame t source text e serials found b
    have hfinal := announce_not_final t source text e serials found b
    have hreply := announce_finalReply t source text e serials found b
    have hplain : ∀ x ∈ hs', x.IsPlain := by
      intro x hx
      obtain ⟨k, rfl⟩ := hd x hx
      trivial
    have hlog : (b.proceed (.announce t found serials source text e)).1.log = hs' := by
      simp [proceed, hf, hl]
    have hk :
        (b.proceed (.announce t found serials source text e)).1.correlator = b.correlator := by
      simp [proceed, hf]
    have hst : Steady b (b.proceed (.announce t found serials source text e)).1 :=
      ⟨⟨by simp [proceed, hf], hs', by rw [hlog, hl, List.nil_append], hplain⟩,
        by simp [proceed, hf], by simp [proceed, hf]⟩
    exact {
      settings := hst.settings
      sound := hs.of_steady hst (Nat.le_of_eq (by rw [hk])) (by rw [hk])
      issued := Nat.le_of_eq (by rw [hk])
      law := fun h => by
        rw [entries, hlog]
        constructor
        · intro pre post ev u p n hes
          have hmem : .happened (.taken ev) ∈ [] ++ ((hs'.map .happened : List (Entry σ)) ++
              [(b.proceed (.announce t found serials source text e)).2.closing c h]) := by
            rw [hes]; simp
          simp only [proceed, Dispatch.Outcome.closing, List.nil_append, List.mem_append,
            List.mem_map, List.mem_singleton, reduceCtorEq, or_false,
            Dispatch.Entry.happened.injEq, exists_eq_right] at hmem
          exact (hplain _ hmem).elim
        · intro pre n hd' post hes hn
          obtain ⟨-, heq⟩ := Lists.eq_of_concat_eq (by simpa using hes) (by simp)
          cases heq
          exact absurd hn hfinal
      replay := fun h => by
        rw [List.nil_append, entries, hlog, replay_concat, replay_of_isPlain hplain, hk]
        exact post_notified _ h
      granted := fun r u he => by cases he
      rest := fun n a he => by
        cases he
        rw [hreply]
        exact hr
      quiet := Or.inl rfl }

end KnxIoT.Bridge

import KnxIoT.Proofs.Bridge.Commands
import KnxIoT.Proofs.Dispatch.Steps

/-! # Runs of programs on a bridge

`Coherent` is what a run keeps: the trace alone tells what is pending, no token is given out twice,
and the whole trace obeys the law. `step_coherent` is one step of any kind, and `run_coherent` says
it of every run that starts with a new bridge, as long as the tokens fit into 64 bits. -/

namespace KnxIoT.Bridge

variable {σ : Type} {eng : Engine σ} {s : Settings}

/-! ### Tokens in a longer trace -/

theorem Distinct.concat {tr : List (Entry σ)} {x : Entry σ} (h : Distinct s tr)
    (hx : ∀ t p, issue? s x = some (t, p) → ∀ y ∈ tr, ∀ q, issue? s y ≠ some (t, q)) :
    Distinct s (tr ++ [x]) := by
  intro i j y z t p q hi hy hj hz
  by_cases hil : i = tr.length <;> by_cases hjl : j = tr.length
  · rw [hil, hjl]
  · subst hil
    simp only [List.getElem?_concat_length, Option.some.injEq] at hi
    subst hi
    exact absurd hz (hx t p hy z (List.mem_of_getElem? (Lists.getElem?_concat_of_ne hj hjl)) q)
  · subst hjl
    simp only [List.getElem?_concat_length, Option.some.injEq] at hj
    subst hj
    exact absurd hy (hx t q hz y (List.mem_of_getElem? (Lists.getElem?_concat_of_ne hi hil)) p)
  · exact h i j y z t p q (Lists.getElem?_concat_of_ne hi hil) hy (Lists.getElem?_concat_of_ne hj hjl) hz

theorem Distinct.append {tr es : List (Entry σ)} (h : Distinct s tr)
    (hes : ∀ x ∈ es, issue? s x = none) : Distinct s (tr ++ es) := by
  induction es generalizing tr with
  | nil => simpa using h
  | cons x es ih =>
    have hx : Distinct s (tr ++ [x]) := h.concat fun t p hp => by
      rw [hes x (by simp)] at hp
      cases hp
    simpa using ih hx fun y hy => hes y (by simp [hy])

theorem issue?_closing {c : Command σ} {p : Piece σ} {h : Option HandlerName} {t : Token}
    {q : Pending} (hi : issue? s (p.2.closing c h) = some (t, q)) :
    ∃ r, p.2 = .reply r ∧ r.granted? = some t := by
  rcases hp : p.2 with r | ⟨n, rest⟩ <;> rw [hp] at hi
  · refine ⟨r, rfl, ?_⟩
    simp only [Dispatch.Outcome.closing, issue?] at hi
    split at hi
    · next u q' hu ho =>
      simp only [Option.some.injEq, Prod.mk.injEq] at hi
      rw [hu, hi.1]
    · cases hi
  · cases hi

/-! ### Coherence -/

/-- **What a run keeps** on a bridge with the given settings. -/
structure Coherent (s : Settings) (m : Machine σ) : Prop where
  settings : m.state.settings = s
  log : m.state.log = []
  sound : m.state.Sound
  ledger : ledger s m.trace = m.state.correlator.find?
  law : Law s (fun _ => none) m.trace
  given : ∀ x ∈ m.trace, ∀ t p, issue? s x = some (t, p) →
    t.raw.toNat ≤ m.state.correlator.issued
  distinct : Distinct s m.trace
  stacked : Dispatch.Machine.Stacked m.stack
  rests : ∀ a d, .rest a d ∈ m.stack → a.finalReply.granted? = none

theorem make_eq_ok {settings : Settings} {engine : σ} {b : Bridge σ}
    (h : make settings engine = .ok b) : b =
      { settings
        engine
        registry := { capacity := settings.maxDevices }
        correlator := { capacity := settings.maxPendingRequests }
        maxPayload := settings.maxPayloadSize } := by
  unfold make Settings.validate at h
  split_ifs at h
  cases h
  rfl

theorem load_coherent {settings : Settings} {engine : σ} {b : Bridge σ}
    (h : make settings engine = .ok b) (p : Program σ) :
    Coherent settings (Dispatch.Machine.load { state := b } p : Machine σ) := by
  have hb : b.log = [] ∧ b.loop.quit = false ∧ b.correlator.table = [] := by
    rw [make_eq_ok h]
    exact ⟨rfl, rfl, rfl⟩
  have hf : ∀ t, b.correlator.find? t = none := Correlator.find?_eq_none_of_table hb.2.2
  exact {
    settings := by rw [make_eq_ok h]; rfl
    log := hb.1
    sound :=
      { bounded := fun u q hu => absurd ((hf u).symm.trans hu) nofun
        retired := fun hq => absurd (hb.2.1.symm.trans hq) nofun }
    ledger := (funext hf).symm
    law := law_of_quiet (by simp [Dispatch.Machine.load]) (by simp [Dispatch.Machine.load])
    given := by simp [Dispatch.Machine.load]
    distinct := fun i j x y t p q hi => by simp [Dispatch.Machine.load] at hi
    stacked := trivial
    rests := by simp [Dispatch.Machine.load] }

section Step
variable {m m' : Machine σ}

theorem Coherent.aside {es : List (Entry σ)} (hm : Coherent s m) (hs : m'.state = m.state)
    (ht : m'.trace = m.trace ++ es) (ha : ∀ x ∈ es, x.IsAside)
    (hst : Dispatch.Machine.Stacked m'.stack)
    (hr : ∀ a d, .rest a d ∈ m'.stack → .rest a d ∈ m.stack) : Coherent s m' := by
  have hi : ∀ x ∈ es, issue? s x = none := by
    intro x hx
    have := ha x hx
    unfold Dispatch.Entry.IsAside at this
    split at this <;> first | rfl | exact this.elim
  have hc : ∀ x ∈ es, ∀ t p, closes t p x = false := by
    intro x hx t p
    have := ha x hx
    unfold Dispatch.Entry.IsAside at this
    split at this <;> first | rfl | exact this.elim
  exact {
    settings := by rw [hs, hm.settings]
    log := by rw [hs, hm.log]
    sound := by rw [hs]; exact hm.sound
    ledger := by
      rw [ht, hs, ← hm.ledger]
      exact (replay_append _ _ _).trans (replay_eq_self hi hc _)
    law := by
      rw [ht]
      refine hm.law.append (law_of_quiet (fun e he => ?_) fun n h hn => ?_)
      · exact (ha _ he).elim
      · exact (ha _ hn).elim
    given := fun x hx t p hp => by
      rw [hs]
      rw [ht] at hx
      rcases List.mem_append.mp hx with hx | hx
      · exact hm.given x hx t p hp
      · rw [hi x hx] at hp; cases hp
    distinct := by rw [ht]; exact hm.distinct.append hi
    stacked := hst
    rests := fun a d had => hm.rests a d (hr a d had) }

/-- **A lawful piece keeps a run coherent.** -/
theorem Coherent.piece {c : Command σ} {opening : List (Entry σ)} {p : Piece σ}
    {h : Option HandlerName} (hm : Coherent s m) (hp : Lawful c opening m.state p)
    (hlim : m.state.correlator.issued < Token.limit) (ho : ∀ x ∈ opening, x = .called c)
    (hs : m'.state = { p.1 with log := [] }) (ht : m'.trace = m.trace ++ (opening ++ entries c p h))
    (hst : Dispatch.Machine.Stacked m'.stack)
    (hr : ∀ a d, .rest a d ∈ m'.stack → .rest a d ∈ m.stack ∨ ∃ n, p.2 = .notify n a) :
    Coherent s m' := by
  obtain rfl := hm.settings
  have hquiet : ∀ x ∈ opening ++ p.1.log.map .happened, issue? m.state.settings x = none := by
    intro x hx
    rcases List.mem_append.mp hx with hx | hx
    · rw [ho x hx]; rfl
    · obtain ⟨y, -, rfl⟩ := List.mem_map.mp hx
      rfl
  have hk : m'.state.correlator = p.1.correlator := by rw [hs]
  have htrace : m'.trace = (m.trace ++ (opening ++ p.1.log.map .happened)) ++
      [p.2.closing c h] := by rw [ht, entries]; simp
  -- The token given out at the end of the piece, if any, is new.
  have hnew : ∀ t q, issue? m.state.settings (p.2.closing c h) = some (t, q) →
      t.raw.toNat = m.state.correlator.issued + 1 ∧
        p.1.correlator.issued = m.state.correlator.issued + 1 := by
    intro t q hi
    obtain ⟨r, hpr, hg⟩ := issue?_closing hi
    obtain ⟨rfl, hi'⟩ := hp.granted r t hpr hg
    exact ⟨Token.toNat_after hlim, hi'⟩
  have hold : ∀ x ∈ m.trace ++ (opening ++ p.1.log.map .happened), ∀ t q,
      issue? m.state.settings x = some (t, q) → t.raw.toNat ≤ m.state.correlator.issued := by
    intro x hx t q hi
    rcases List.mem_append.mp hx with hx | hx
    · exact hm.given x hx t q hi
    · rw [hquiet x hx] at hi; cases hi
  exact {
    settings := by rw [hs]; exact hp.settings
    log := by rw [hs]
    sound := ⟨by rw [hk]; exact hp.sound.bounded, fun hq => by
      rw [hs] at hq ⊢; exact hp.sound.retired hq⟩
    ledger := by
      rw [ht, hk, ← hp.replay h, ← hm.ledger]
      exact replay_append _ _ _
    law := by
      rw [ht]
      refine hm.law.append ?_
      rw [show replay m.state.settings (fun _ => none) m.trace = _ from hm.ledger]
      exact hp.law h
    given := fun x hx t q hi => by
      rw [hk]
      rw [htrace] at hx
      rcases List.mem_append.mp hx with hx | hx
      · exact Nat.le_trans (hold x hx t q hi) hp.issued
      · rw [List.mem_singleton.mp hx] at hi
        obtain ⟨h₁, h₂⟩ := hnew t q hi
        omega
    distinct := by
      rw [htrace]
      refine (hm.distinct.append hquiet).concat fun t q hi y hy q' hy' => ?_
      have h₁ := (hnew t q hi).1
      have h₂ := hold y hy t q' hy'
      omega
    stacked := hst
    rests := fun a d had => by
      rcases hr a d had with had | ⟨n, hn⟩
      · exact hm.rests a d had
      · exact hp.rest n a hn }

/-- **Every step keeps a run coherent,** as long as there are tokens left. -/
theorem step_coherent (hm : Coherent s m) (hlim : m.state.correlator.issued < Token.limit) :
    Coherent s (m.step (system eng)) := by
  have hst := Dispatch.Machine.stacked_step (system eng) hm.stacked
  cases Dispatch.Machine.step_advance (system eng) hm.stacked with
  | aside es state trace asides rests => exact hm.aside state trace asides hst rests
  | start c h p next below stack piece state trace rests =>
    subst piece
    have hl : Lawful c [.called c] m.state (m.state.perform eng m.table.isInstalled c) :=
      perform_lawful m.table.isInstalled c hm.log hm.sound hlim
    exact hm.piece hl hlim (by simp) state trace hst rests
  | proceed a d c h p below stack piece state trace rests =>
    subst piece
    have hl := proceed_lawful c hm.log hm.sound (hm.rests a d (by rw [stack]; simp))
    exact hm.piece hl hlim (by simp) state trace hst rests

end Step

/-! ### Whole runs -/

theorem step_issued_le {m : Machine σ} (h : Dispatch.Machine.Stacked m.stack) :
    m.state.correlator.issued ≤ (m.step (system eng)).state.correlator.issued := by
  cases Dispatch.Machine.step_advance (system eng) h with
  | aside es state trace asides rests => exact Nat.le_of_eq (by rw [state])
  | start c h p next below stack piece state trace rests =>
    subst piece
    rw [state]
    exact perform_issued_le eng _ c m.state
  | proceed a d c h p below stack piece state trace rests =>
    subst piece
    rw [state]
    exact Nat.le_of_eq (proceed_issued a m.state).symm

theorem run_issued_le {m : Machine σ} (h : Dispatch.Machine.Stacked m.stack) {k n : ℕ}
    (hkn : k ≤ n) : (m.run (system eng) k).state.correlator.issued ≤
      (m.run (system eng) n).state.correlator.issued := by
  induction hkn with
  | refl => exact Nat.le_refl _
  | step _ ih =>
    rw [Dispatch.Machine.run_succ]
    exact Nat.le_trans ih (step_issued_le (Dispatch.Machine.stacked_run _ h _))

/-- **A run on a new bridge is coherent,** as long as its tokens fit into 64 bits. -/
theorem run_coherent {m : Machine σ} (hm : Coherent s m) (n : ℕ)
    (hlim : (m.run (system eng) n).state.correlator.issued < Token.limit) :
    Coherent s (m.run (system eng) n) := by
  induction n with
  | zero => exact hm
  | succ n ih =>
    have hlt := Nat.lt_of_le_of_lt (run_issued_le hm.stacked (Nat.le_succ n)) hlim
    rw [Dispatch.Machine.run_succ]
    exact step_coherent (ih hlt) hlt

end KnxIoT.Bridge

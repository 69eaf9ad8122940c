import KnxIoT.Proofs.Lists
import KnxIoT.Proofs.WakeSignal.Shared

/-! # No notification is lost or invented

The latch holds something exactly if a notification was stored after it was last swapped (`Recent`).
While the waiter holds the mutex and has found nothing, those who stored since have still to look
at the flag; while it is parked, they have still to look at it or to rouse the waiter. So none of
them has returned (`Inv.asleep`).

What the log says of the waiter is said of each of its entries and of what happened before: a wait
that ends because of a notification has just taken one that was stored after the one before was
taken (`Took`), and a wait that begins after a notification was stored ends with it at once
(`Answered`). `notifications_kept` puts this together. -/

namespace KnxIoT.WakeSignal

/-! ## Logs -/

namespace Happening

/-- The waiter did it. -/
def byWaiter : Happening → Bool
  | stored _ | notified _ => false
  | _ => true

def isSwap : Happening → Bool
  | swapped _ => true
  | _ => false

end Happening

section Logs
variable {x : Happening} {log later earlier : List Happening} {n : ℕ} {d : Option ℕ}

/-- Notification `n` was stored after the latch was last swapped. -/
def Recent (log : List Happening) (n : ℕ) : Prop :=
  .stored n ∈ log.takeWhile (!·.isSwap)

/-- Some notification was stored after one was last taken. -/
def Untaken (log : List Happening) : Prop :=
  ∃ n, .stored n ∈ log.takeWhile (· ≠ .swapped true)

/-- Some notification was stored after the waiter last did anything. -/
def Prompted (log : List Happening) : Prop :=
  ∃ n, .stored n ∈ log.takeWhile (!·.byWaiter)

/-- Nothing in the log was done by the waiter. -/
def Quiet (log : List Happening) : Prop :=
  ∀ x ∈ log, x.byWaiter = false

/-- **The last thing the waiter did was to take a notification** that was stored after one was last
taken. -/
def Took (log : List Happening) : Prop :=
  ∃ mid before, log = mid ++ .swapped true :: before ∧ Quiet mid ∧ Untaken before

theorem recent_cons : Recent (x :: log) n ↔ x.isSwap = false ∧ (x = .stored n ∨ Recent log n) := by
  unfold Recent
  rw [List.takeWhile_cons]
  cases x.isSwap with
  | true => simp
  | false => simp [eq_comm]

theorem Recent.untaken (h : Recent log n) : Untaken log := by
  refine ⟨n, Lists.mem_takeWhile_mono (fun y hy => ?_) h⟩
  cases y <;> simp_all [Happening.isSwap]

theorem Quiet.cons (hx : x.byWaiter = false) (h : Quiet log) : Quiet (x :: log) :=
  List.forall_mem_cons.mpr ⟨hx, h⟩

theorem Took.cons (hx : x.byWaiter = false) (h : Took log) : Took (x :: log) := by
  obtain ⟨mid, before, rfl, hmid, hbefore⟩ := h
  exact ⟨x :: mid, before, rfl, hmid.cons hx, hbefore⟩

theorem Took.swapped (h : Untaken log) : Took (.swapped true :: log) :=
  ⟨[], log, rfl, by simp [Quiet], h⟩

/-- What was stored before a wait is still in the latch as long as the waiter does nothing. -/
theorem Prompted.recent (h : Prompted earlier) (hquiet : Quiet later) :
    ∃ n, Recent (later ++ .began d :: earlier) n := by
  obtain ⟨n, hn⟩ := h
  refine ⟨n, ?_⟩
  induction later with
  | nil =>
    refine recent_cons.mpr ⟨rfl, .inr (Lists.mem_takeWhile_mono (fun y hy => ?_) hn)⟩
    cases y <;> simp_all [Happening.byWaiter, Happening.isSwap]
  | cons y later ih =>
    obtain ⟨hy, hquiet⟩ := List.forall_mem_cons.mp hquiet
    refine recent_cons.mpr ⟨?_, .inr (ih hquiet)⟩
    cases y <;> first | rfl | cases hy

end Logs

/-! ## Laws of the log -/

/-- **A wait that ends because of a notification** has just taken one. -/
def Earned (log : List Happening) : Prop :=
  ∀ later d earlier, log = later ++ .ended d .signaled :: earlier → Took earlier

/-- What a wait that began with a notification in the latch has come to: it is about to take it, or
the next things the waiter did were to take it and to return. -/
def Answered (p : Waiter) (later : List Happening) (d : Option ℕ) : Prop :=
  (Quiet later ∧ p = .swap d) ∨
    ∃ after mid, later = after ++ .ended d .signaled :: .swapped true :: mid ∧ Quiet mid

/-- **A wait that begins after a notification was stored** is answered. -/
def Prompt (p : Waiter) (log : List Happening) : Prop :=
  ∀ later d earlier, log = later ++ .began d :: earlier → Prompted earlier → Answered p later d

section Laws
variable {x : Happening} {log later : List Happening} {d : Option ℕ} {p p' : Waiter}

theorem Earned.cons (h : Earned log) (hx : ∀ d, x = .ended d .signaled → Took log) :
    Earned (x :: log) := by
  intro later d earlier heq
  rcases List.cons_eq_append_iff.mp heq with ⟨rfl, hlog⟩ | ⟨later, rfl, hlog⟩
  · obtain ⟨hd, rfl⟩ := List.cons_eq_cons.mp hlog
    exact hx d hd.symm
  · exact h later d earlier hlog

theorem Answered.cons (h : Answered p later d)
    (hx : p = .swap d → x.byWaiter = false ∧ p' = .swap d) : Answered p' (x :: later) d := by
  rcases h with ⟨hquiet, hp⟩ | ⟨after, mid, rfl, hmid⟩
  · exact .inl ⟨hquiet.cons (hx hp).1, (hx hp).2⟩
  · exact .inr ⟨x :: after, mid, rfl, hmid⟩

theorem Prompt.cons (h : Prompt p log) (hx : ∀ d, x = .began d → p' = .swap d)
    (hkeep : ∀ d, p = .swap d → x.byWaiter = false ∧ p' = .swap d) : Prompt p' (x :: log) := by
  intro later d earlier heq hearlier
  rcases List.cons_eq_append_iff.mp heq with ⟨rfl, hlog⟩ | ⟨later, rfl, hlog⟩
  · obtain ⟨hd, -⟩ := List.cons_eq_cons.mp hlog
    exact .inl ⟨by simp [Quiet], hx d hd.symm⟩
  · exact (h later d earlier hlog hearlier).cons (hkeep d)

theorem Prompt.leave (h : Prompt p log) (hp : ∀ d, p ≠ .swap d) : Prompt p' log := by
  intro later d earlier hlog hearlier
  exact .inr ((h later d earlier hlog hearlier).resolve_left fun hswap => hp d hswap.2)

theorem Prompt.recent (h : Prompt (.swap d) log) {later earlier : List Happening}
    {d' : Option ℕ} (hlog : log = later ++ .began d' :: earlier) (hearlier : Prompted earlier) :
    (d = d' ∧ Quiet later ∧ ∃ n, Recent log n) ∨
      ∃ after mid, later = after ++ .ended d' .signaled :: .swapped true :: mid ∧ Quiet mid := by
  rcases h later d' earlier hlog hearlier with ⟨hquiet, hd⟩ | hdone
  · refine .inl ⟨Waiter.swap.inj hd, hquiet, ?_⟩
    rw [hlog]
    exact hearlier.recent hquiet
  · exact .inr hdone

theorem Prompt.seize (h : Prompt (.swap d) log) :
    Prompt p' (.ended d .signaled :: .swapped true :: log) := by
  intro later d' earlier heq hearlier
  obtain ⟨later, rfl, hrest⟩ := Lists.exists_cons_of_ne (by simp) heq
  obtain ⟨later, rfl, hlog⟩ := Lists.exists_cons_of_ne (by simp) hrest
  rcases h.recent hlog hearlier with ⟨rfl, hquiet, -⟩ | ⟨after, mid, rfl, hmid⟩
  · exact .inr ⟨[], later, rfl, hquiet⟩
  · exact .inr ⟨.ended d .signaled :: .swapped true :: after, mid, rfl, hmid⟩

theorem Prompt.miss (h : Prompt (.swap d) log) (hnone : ¬ ∃ n, Recent log n) :
    Prompt p' (.swapped false :: log) := by
  intro later d' earlier heq hearlier
  obtain ⟨later, rfl, hlog⟩ := Lists.exists_cons_of_ne (by simp) heq
  rcases h.recent hlog hearlier with ⟨-, -, hrecent⟩ | ⟨after, mid, rfl, hmid⟩
  · exact absurd hrecent hnone
  · exact .inr ⟨.swapped false :: after, mid, rfl, hmid⟩

end Laws

/-! ## What every schedule keeps -/

/-- **What holds of the signal, of those who use it, and of the log,** in every schedule. -/
structure Inv (s : Shared) : Prop where
  flag : s.signal.parked = s.waiter.flagged
  latch : s.signal.latched = true ↔ ∃ n, Recent s.log n
  returned : ∀ n, .notified n ∈ s.log → s.notifiers n = .returned
  asleep : ∀ d, s.waiter = .decide d ∨ s.waiter = .parked d → ∀ n, Recent s.log n →
    s.notifiers n = .look ∨ s.notifiers n = .rouse ∧ s.waiter = .parked d
  leaving : ∀ d r, s.waiter = .leave d r →
    (r = .signaled → Took s.log) ∧ (r = .deadline → ∃ t ≤ s.now, d = some t)
  earned : Earned s.log
  expired : ∀ d, .ended d .deadline ∈ s.log → ∃ t ≤ s.now, d = some t
  prompt : Prompt s.waiter s.log

section Steps
variable {s s' : Shared}

theorem Waiter.flagged_rouse (p : Waiter) : p.rouse.flagged = p.flagged := by
  cases p <;> rfl

theorem Inv.step_flag (hs : Inv s) (h : Step s s') : s'.signal.parked = s'.waiter.flagged := by
  have hflag := hs.flag
  cases h with
  | rouse => exact hflag.trans s.waiter.flagged_rouse.symm
  | enter | leave => rfl
  | miss hw =>
    rcases hw with ⟨hw, rfl⟩ | ⟨hw, rfl⟩ <;> rw [hw] at hflag <;> exact hflag
  | begin _ hw | seize hw | take hw | expire hw | park hw | stir hw | relock hw =>
    rw [hw] at hflag
    exact hflag
  | _ => exact hflag

theorem Inv.step_latch (hs : Inv s) (h : Step s s') :
    s'.signal.latched = true ↔ ∃ n, Recent s'.log n := by
  have hlatch := hs.latch
  cases h with
  | store => exact iff_of_true rfl ⟨_, recent_cons.mpr ⟨rfl, .inl rfl⟩⟩
  | seize | take => exact iff_of_false (by simp) (by simp [recent_cons, Happening.isSwap])
  | miss _ hl => exact iff_of_false (by simp [hl]) (by simp [recent_cons, Happening.isSwap])
  | pass | rouse | begin | leave => simpa [recent_cons, Happening.isSwap] using hlatch
  | _ => exact hlatch

theorem returned_update {f : ℕ → Notifier} {log log' : List Happening} {m : ℕ} {v : Notifier}
    (h : ∀ n, .notified n ∈ log → f n = .returned) (hm : f m ≠ .returned)
    (hlog : ∀ n, .notified n ∈ log' → n = m ∧ v = .returned ∨ .notified n ∈ log) :
    ∀ n, .notified n ∈ log' → Function.update f m v n = .returned := by
  intro n hn
  rcases hlog n hn with ⟨rfl, rfl⟩ | hn
  · exact Function.update_self ..
  · have hne : n ≠ m := fun heq => hm (heq ▸ h n hn)
    rw [Function.update_of_ne hne]
    exact h n hn

theorem Inv.step_returned (hs : Inv s) (h : Step s s') :
    ∀ n, .notified n ∈ s'.log → s'.notifiers n = .returned := by
  have hreturned := hs.returned
  cases h with
  | store hn => exact returned_update hreturned (by simp [hn]) (by simp)
  | look hn => exact returned_update hreturned (by simp [hn]) fun _ => .inr
  | pass hn | rouse hn => exact returned_update hreturned (by simp [hn]) (by simp)
  | seize | take | miss | begin | leave => simpa using hreturned
  | _ => exact hreturned

theorem Waiter.eq_decide_of_rouse {p : Waiter} {d : Option ℕ}
    (h : p.rouse = .decide d ∨ p.rouse = .parked d) : p = .decide d := by
  cases p <;> simp_all [Waiter.rouse]

/-- The waiter parks only when those who stored since it looked have still to look at its flag, and
while it is parked they may have gone on to rouse it. -/
theorem Inv.step_asleep (hs : Inv s) (h : Step s s') :
    ∀ d, s'.waiter = .decide d ∨ s'.waiter = .parked d → ∀ n, Recent s'.log n →
      s'.notifiers n = .look ∨ s'.notifiers n = .rouse ∧ s'.waiter = .parked d := by
  intro d hd n hn
  cases h with
  | @store m hm =>
    dsimp only at hd hn ⊢
    by_cases hnm : n = m
    · subst hnm
      exact .inl (Function.update_self ..)
    · have hold : Recent s.log n := by simpa [recent_cons, Happening.isSwap, Ne.symm hnm] using hn
      rw [Function.update_of_ne hnm]
      exact hs.asleep d hd n hold
  | @look m hm hfree hflag =>
    dsimp only at hd hn ⊢
    have hparked : s.waiter = .parked d :=
      hd.resolve_left fun h => by simp [h, Waiter.locked] at hfree
    by_cases hnm : n = m
    · subst hnm
      exact .inr ⟨Function.update_self .., hparked⟩
    · rw [Function.update_of_ne hnm]
      exact hs.asleep d hd n hn
  | @pass m hm hfree hflag =>
    -- the flag of a waiter that is parked or about to park is set
    dsimp only at hd
    rw [hs.flag] at hflag
    rcases hd with hd | hd <;> rw [hd] at hflag <;> cases hflag
  | @rouse m hm =>
    dsimp only at hd hn ⊢
    have hdecide := Waiter.eq_decide_of_rouse hd
    have hold : Recent s.log n := by simpa [recent_cons, Happening.isSwap] using hn
    have hlook := (hs.asleep d (.inl hdecide) n hold).resolve_right fun h => by simp [hdecide] at h
    have hnm : n ≠ m := fun heq => by simp [heq, hm] at hlook
    rw [Function.update_of_ne hnm]
    exact .inl hlook
  | park hw =>
    obtain rfl : _ = d := Waiter.parked.inj (hd.resolve_left (by simp))
    exact (hs.asleep _ (.inl hw) n hn).imp id fun h => by simp [hw] at h
  | miss => exact absurd hn (by simp [recent_cons, Happening.isSwap])
  | tick => exact hs.asleep d hd n hn
  | _ => simp at hd

theorem Inv.step_leaving (hs : Inv s) (h : Step s s') :
    ∀ d r, s'.waiter = .leave d r →
      (r = .signaled → Took s'.log) ∧ (r = .deadline → ∃ t ≤ s'.now, d = some t) := by
  intro d r hd
  cases h with
  | store | pass =>
    exact (hs.leaving d r hd).imp (fun h hr => (h hr).cons rfl) id
  | rouse =>
    have hleave : s.waiter = .leave d r := by
      dsimp only at hd
      cases hw : s.waiter <;> simp_all [Waiter.rouse]
    exact (hs.leaving d r hleave).imp (fun h hr => (h hr).cons rfl) id
  | look => exact hs.leaving d r hd
  | take hw hl =>
    obtain ⟨rfl, rfl⟩ := Waiter.leave.inj hd
    obtain ⟨n, hn⟩ := hs.latch.mp hl
    exact ⟨fun _ => .swapped hn.untaken, nofun⟩
  | expire hw ht =>
    obtain ⟨rfl, rfl⟩ := Waiter.leave.inj hd
    exact ⟨nofun, fun _ => ⟨_, ht, rfl⟩⟩
  | miss hw => rcases hw with ⟨-, rfl⟩ | ⟨-, rfl⟩ <;> simp at hd
  | tick =>
    refine (hs.leaving d r hd).imp id fun h hr => ?_
    obtain ⟨t, ht, rfl⟩ := h hr
    exact ⟨t, Nat.le_succ_of_le ht, rfl⟩
  | _ => simp at hd

theorem Inv.step_earned (hs : Inv s) (h : Step s s') : Earned s'.log := by
  have hearned := hs.earned
  cases h with
  | store | pass | rouse | begin | take | miss => exact hearned.cons (by simp)
  | seize hw hl =>
    obtain ⟨n, hn⟩ := hs.latch.mp hl
    exact (hearned.cons (by simp)).cons fun _ _ => .swapped hn.untaken
  | @leave d r hw =>
    refine hearned.cons fun d' heq => ?_
    obtain ⟨-, rfl⟩ := Happening.ended.inj heq
    exact (hs.leaving d _ hw).1 rfl
  | _ => exact hearned

theorem Inv.step_expired (hs : Inv s) (h : Step s s') :
    ∀ d, .ended d .deadline ∈ s'.log → ∃ t ≤ s'.now, d = some t := by
  intro d hd
  have hexpired := hs.expired d
  cases h with
  | @leave d' r hw =>
    rcases List.mem_cons.mp hd with heq | hd
    · obtain ⟨rfl, rfl⟩ := Happening.ended.inj heq
      exact (hs.leaving d _ hw).2 rfl
    · exact hexpired hd
  | tick =>
    obtain ⟨t, ht, rfl⟩ := hexpired hd
    exact ⟨t, Nat.le_succ_of_le ht, rfl⟩
  | look | enter | expire | park | stir | relock => exact hexpired hd
  | _ => exact hexpired (by simpa using hd)

theorem Inv.step_prompt (hs : Inv s) (h : Step s s') : Prompt s'.waiter s'.log := by
  have hprompt := hs.prompt
  cases h with
  | store | pass => exact hprompt.cons (by simp) fun _ hw => ⟨rfl, hw⟩
  | rouse => exact hprompt.cons (by simp) fun _ hw => ⟨rfl, by simp [hw, Waiter.rouse]⟩
  | look | tick => exact hprompt
  | begin d hw =>
    refine hprompt.cons (fun d' heq => ?_) fun d' hw' => ?_
    · rw [Happening.began.inj heq]
    · rw [hw] at hw'
      cases hw'
  | seize hw hl =>
    rw [hw] at hprompt
    exact hprompt.seize
  | miss hw hl =>
    rcases hw with ⟨hw, rfl⟩ | ⟨hw, rfl⟩
    · rw [hw] at hprompt
      exact hprompt.miss fun h => by simp [hs.latch.mpr h] at hl
    · exact hprompt.cons (by simp) fun d h => by simp [hw] at h
  | take hw | leave hw => exact hprompt.cons (by simp) fun d h => by simp [hw] at h
  | enter hw | expire hw | park hw | stir hw | relock hw =>
    exact hprompt.leave fun d h => by simp [hw] at h

theorem Inv.step (hs : Inv s) (h : Step s s') : Inv s' where
  flag := hs.step_flag h
  latch := hs.step_latch h
  returned := hs.step_returned h
  asleep := hs.step_asleep h
  leaving := hs.step_leaving h
  earned := hs.step_earned h
  expired := hs.step_expired h
  prompt := hs.step_prompt h

theorem inv_fresh : Inv .fresh where
  flag := rfl
  latch := by simp [Shared.fresh, Recent]
  returned := by simp [Shared.fresh]
  asleep := by simp [Shared.fresh]
  leaving := by simp [Shared.fresh]
  earned := by simp [Shared.fresh, Earned]
  expired := by simp [Shared.fresh]
  prompt := by simp [Shared.fresh, Prompt]

theorem run_inv {ms : List Move} (h : Shared.fresh.run ms = some s) : Inv s :=
  run_induction (fun _ _ => Inv.step) ms inv_fresh h

end Steps

/-- **No notification is lost and none is invented,** whatever the order of steps. A wait ends
because of a notification only if it has just taken one that was stored after the one before was
taken; only a deadline that has passed ends a wait otherwise; nobody who stored a notification since
the latch was last swapped has returned while the waiter is parked; and when notifications were
stored between two waits, however many, the next wait takes them and returns as the first thing it
does. -/
theorem notifications_kept {ms : List Move} {s : Shared} (h : Shared.fresh.run ms = some s) :
    (∀ later d earlier, s.log = later ++ .ended d .signaled :: earlier → Took earlier) ∧
      (∀ d, .ended d .deadline ∈ s.log → ∃ t ≤ s.now, d = some t) ∧
      (∀ d n, s.waiter = .parked d → Recent s.log n → .notified n ∉ s.log) ∧
      ∀ later d earlier, s.log = later ++ .began d :: earlier → Prompted earlier →
        (∃ after mid, later = after ++ .ended d .signaled :: .swapped true :: mid ∧ Quiet mid) ∨
          Quiet later ∧ ∃ s', s.move .waiter = some s' ∧ s'.waiter = .idle ∧
            s'.log = .ended d .signaled :: .swapped true :: s.log := by
  have hs := run_inv h
  refine ⟨hs.earned, hs.expired, fun d n hd hn hreturned => ?_,
    fun later d earlier hlog hearlier => ?_⟩
  · have hwas := hs.returned n hreturned
    rcases hs.asleep d (.inr hd) n hn with hlook | ⟨hrouse, -⟩
    · rw [hwas] at hlook
      cases hlook
    · rw [hwas] at hrouse
      cases hrouse
  · rcases hs.prompt later d earlier hlog hearlier with ⟨hquiet, hw⟩ | hdone
    · have hl : s.signal.latched = true := by
        rw [hs.latch, hlog]
        exact hearlier.recent hquiet
      refine .inr ⟨hquiet, ?_⟩
      simp only [Shared.move, Shared.waiterMove, hw, s.signal.consume_of_latched hl]
      exact ⟨_, rfl, rfl, rfl⟩
    · exact .inl hdone

section Demo

/-- Two notifications before a wait, one that is stored when the waiter has looked and is about to
park, a deadline, and one that is stored after the waiter has parked again. -/
def overlapping : List Move :=
  [.notifier 0, .notifier 1, .notifier 1, .notifier 0, .wait none, .waiter,
    .wait (some 3), .waiter, .waiter, .waiter, .notifier 2, .waiter, .notifier 2, .notifier 2,
    .waiter, .waiter, .waiter,
    .wait (some 1), .waiter, .waiter, .waiter, .waiter, .tick,
    .waiter, .waiter, .waiter, .waiter, .waiter,
    .wait none, .waiter, .waiter, .waiter, .waiter, .notifier 3, .notifier 3]

theorem notifications_kept_overlapping : ∃ s, Shared.fresh.run overlapping = some s ∧
    (∃ later earlier, s.log = later ++ .ended (some 3) .signaled :: earlier ∧ Took earlier) ∧
    (.ended (some 1) .deadline ∈ s.log ∧ ∃ t ≤ s.now, some 1 = some t) ∧
    (s.waiter = .parked none ∧ Recent s.log 3 ∧ .notified 3 ∉ s.log) ∧
    ∃ later earlier, s.log = later ++ .began none :: earlier ∧ Prompted earlier ∧
      ∃ after mid, later = after ++ .ended none .signaled :: .swapped true :: mid ∧ Quiet mid := by
  have hsome : (Shared.fresh.run overlapping).isSome := rfl
  obtain ⟨s, hs⟩ := Option.isSome_iff_exists.mp hsome
  obtain ⟨hearned, hexpired, hparked, hnext⟩ := notifications_kept hs
  have hended : s.log = s.log.take 9 ++ .ended (some 3) .signaled :: s.log.drop 10 := by
    cases hs
    rfl
  have hdeadline : .ended (some 1) .deadline ∈ s.log := by
    cases hs
    decide
  have hwaiter : s.waiter = .parked none := by
    cases hs
    rfl
  have hrecent : Recent s.log 3 := by
    cases hs
    exact recent_cons.mpr ⟨rfl, .inl rfl⟩
  have hbegan : s.log = s.log.take 18 ++ .began none :: s.log.drop 19 := by
    cases hs
    rfl
  have hprompted : Prompted (s.log.drop 19) := by
    cases hs
    exact ⟨0, by decide⟩
  have hbusy : ¬ Quiet (s.log.take 18) := by
    cases hs
    intro h
    cases h (.swapped true) (by decide)
  exact ⟨s, hs, ⟨_, _, hended, hearned _ _ _ hended⟩, ⟨hdeadline, hexpired _ hdeadline⟩,
    ⟨hwaiter, hrecent, hparked _ _ hwaiter hrecent⟩, _, _, hbegan, hprompted,
    (hnext _ _ _ hbegan hprompted).resolve_right fun h => hbusy h.1⟩

end Demo

end KnxIoT.WakeSignal

import KnxIoT.WakeSignal
import Mathlib.Data.Nat.Notation
import Mathlib.Logic.Function.Basic
import Mathlib.Tactic.Common

/-! # A wake signal used by several threads

One waiter and any number of notifiers share a wake signal. What is one step here is one access to
the latch, one section under the mutex of the flag that says whether the waiter is parked, or one
step of the condition variable:

* a notifier stores a notification in the latch, looks at the flag, and rouses the waiter if the
  flag was set;
* the waiter swaps the latch for an empty one and returns if there was something in it. Otherwise it
  takes the mutex, sets the flag, and swaps again before every time it parks. Parking gives the
  mutex back, and the waiter may stir without having been roused.

The mutex is held by the waiter at the places that are `locked`; a notifier holds it only within one
step. `Shared.move` is one step, `Shared.run` a schedule of them, and `move_step` says what a step
can be. A notification or a wait that nobody interferes with is `notify` (`notify_alone`) or `wait`
(`wait_alone`). -/

namespace KnxIoT.WakeSignal

/-! ## Threads -/

/-- Where a notifier is. -/
inductive Notifier where
  | store
  | look
  | rouse
  | returned

/-- Where the waiter is, with the deadline of its wait. -/
inductive Waiter where
  | idle
  | swap (deadline : Option ℕ)
  | enter (deadline : Option ℕ)
  | scan (deadline : Option ℕ)
  | decide (deadline : Option ℕ)
  | parked (deadline : Option ℕ)
  | roused (deadline : Option ℕ)
  | leave (deadline : Option ℕ) (r : WakeReason)

namespace Waiter

/-- Whether the waiter holds the mutex of the flag. -/
def locked : Waiter → Bool
  | scan _ | decide _ | leave .. => true
  | _ => false

/-- Whether the flag is set. -/
def flagged : Waiter → Bool
  | scan _ | decide _ | parked _ | roused _ | leave .. => true
  | _ => false

/-- Rousing reaches a parked waiter only. -/
def rouse : Waiter → Waiter
  | parked d => roused d
  | p => p

end Waiter

/-- What happens to the latch, and calls that begin or return. -/
inductive Happening where
  /-- Notification `n` is stored in the latch. -/
  | stored (n : ℕ)
  /-- Notification `n` returns. -/
  | notified (n : ℕ)
  | began (deadline : Option ℕ)
  /-- The waiter swaps the latch for an empty one. -/
  | swapped (taken : Bool)
  | ended (deadline : Option ℕ) (r : WakeReason)
  deriving DecidableEq

/-- **A wake signal between two steps.** Each notification has a number, and what happened last is
the first of the log. -/
structure Shared where
  signal : WakeSignal := {}
  notifiers : ℕ → Notifier := fun _ => .store
  waiter : Waiter := .idle
  now : ℕ := 0
  log : List Happening := []

/-- What the scheduler chooses. -/
inductive Move where
  | notifier (n : ℕ)
  | wait (deadline : Option ℕ)
  | waiter
  | tick

namespace Shared

/-- A wake signal that nobody uses yet. -/
def fresh : Shared := {}

/-- Moves notifier `n` on, unless it has to wait for the mutex. -/
def notifierMove (s : Shared) (n : ℕ) : Option Shared :=
  match s.notifiers n with
  | .store =>
    some
      { s with
        signal := s.signal.latch
        notifiers := Function.update s.notifiers n .look
        log := .stored n :: s.log }
  | .look =>
    if s.waiter.locked then none
    else if s.signal.parked then
      some { s with notifiers := Function.update s.notifiers n .rouse }
    else
      some
        { s with
          notifiers := Function.update s.notifiers n .returned
          log := .notified n :: s.log }
  | .rouse =>
    some
      { s with
        notifiers := Function.update s.notifiers n .returned
        waiter := s.waiter.rouse
        log := .notified n :: s.log }
  | .returned => none

/-- Moves the waiter on. A parked one stirs, be it that its deadline has passed or for no reason. -/
def waiterMove (s : Shared) : Option Shared :=
  match s.waiter with
  | .idle => none
  | .swap d => match s.signal.consume with
    | (true, w) =>
      some
        { s with signal := w, waiter := .idle, log := .ended d .signaled :: .swapped true :: s.log }
    | (false, w) => some { s with signal := w, waiter := .enter d, log := .swapped false :: s.log }
  | .enter d => some { s with signal := s.signal.park true, waiter := .scan d }
  | .scan d => match s.signal.consume with
    | (true, w) =>
      some { s with signal := w, waiter := .leave d .signaled, log := .swapped true :: s.log }
    | (false, w) => some { s with signal := w, waiter := .decide d, log := .swapped false :: s.log }
  | .decide d =>
    some { s with waiter := if d.any (· ≤ s.now) then .leave d .deadline else .parked d }
  | .parked d => some { s with waiter := .roused d }
  | .roused d => some { s with waiter := .scan d }
  | .leave d r =>
    some { s with signal := s.signal.park false, waiter := .idle, log := .ended d r :: s.log }

/-- **One step.** -/
def move (s : Shared) : Move → Option Shared
  | .notifier n => s.notifierMove n
  | .wait d => match s.waiter with
    | .idle => some { s with waiter := .swap d, log := .began d :: s.log }
    | _ => none
  | .waiter => s.waiterMove
  | .tick => some { s with now := s.now + 1 }

/-- **A schedule:** one move after the other, each of which must be possible. -/
def run : List Move → Shared → Option Shared
  | [], s => some s
  | m :: ms, s => match s.move m with
    | none => none
    | some s => s.run ms

end Shared

/-! ## What a step can be -/

/-- **The steps,** each with what it needs and what it changes. -/
inductive Step (s : Shared) : Shared → Prop
  | store {n : ℕ} (hn : s.notifiers n = .store) :
    Step s
      { s with
        signal := { s.signal with latched := true }
        notifiers := Function.update s.notifiers n .look
        log := .stored n :: s.log }
  | look {n : ℕ} (hn : s.notifiers n = .look) (hfree : s.waiter.locked = false)
    (hflag : s.signal.parked = true) :
    Step s { s with notifiers := Function.update s.notifiers n .rouse }
  | pass {n : ℕ} (hn : s.notifiers n = .look) (hfree : s.waiter.locked = false)
    (hflag : s.signal.parked = false) :
    Step s
      { s with
        notifiers := Function.update s.notifiers n .returned
        log := .notified n :: s.log }
  | rouse {n : ℕ} (hn : s.notifiers n = .rouse) :
    Step s
      { s with
        notifiers := Function.update s.notifiers n .returned
        waiter := s.waiter.rouse
        log := .notified n :: s.log }
  | begin (d : Option ℕ) (hw : s.waiter = .idle) :
    Step s { s with waiter := .swap d, log := .began d :: s.log }
  | seize {d : Option ℕ} (hw : s.waiter = .swap d) (hl : s.signal.latched = true) :
    Step s
      { s with
        signal := { s.signal with latched := false }
        waiter := .idle
        log := .ended d .signaled :: .swapped true :: s.log }
  | take {d : Option ℕ} (hw : s.waiter = .scan d) (hl : s.signal.latched = true) :
    Step s
      { s with
        signal := { s.signal with latched := false }
        waiter := .leave d .signaled
        log := .swapped true :: s.log }
  | miss {d : Option ℕ} {p : Waiter}
    (hw : s.waiter = .swap d ∧ p = .enter d ∨ s.waiter = .scan d ∧ p = .decide d)
    (hl : s.signal.latched = false) :
    Step s { s with waiter := p, log := .swapped false :: s.log }
  | enter {d : Option ℕ} (hw : s.waiter = .enter d) :
    Step s { s with signal := { s.signal with parked := true }, waiter := .scan d }
  | expire {t : ℕ} (hw : s.waiter = .decide (some t)) (ht : t ≤ s.now) :
    Step s { s with waiter := .leave (some t) .deadline }
  | park {d : Option ℕ} (hw : s.waiter = .decide d) (hd : ∀ t, d = some t → s.now < t) :
    Step s { s with waiter := .parked d }
  | stir {d : Option ℕ} (hw : s.waiter = .parked d) : Step s { s with waiter := .roused d }
  | relock {d : Option ℕ} (hw : s.waiter = .roused d) : Step s { s with waiter := .scan d }
  | leave {d : Option ℕ} {r : WakeReason} (hw : s.waiter = .leave d r) :
    Step s
      { s with
        signal := { s.signal with parked := false }
        waiter := .idle
        log := .ended d r :: s.log }
  | tick : Step s { s with now := s.now + 1 }

section Steps
variable {s s' : Shared}

theorem notifierMove_step {n : ℕ} (h : s.notifierMove n = some s') : Step s s' := by
  unfold Shared.notifierMove at h
  split at h
  · next hn => cases h; exact .store hn
  · next hn =>
    split_ifs at h with hlocked hflag
    · cases h
      exact .look hn (by simpa using hlocked) hflag
    · cases h
      exact .pass hn (by simpa using hlocked) (by simpa using hflag)
  · next hn => cases h; exact .rouse hn
  · cases h

theorem waiterMove_step (h : s.waiterMove = some s') : Step s s' := by
  unfold Shared.waiterMove at h
  split at h
  · cases h
  · next d hw =>
    cases hl : s.signal.latched with
    | true =>
      rw [s.signal.consume_of_latched hl] at h
      cases h; exact .seize hw hl
    | false =>
      rw [s.signal.consume_of_not_latched hl] at h
      cases h; exact .miss (.inl ⟨hw, rfl⟩) hl
  · next d hw => cases h; exact .enter hw
  · next d hw =>
    cases hl : s.signal.latched with
    | true =>
      rw [s.signal.consume_of_latched hl] at h
      cases h; exact .take hw hl
    | false =>
      rw [s.signal.consume_of_not_latched hl] at h
      cases h; exact .miss (.inr ⟨hw, rfl⟩) hl
  · next d hw =>
    cases h
    split_ifs with hd
    · obtain ⟨t, rfl, ht⟩ := (Option.any_eq_true _ _).mp hd
      exact .expire hw (by simpa using ht)
    · refine .park hw fun t ht => ?_
      subst ht
      simpa using hd
  · next d hw => cases h; exact .stir hw
  · next d hw => cases h; exact .relock hw
  · next d r hw => cases h; exact .leave hw

theorem move_step {m : Move} (h : s.move m = some s') : Step s s' := by
  cases m with
  | notifier n => exact notifierMove_step h
  | wait d =>
    simp only [Shared.move] at h
    split at h
    · next hw => cases h; exact .begin d hw
    · cases h
  | waiter => exact waiterMove_step h
  | tick => cases h; exact .tick

theorem run_induction {P : Shared → Prop} (hstep : ∀ s s', P s → Step s s' → P s') (ms : List Move)
    (hs : P s) (h : s.run ms = some s') : P s' := by
  induction ms generalizing s with
  | nil => cases h; exact hs
  | cons m ms ih =>
    simp only [Shared.run] at h
    split at h
    · cases h
    · next s₁ hm => exact ih (hstep _ _ hs (move_step hm)) h

end Steps

/-! ## Alone -/

section Alone
variable {s : Shared}

/-- **A notification that nobody interferes with** is `notify`. -/
theorem notify_alone {n : ℕ} (hn : s.notifiers n = .store) (hfree : s.waiter.locked = false) :
    s.run (List.replicate (if s.signal.parked then 3 else 2) (.notifier n)) =
      some
        { s with
          signal := s.signal.notify.2
          notifiers := Function.update s.notifiers n .returned
          waiter := if s.signal.notify.1 then s.waiter.rouse else s.waiter
          log := .notified n :: .stored n :: s.log } := by
  cases hp : s.signal.parked <;>
    simp [List.replicate, Shared.run, Shared.move, Shared.notifierMove, hn, hfree, notify, latch,
      hp]

theorem run_ticks (k : ℕ) (ms : List Move) :
    s.run (List.replicate k .tick ++ ms) = ({ s with now := s.now + k } : Shared).run ms := by
  induction k generalizing s with
  | zero => rfl
  | succ k ih =>
    rw [List.replicate_succ, List.cons_append]
    refine ih.trans ?_
    rw [Nat.add_right_comm]
    rfl

/-- **A wait during which nothing is notified** is `wait`: it ends as that does, or it leaves the
waiter parked. -/
theorem wait_alone (hw : s.waiter = .idle) (hp : s.signal.parked = false) (d : Option ℕ) :
    ∃ ms s', (∀ m ∈ ms, m = .waiter ∨ m = .tick) ∧ s.run (.wait d :: ms) = some s' ∧
      match s.signal.wait d.isSome with
      | (some r, w) => s'.waiter = .idle ∧ s'.signal = w ∧ s'.log.head? = some (.ended d r)
      | (none, w) => s'.waiter = .parked d ∧ s'.signal = w.park true := by
  obtain ⟨⟨latched, parked⟩, notifiers, waiter, now, log⟩ := s
  obtain rfl : parked = false := hp
  obtain rfl : waiter = .idle := hw
  cases latched with
  | true => exact ⟨[.waiter], _, by simp, rfl, rfl, rfl, rfl⟩
  | false =>
    cases d with
    | none =>
      exact ⟨List.replicate 4 .waiter, _, by simp, rfl, rfl, rfl⟩
    | some t =>
      let s' : Shared :=
        { signal := {}
          notifiers := notifiers
          waiter := .idle
          now := now + (t - now)
          log := .ended (some t) .deadline :: .swapped false :: .swapped false ::
            .began (some t) :: log }
      have hlate : t ≤ now + (t - now) := by omega
      refine ⟨List.replicate (t - now) .tick ++ List.replicate 5 .waiter, s', fun m hm => ?_,
        (run_ticks (t - now) _).trans ?_, rfl, rfl, rfl⟩
      · rcases List.mem_append.mp hm with hm | hm
        · exact .inr (List.eq_of_mem_replicate hm)
        · exact .inl (List.eq_of_mem_replicate hm)
      · simp [List.replicate, Shared.run, Shared.move, Shared.waiterMove, consume, park, hlate, s']

end Alone

end KnxIoT.WakeSignal

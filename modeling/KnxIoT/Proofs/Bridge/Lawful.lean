import KnxIoT.Proofs.Bridge.Draining

/-! # Lawful pieces

A piece of a command is `Lawful` if the entries that it leaves agree with what it does to the
pending tokens, obey the law, and give out a token only as new. There are four ways of being so,
besides draining the queue: the piece replies without giving out a token, gives one out, refuses
with a notification, or gives up everything. -/

namespace KnxIoT.Bridge

variable {σ : Type}

/-- What the bridge of a run keeps: its tokens are numbered, and once it was told to stop its engine
has ended and nothing is pending. -/
structure Sound (b : Bridge σ) : Prop where
  bounded : b.correlator.Bounded
  retired : b.loop.quit = true → b.phase = .released ∧ ∀ t, b.correlator.find? t = none

/-- The entries that a piece of the command `c` leaves. -/
def entries (c : Command σ) (p : Piece σ) (h : Option HandlerName) : List (Entry σ) :=
  p.1.log.map .happened ++ [p.2.closing c h]

/-- A command that runs a poll cycle. -/
def Command.IsCycle : Command σ → Prop
  | .poll => True
  | .cycle => True
  | _ => False

/-- **A lawful piece** of the command `c`; the entries `opening` come before its own. -/
structure Lawful (c : Command σ) (opening : List (Entry σ)) (b : Bridge σ) (p : Piece σ) :
    Prop where
  settings : p.1.settings = b.settings
  sound : p.1.Sound
  issued : b.correlator.issued ≤ p.1.correlator.issued
  law : ∀ h, Law b.settings b.correlator.find? (opening ++ entries c p h)
  replay : ∀ h, replay b.settings b.correlator.find? (opening ++ entries c p h) =
    p.1.correlator.find?
  granted : ∀ r t, p.2 = .reply r → r.granted? = some t →
    t = .after b.correlator.issued ∧ p.1.correlator.issued = b.correlator.issued + 1
  rest : ∀ n a, p.2 = .notify n a → a.finalReply.granted? = none
  quiet : opening = [] ∨ c.IsCycle ∨ ∀ x ∈ p.1.log, NotTaken x

theorem Sound.of_steady {b b' : Bridge σ} (h : b.Sound) (hs : Steady b b')
    (hi : b.correlator.issued ≤ b'.correlator.issued)
    (hf : b'.correlator.find? = b.correlator.find?) : b'.Sound where
  bounded u p hp := Nat.le_trans (h.bounded u p (by rw [← hf]; exact hp)) hi
  retired hq := by
    rw [hs.quit] at hq
    rw [hs.phase, hf]
    exact h.retired hq

/-! ### Entries that concern no token -/

section Entries
variable {s : Settings} {L : Token → Option Pending}

theorem post_returned {r : Reply} (h : r.granted? = none) (c : Command σ) :
    post s L (.returned c r) = L :=
  post_eq_self (by simp [issue?, h]) (fun _ _ => rfl) L

theorem post_called {c : Command σ} (h : abandons (.called c) = false) :
    post s L (.called c) = L :=
  post_eq_self rfl (fun _ _ => by simpa [closes] using h) L

theorem post_notified (n : Notification) (h : Option HandlerName) :
    post s L (.notified n h : Entry σ) = L :=
  post_eq_self rfl (fun _ _ => rfl) L

theorem replay_concat (L : Token → Option Pending) (es : List (Entry σ)) (x : Entry σ) :
    replay s L (es ++ [x]) = post s (replay s L es) x := replay_append L es [x]

/-- Entries at which nothing is given out leave nothing pending if everything is given up at one. -/
theorem replay_of_abandons {es : List (Entry σ)} (hi : ∀ x ∈ es, issue? s x = none)
    (ha : ∃ x ∈ es, abandons x = true) : replay s L es = fun _ => none := by
  have hnone : ∀ fs : List (Entry σ), (∀ x ∈ fs, issue? s x = none) →
      replay s (fun _ => none) fs = fun _ => none := by
    intro fs hfs
    induction fs with
    | nil => rfl
    | cons x fs ih =>
      have hx : post s (fun _ => none) x = fun _ => none := by
        funext t
        unfold post
        rw [hfs x (by simp)]
        rfl
      rw [replay_cons, hx]
      exact ih fun y hy => hfs y (by simp [hy])
  obtain ⟨x, hx, hax⟩ := ha
  obtain ⟨fs, gs, rfl⟩ := List.append_of_mem hx
  rw [replay_append, replay_cons, post_of_abandons hax]
  exact hnone gs fun y hy => hi y (by simp [hy])

theorem law_of_reply {opening : List (Entry σ)} (c : Command σ) {b' : Bridge σ} {r : Reply}
    (ho : ∀ x ∈ opening, x = .called c) (ht : ∀ x ∈ b'.log, NotTaken x) (h : Option HandlerName) :
    Law s L (opening ++ entries c (b', .reply r) h) := by
  refine law_of_quiet (fun e he => ?_) (fun n hd hn => ?_)
  · simp only [entries, Dispatch.Outcome.closing, List.mem_append, List.mem_map,
      List.mem_singleton, reduceCtorEq, or_false, Dispatch.Entry.happened.injEq,
      exists_eq_right] at he
    rcases he with he | he
    · exact absurd (ho _ he) (by simp)
    · exact ht _ he e rfl
  · simp only [entries, Dispatch.Outcome.closing, List.mem_append, List.mem_map,
      List.mem_singleton, reduceCtorEq, or_false, and_false, exists_false] at hn
    exact absurd (ho _ hn) (by simp)

end Entries

theorem notTaken_of_isPlain {x : Happening} (h : x.IsPlain) : NotTaken x := by
  rintro e rfl
  exact h

/-! ### Ways of being lawful -/

section Ways
variable {c : Command σ} {b b' : Bridge σ}

theorem replay_entries {p : Piece σ} (hl : b.log = []) (hc : abandons (.called c) = false)
    (hp : Calm b p.1) (h : Option HandlerName) :
    replay b.settings b.correlator.find? ([.called c] ++ entries c p h) =
      post b.settings b.correlator.find? (p.2.closing c h) := by
  obtain ⟨hs, he, hpl⟩ := hp.log
  rw [hl, List.nil_append] at he
  rw [entries, he, List.singleton_append, replay_cons, post_called hc, replay_concat,
    replay_of_isPlain hpl]

theorem notTaken_of_calm (hl : b.log = []) (hp : Calm b b') : ∀ x ∈ b'.log, NotTaken x := by
  obtain ⟨hs, he, hpl⟩ := hp.log
  rw [he, hl]
  exact fun x hx => notTaken_of_isPlain (hpl x hx)

/-- **A piece that replies** without giving out a token or closing one is lawful. -/
theorem lawful_of_reply {r : Reply} (hl : b.log = []) (hc : abandons (.called c) = false)
    (hp : Calm b b') (hs : b'.Sound) (hi : b.correlator.issued ≤ b'.correlator.issued)
    (hf : b'.correlator.find? = b.correlator.find?) (hr : r.granted? = none) :
    Lawful c [.called c] b (b', .reply r) where
  settings := hp.settings
  sound := hs
  issued := hi
  law h := law_of_reply c (by simp) (notTaken_of_calm hl hp) h
  replay h := by
    rw [replay_entries (p := (b', .reply r)) hl hc hp h, hf]
    exact post_returned hr c
  granted r' t he ht := by cases he; rw [hr] at ht; cases ht
  rest n a he := nomatch he
  quiet := Or.inr (Or.inr (notTaken_of_calm hl hp))

/-- **A piece that gives out a token** is lawful. -/
theorem lawful_of_grant {p : Pending} {t : Token} (hl : b.log = [])
    (hc : abandons (.called c) = false) (hp : Calm b b') (hs : b'.Sound)
    (ho : opens? b.settings c = some p) (ht : t = .after b.correlator.issued)
    (hi : b'.correlator.issued = b.correlator.issued + 1)
    (hf : ∀ u, b'.correlator.find? u = if u = t then some p else b.correlator.find? u) :
    Lawful c [.called c] b (b', .reply (.token (.ok t))) where
  settings := hp.settings
  sound := hs
  issued := by rw [hi]; omega
  law h := law_of_reply c (by simp) (notTaken_of_calm hl hp) h
  replay h := by
    rw [replay_entries (p := (b', .reply _)) hl hc hp h]
    funext u
    rw [hf]
    simp only [post, Dispatch.Outcome.closing, issue?, Reply.granted?, ho]
  granted r t' he ht' := by cases he; cases ht'; exact ⟨ht, hi⟩
  rest n a he := nomatch he
  quiet := Or.inr (Or.inr (notTaken_of_calm hl hp))

/-- **A piece that refuses with a notification** is lawful. -/
theorem lawful_of_refusal {n : Notification} {r : Reply} (hl : b.log = [])
    (hc : abandons (.called c) = false) (hp : Calm b b') (hs : b'.Sound)
    (hi : b.correlator.issued ≤ b'.correlator.issued)
    (hf : b'.correlator.find? = b.correlator.find?) (hn : Refusal b.settings c n)
    (hr : r.granted? = none) : Lawful c [.called c] b (b', .notify n (.reply r)) where
  settings := hp.settings
  sound := hs
  issued := hi
  law h := by
    have hnt := notTaken_of_calm hl hp
    constructor
    · intro pre post e t p n' hes
      have hmem : .happened (.taken e) ∈
          [.called c] ++ entries c (b', .notify n (.reply r)) h := by rw [hes]; simp
      simp only [entries, Dispatch.Outcome.closing, List.mem_append, List.mem_map,
        List.mem_singleton, reduceCtorEq, or_false, false_or, Dispatch.Entry.happened.injEq,
        exists_eq_right] at hmem
      exact absurd rfl (hnt _ hmem e)
    · intro pre n' h' post hes _
      have hlast : .notified n' h' ∉ (.called c :: b'.log.map .happened : List (Entry σ)) := by simp
      obtain ⟨rfl, heq⟩ := Lists.eq_of_concat_eq hes hlast
      cases heq
      exact Or.inr ⟨[], c, b'.log, rfl, hnt, hn⟩
  replay h := by
    rw [replay_entries (p := (b', .notify n _)) hl hc hp h, hf]
    exact post_notified n h
  granted r' t he := nomatch he
  rest n' a he := by cases he; exact hr
  quiet := Or.inr (Or.inr (notTaken_of_calm hl hp))

/-- **A piece in which everything is given up** is lawful. -/
theorem lawful_of_abandon {r : Reply} (hset : b'.settings = b.settings) (hs : b'.Sound)
    (hi : b.correlator.issued ≤ b'.correlator.issued) (hf : ∀ t, b'.correlator.find? t = none)
    (ht : ∀ x ∈ b'.log, NotTaken x)
    (ha : abandons (.called c) = true ∨ ∃ x ∈ b'.log, abandons (.happened x : Entry σ) = true)
    (hr : r.granted? = none) : Lawful c [.called c] b (b', .reply r) where
  settings := hset
  sound := hs
  issued := hi
  law h := law_of_reply c (by simp) ht h
  replay h := by
    rw [entries, ← List.append_assoc, replay_concat, replay_of_abandons]
    · rw [funext hf]
      exact post_returned hr c
    · intro x hx
      rcases List.mem_append.mp hx with hx | hx
      · rw [List.mem_singleton.mp hx]; rfl
      · obtain ⟨y, -, rfl⟩ := List.mem_map.mp hx
        rfl
    · rcases ha with ha | ⟨x, hx, ha⟩
      · exact ⟨.called c, by simp, ha⟩
      · exact ⟨.happened x, List.mem_append_right _ (List.mem_map_of_mem hx), ha⟩
  granted r' t he ht' := by cases he; rw [hr] at ht'; cases ht'
  rest n a he := nomatch he
  quiet := Or.inr (Or.inr ht)

end Ways

end KnxIoT.Bridge
